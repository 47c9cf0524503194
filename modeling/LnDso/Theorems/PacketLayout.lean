import LnDso.Lib.Regions
import LnDso.Machine.Poll
import Mathlib.Data.List.Induction
import Mathlib.Data.List.Perm.Subperm

/-!
# The layout of packet memory

`_usbd_ep_setup` moves `usb_pm_top` up by the size it is asked for. What a
receive buffer really takes is what COUNT_RX says, and that is the size asked
for at 32 bytes only.
-/

namespace LnDso

open Lib UsbPeriph

/-- The bytes of a receive buffer that COUNT_RX codes: NUM_BLOCK blocks of 2
bytes, or NUM_BLOCK + 1 blocks of 32 with BL_SIZE. -/
def rxBufferSize (count : Half) : Nat :=
  let numBlock := ((count >>> 10) &&& 0x1f).toNat
  if count &&& 0x8000 = 0 then 2 * numBlock else 32 * (numBlock + 1)

/-- What `_set_ep_rx_bufsize` writes to COUNT_RX. -/
def rxCount (size : Word) : Half :=
  if 62 < size then
    (((if size &&& 0x1f ≠ 0 then size - 32 else size) <<< 5) ||| 0x8000).setWidth 16
  else ((if size &&& 1 ≠ 0 then size + 1 else size) <<< 10).setWidth 16

/-- The buffer for a size: sizes up to 62 are shifted by 10 as they are, a byte
count where a block count belongs, and spill into BL_SIZE from 32 on. -/
def rxLen (size : Nat) : Nat :=
  if size ≤ 30 then 2 * (size + size % 2)
  else if size ≤ 62 then 32 * (size + size % 2 - 31)
  else if size % 32 = 0 then size + 32
  else 32 * (size / 32)

theorem rxBufferSize_rxCount : ∀ size < 993,
    rxBufferSize (rxCount (BitVec.ofNat 32 size)) = rxLen size := by
  decide +kernel

theorem rxLen_le_iff {size : Nat} (hpos : 0 < size) :
    rxLen size ≤ size ↔ size = 32 ∨ 62 < size ∧ ¬ 32 ∣ size := by
  rw [rxLen]
  split
  · omega
  · split
    · omega
    · split <;> omega

theorem le_rxLen_iff {size : Nat} (hpos : 0 < size) :
    size ≤ rxLen size ↔ size ≤ 62 ∨ 32 ∣ size := by
  rw [rxLen]
  split
  · omega
  · split
    · omega
    · split <;> omega

theorem rxLen_pos {size : Nat} (hpos : 0 < size) : 0 < rxLen size := by
  rw [rxLen]
  split
  · omega
  · split
    · omega
    · split <;> omega

/-! ## One call -/

/-- The arguments of a call of `_usbd_ep_setup`. -/
structure EpSetup where
  addr : Byte
  type : Byte
  maxSize : Half

namespace EpSetup

variable (c : EpSetup)

/-- The endpoint number. -/
def ep : Nat := (c.addr &&& 0x7f).toNat

/-- It has a transmit buffer. -/
def HasTx : Prop := c.addr &&& 0x80 ≠ 0 ∨ c.ep = 0

/-- It has a receive buffer. -/
def HasRx : Prop := c.addr &&& 0x80 = 0

instance : Decidable c.HasTx := inferInstanceAs (Decidable (_ ∨ _))

instance : Decidable c.HasRx := inferInstanceAs (Decidable (_ = _))

/-- `_usbd_ep_setup`, with `usb_pm_top`. -/
def run (s : Half × UsbPeriph) : Half × UsbPeriph := usbdEpSetup c.addr c.type c.maxSize s.1 s.2

/-- The regions the hardware uses, as the descriptor of the endpoint has them. -/
def regions (u : UsbPeriph) : List Region :=
  (if c.HasTx then [⟨(usbGetEpTxAddr c.ep u).toNat, c.maxSize.toNat⟩] else []) ++
    if c.HasRx then
      [⟨(usbGetEpRxAddr c.ep u).toNat, rxBufferSize (usbGetEpRxCount c.ep u)⟩] else []

/-- What the call asks for, and what is used of it. -/
def parts : List Part :=
  (if c.HasTx then [⟨c.maxSize.toNat, c.maxSize.toNat⟩] else []) ++
    if c.HasRx then [⟨c.maxSize.toNat, rxLen c.maxSize.toNat⟩] else []

/-- An endpoint there is, and a size of 1 to 992. -/
structure Valid : Prop where
  ep : c.ep < 8
  pos : 0 < c.maxSize.toNat
  le : c.maxSize.toNat ≤ 992

end EpSetup

variable {c : EpSetup} {calls : List EpSetup} {u v : UsbPeriph} {top : Half} {n : Nat}

/-- The same descriptors but those of endpoint `n`. -/
structure SameDesc (n : Nat) (u v : UsbPeriph) : Prop where
  btable : v.reg usbBtableReg = u.reg usbBtableReg
  desc : ∀ m ≠ n, ∀ k < 8, v.desc (u.descOff m k) = u.desc (u.descOff m k)

theorem SameDesc.trans {w : UsbPeriph} (h : SameDesc n u v) (h' : SameDesc n v w) :
    SameDesc n u w := by
  refine ⟨h'.btable.trans h.btable, fun m hm k hk => ?_⟩
  have hoff : v.descOff m k = u.descOff m k := by rw [descOff_eq, descOff_eq, h.btable]
  rw [← h.desc m hm k hk, ← hoff]
  exact h'.desc m hm k hk

theorem epRegRmw_sameDesc (hn : n < 8) (f : Half → Half) (u : UsbPeriph) :
    SameDesc n u (epRegRmw n f u) :=
  ⟨epRegRmw_reg_ne (by simp only [usbBtableReg]; omega) f u, fun _ _ _ _ => rfl⟩

theorem setDesc_sameDesc {k : Nat} (hk : k < 8) (x : Half) (u : UsbPeriph) :
    SameDesc n u (u.setDesc (u.descOff n k) x) := by
  refine ⟨rfl, fun m hm j hj => Function.update_of_ne ?_ _ _⟩
  rw [descOff_eq, descOff_eq]
  omega

theorem descOff_epRegRmw (hn : n < 8) (f : Half → Half) (u : UsbPeriph) (m k : Nat) :
    (epRegRmw n f u).descOff m k = u.descOff m k := by
  rw [descOff_eq, descOff_eq, (epRegRmw_sameDesc hn f u).btable]

theorem descOff_setDesc (off : Nat) (x : Half) (u : UsbPeriph) (m k : Nat) :
    (u.setDesc off x).descOff m k = u.descOff m k := rfl

theorem setEpRxBufsize_eq (size : Word) (u : UsbPeriph) :
    setEpRxBufsize n size u = usbSetEpRxCount n (rxCount size) u := by
  rw [setEpRxBufsize, rxCount]
  split <;> rfl

theorem epSetupTx_eq (maxSize top : Half) (u : UsbPeriph) : (epSetupTx n maxSize top u).2 =
    epRegRmw n (setTxStatVal · usbEpTxStatNak) (epRegRmw n clrTxDtogVal
      (u.setDesc (u.descOff n 0) top)) := rfl

theorem epSetupRx_eq (maxSize top : Half) (u : UsbPeriph) : (epSetupRx n maxSize top u).2 =
    epRegRmw n (setRxStatVal · usbEpRxStatValid) (epRegRmw n clrRxDtogVal
      ((u.setDesc (u.descOff n 4) top).setDesc (u.descOff n 6) (rxCount (maxSize.setWidth 32)))) := by
  rw [epSetupRx, setEpRxBufsize_eq]
  rfl

theorem epSetupTx_desc (hn : n < 8) (maxSize top : Half) (u : UsbPeriph) :
    SameDesc n u (epSetupTx n maxSize top u).2 ∧
      usbGetEpTxAddr n (epSetupTx n maxSize top u).2 = top := by
  rw [epSetupTx_eq]
  constructor
  · have hdesc := setDesc_sameDesc (n := n) (k := 0) (by omega) top u
    exact (hdesc.trans (epRegRmw_sameDesc hn clrTxDtogVal _)).trans (epRegRmw_sameDesc hn _ _)
  · rw [usbGetEpTxAddr, descOff_epRegRmw hn, descOff_epRegRmw hn, epRegRmw_desc, epRegRmw_desc,
      descOff_setDesc]
    exact Function.update_self ..

theorem epSetupRx_desc (hn : n < 8) (maxSize top : Half) (u : UsbPeriph) :
    SameDesc n u (epSetupRx n maxSize top u).2 ∧
      usbGetEpTxAddr n (epSetupRx n maxSize top u).2 = usbGetEpTxAddr n u ∧
      usbGetEpRxAddr n (epSetupRx n maxSize top u).2 = top ∧
      usbGetEpRxCount n (epSetupRx n maxSize top u).2 = rxCount (maxSize.setWidth 32) := by
  have hoff : ∀ j k, j ≠ k → u.descOff n j ≠ u.descOff n k := by
    intro j k hjk
    rw [descOff_eq, descOff_eq]
    omega
  have hsame : ∀ k, (epSetupRx n maxSize top u).2.desc ((epSetupRx n maxSize top u).2.descOff n k) =
      Function.update (Function.update u.desc (u.descOff n 4) top) (u.descOff n 6)
        (rxCount (maxSize.setWidth 32)) (u.descOff n k) := by
    intro k
    rw [epSetupRx_eq, descOff_epRegRmw hn, descOff_epRegRmw hn, epRegRmw_desc, epRegRmw_desc,
      descOff_setDesc, descOff_setDesc]
    rfl
  refine ⟨?_, ?_, ?_, ?_⟩
  · have haddr := setDesc_sameDesc (n := n) (k := 4) (by omega) top u
    have hcount := setDesc_sameDesc (n := n) (k := 6) (by omega) (rxCount (maxSize.setWidth 32))
      (u.setDesc (u.descOff n 4) top)
    rw [epSetupRx_eq]
    exact ((haddr.trans hcount).trans (epRegRmw_sameDesc hn clrRxDtogVal _)).trans
      (epRegRmw_sameDesc hn _ _)
  · rw [usbGetEpTxAddr, hsame, Function.update_of_ne (hoff 0 6 (by omega)),
      Function.update_of_ne (hoff 0 4 (by omega))]
    rfl
  · rw [usbGetEpRxAddr, hsame, Function.update_of_ne (hoff 4 6 (by omega)), Function.update_self]
  · rw [usbGetEpRxCount, hsame, Function.update_self]

/-- A size fits a 32-bit one, and codes what `rxLen` says. -/
theorem rxBufferSize_maxSize {maxSize : Half} (h : maxSize.toNat ≤ 992) :
    rxBufferSize (rxCount (maxSize.setWidth 32)) = rxLen maxSize.toNat := by
  rw [← rxBufferSize_rxCount maxSize.toNat (by omega), BitVec.ofNat_toNat]

/-- The endpoint's address and type, which `_usbd_ep_setup` sets first. -/
def EpSetup.assign (c : EpSetup) (u : UsbPeriph) : UsbPeriph :=
  usbSetEpType c.ep (typelookup c.type) (usbSetEpAddr c.ep (BitVec.ofNat 16 c.ep) u)

theorem EpSetup.assign_desc (h : c.ep < 8) (u : UsbPeriph) : SameDesc c.ep u (c.assign u) := by
  have haddr := epRegRmw_sameDesc h (setAddrVal · (BitVec.ofNat 16 c.ep)) u
  exact haddr.trans (epRegRmw_sameDesc h (setTypeVal · (typelookup c.type)) _)

theorem EpSetup.run_eq (c : EpSetup) (top : Half) (u : UsbPeriph) : c.run (top, u) =
    if c.HasRx then
      if c.HasTx then epSetupRx c.ep c.maxSize (top + c.maxSize)
        (epSetupTx c.ep c.maxSize top (c.assign u)).2
      else epSetupRx c.ep c.maxSize top (c.assign u)
    else epSetupTx c.ep c.maxSize top (c.assign u) := by
  have hassign : usbSetEpType (c.addr &&& 0x7f).toNat (typelookup c.type)
      (usbSetEpAddr (c.addr &&& 0x7f).toNat (BitVec.ofNat 16 (c.addr &&& 0x7f).toNat) u) =
        c.assign u := rfl
  by_cases hdir : c.addr &&& 0x80 = 0
  · have hrx : c.HasRx := hdir
    rw [if_pos hrx]
    by_cases hep : (c.addr &&& 0x7f).toNat = 0
    · have htx : c.HasTx := .inr hep
      simp only [if_pos htx, run, usbdEpSetup, hassign, hdir, ne_eq, not_true_eq_false, false_or,
        if_pos hep, if_false]
      rfl
    · have htx : ¬ c.HasTx := by
        rintro (hin | hzero)
        · exact hin hdir
        · exact hep hzero
      simp only [if_neg htx, run, usbdEpSetup, hassign, hdir, ne_eq, not_true_eq_false, false_or,
        if_neg hep, if_false]
      rfl
  · have hrx : ¬ c.HasRx := hdir
    simp only [if_neg hrx, run, usbdEpSetup, hassign, hdir, ne_eq, not_false_eq_true, true_or,
      if_true]
    rfl

theorem toNat_top {top size : Half} (hroom : top.toNat + size.toNat < 2 ^ 16) :
    (top + size).toNat = top.toNat + size.toNat := by
  rw [BitVec.toNat_add]
  exact Nat.mod_eq_of_lt hroom

theorem EpSetup.regions_eq {top : Nat} (htx : c.HasTx → (usbGetEpTxAddr c.ep v).toNat = top)
    (hrx : c.HasRx → (usbGetEpRxAddr c.ep v).toNat = (if c.HasTx then top + c.maxSize.toNat else top) ∧
      rxBufferSize (usbGetEpRxCount c.ep v) = rxLen c.maxSize.toNat) :
    c.regions v = stack top c.parts := by
  rw [regions, parts]
  by_cases h : c.HasRx
  · obtain ⟨haddr, hcount⟩ := hrx h
    by_cases h' : c.HasTx
    · rw [if_pos h'] at haddr
      rw [if_pos h, if_pos h', if_pos h, if_pos h', htx h', haddr, hcount]
      rfl
    · rw [if_neg h'] at haddr
      rw [if_pos h, if_neg h', if_pos h, if_neg h', haddr, hcount]
      rfl
  · have h' : c.HasTx := .inl h
    rw [if_neg h, if_pos h', if_neg h, if_pos h', htx h']
    rfl

theorem EpSetup.sum_parts (c : EpSetup) : (c.parts.map Part.step).sum =
    (if c.HasTx then c.maxSize.toNat else 0) + if c.HasRx then c.maxSize.toNat else 0 := by
  rw [parts]
  split <;> split <;> simp

theorem epSetupTx_top (maxSize top : Half) (u : UsbPeriph) :
    (epSetupTx n maxSize top u).1 = top + maxSize := rfl

theorem epSetupRx_top (maxSize top : Half) (u : UsbPeriph) :
    (epSetupRx n maxSize top u).1 = top + maxSize := rfl

/-- One call: the descriptor of its endpoint is set, and the top moves on. -/
theorem EpSetup.run_regions (h : c.Valid) (top : Half) (u : UsbPeriph)
    (hroom : top.toNat + 1984 < 65536) :
    SameDesc c.ep u (c.run (top, u)).2 ∧ c.regions (c.run (top, u)).2 = stack top.toNat c.parts ∧
      (c.run (top, u)).1.toNat = top.toNat + (c.parts.map Part.step).sum := by
  have hle := h.le
  have hassign := assign_desc h.ep u
  have htop := toNat_top (by omega : top.toNat + c.maxSize.toNat < 2 ^ 16)
  obtain ⟨hdescTx, haddrTx⟩ := epSetupTx_desc h.ep c.maxSize top (c.assign u)
  rw [run_eq, sum_parts]
  by_cases hrx : c.HasRx
  · by_cases htx : c.HasTx
    · obtain ⟨hdesc, hkeep, haddr, hcount⟩ := epSetupRx_desc h.ep c.maxSize (top + c.maxSize)
        (epSetupTx c.ep c.maxSize top (c.assign u)).2
      have hnext := toNat_top (by omega : (top + c.maxSize).toNat + c.maxSize.toNat < 2 ^ 16)
      rw [if_pos hrx, if_pos htx, if_pos htx, if_pos hrx]
      refine ⟨(hassign.trans hdescTx).trans hdesc, regions_eq ?_ ?_, ?_⟩
      · intro _
        rw [hkeep, haddrTx]
      · intro _
        rw [haddr, hcount, if_pos htx, rxBufferSize_maxSize h.le, htop]
        exact ⟨rfl, rfl⟩
      · rw [epSetupRx_top, hnext, htop, Nat.add_assoc]
    · obtain ⟨hdesc, -, haddr, hcount⟩ := epSetupRx_desc h.ep c.maxSize top (c.assign u)
      rw [if_pos hrx, if_neg htx, if_neg htx, if_pos hrx]
      refine ⟨hassign.trans hdesc, regions_eq (fun hno => absurd hno htx) ?_, ?_⟩
      · intro _
        rw [haddr, hcount, if_neg htx, rxBufferSize_maxSize h.le]
        exact ⟨rfl, rfl⟩
      · rw [epSetupRx_top, htop, Nat.zero_add]
  · have htx : c.HasTx := .inl hrx
    rw [if_neg hrx, if_pos htx, if_neg hrx]
    refine ⟨hassign.trans hdescTx, regions_eq ?_ (fun hno => absurd hno hrx), ?_⟩
    · intro _
      rw [haddrTx]
    · rw [epSetupTx_top, htop, Nat.add_zero]

/-! ## A sequence of calls -/

/-- The calls one after the other. -/
def runSetups (calls : List EpSetup) (s : Half × UsbPeriph) : Half × UsbPeriph :=
  calls.foldl (fun s c => c.run s) s

theorem EpSetup.regions_congr (hbtable : v.reg usbBtableReg = u.reg usbBtableReg)
    (hdesc : ∀ k < 8, v.desc (u.descOff c.ep k) = u.desc (u.descOff c.ep k)) :
    c.regions v = c.regions u := by
  have hoff : ∀ k, v.descOff c.ep k = u.descOff c.ep k := by
    intro k
    rw [descOff_eq, descOff_eq, hbtable]
  rw [regions, regions, usbGetEpTxAddr, usbGetEpRxAddr, usbGetEpRxCount, hoff, hoff, hoff,
    hdesc 0 (by omega), hdesc 4 (by omega), hdesc 6 (by omega)]
  rfl

/-- Calls for other endpoints leave a descriptor alone, so at the end there is
one region for each part, from the top on. -/
theorem runSetups_regions (hvalid : ∀ c ∈ calls, c.Valid) (hnodup : (calls.map EpSetup.ep).Nodup)
    (hroom : top.toNat + 1984 * calls.length < 65536) :
    calls.flatMap (·.regions (runSetups calls (top, u)).2) =
        stack top.toNat (calls.flatMap EpSetup.parts) ∧
      (∀ c ∈ calls, ∃ t, c.regions (runSetups calls (top, u)).2 = stack t c.parts) ∧
      (runSetups calls (top, u)).2.reg usbBtableReg = u.reg usbBtableReg ∧
      ∀ m ∉ calls.map EpSetup.ep, ∀ k < 8,
        (runSetups calls (top, u)).2.desc (u.descOff m k) = u.desc (u.descOff m k) := by
  induction calls generalizing top u with
  | nil => exact ⟨rfl, fun _ hc => absurd hc List.not_mem_nil, rfl, fun _ _ _ _ => rfl⟩
  | cons c calls ih =>
      rw [List.length_cons, Nat.mul_succ, ← Nat.add_assoc] at hroom
      rw [List.map_cons, List.nodup_cons] at hnodup
      have hc := hvalid c (List.mem_cons_self ..)
      have hfirst : top.toNat + 1984 < 65536 := by omega
      obtain ⟨hdesc, hregions, htop⟩ := EpSetup.run_regions hc top u hfirst
      have hstep : (c.parts.map Part.step).sum ≤ 1984 := by
        have hle := hc.le
        rw [EpSetup.sum_parts]
        split <;> split <;> omega
      have hleft : (c.run (top, u)).1.toNat + 1984 * calls.length < 65536 := by omega
      obtain ⟨hrest, heach, hbtable, hothers⟩ := ih (u := (c.run (top, u)).2)
        (fun d hd => hvalid d (List.mem_cons_of_mem c hd)) hnodup.2 hleft
      have hoff : ∀ m k, (c.run (top, u)).2.descOff m k = u.descOff m k := by
        intro m k
        rw [descOff_eq, descOff_eq, hdesc.btable]
      have hkeep := EpSetup.regions_congr hbtable (hothers c.ep hnodup.1)
      refine ⟨?_, fun d hd => ?_, hbtable.trans hdesc.btable, fun m hm k hk => ?_⟩
      · rw [List.flatMap_cons, List.flatMap_cons, stack_append, ← htop, ← hregions]
        exact congrArg₂ (· ++ ·) hkeep hrest
      · rcases List.mem_cons.mp hd with rfl | hd
        · exact ⟨top.toNat, hkeep.trans hregions⟩
        · exact heach d hd
      · rw [List.map_cons, List.mem_cons, not_or] at hm
        have hother := hothers m hm.2 k hk
        rw [hoff] at hother
        exact hother.trans (hdesc.desc m hm.1 k hk)

theorem length_le_eight (hvalid : ∀ c ∈ calls, c.Valid) (hnodup : (calls.map EpSetup.ep).Nodup) :
    calls.length ≤ 8 := by
  have hsub : calls.map EpSetup.ep ⊆ List.range 8 := by
    intro n hn
    obtain ⟨c, hc, rfl⟩ := List.mem_map.mp hn
    exact List.mem_range.mpr (hvalid c hc).ep
  have hlen := (List.subperm_of_subset hnodup hsub).length_le
  rwa [List.length_map, List.length_range] at hlen

/-! ## The layout -/

/-- The regions are apart, and a receive buffer holds the size it was set up
for. -/
structure LayoutOk (calls : List EpSetup) (u : UsbPeriph) : Prop where
  apart : (calls.flatMap (·.regions u)).Pairwise Region.Apart
  holds : ∀ c ∈ calls, c.HasRx → c.maxSize.toNat ≤ rxBufferSize (usbGetEpRxCount c.ep u)

theorem EpSetup.Valid.part_pos (h : c.Valid) {p : Part} (hp : p ∈ c.parts) : 0 < p.len := by
  have hpos := h.pos
  rw [EpSetup.parts] at hp
  rcases List.mem_append.mp hp with htx | hrx
  · split at htx
    · rw [List.mem_singleton.mp htx]
      exact hpos
    · cases htx
  · split at hrx
    · rw [List.mem_singleton.mp hrx]
      exact rxLen_pos hpos
    · cases hrx

theorem EpSetup.parts_le_iff (c : EpSetup) :
    (∀ p ∈ c.parts, p.len ≤ p.step) ↔ (c.HasRx → rxLen c.maxSize.toNat ≤ c.maxSize.toNat) := by
  rw [parts]
  split <;> split <;> simp_all

/-- The last region of a call is its receive buffer, if it has one. -/
theorem EpSetup.parts_dropLast (c : EpSetup) : c.parts ≠ [] ∧ ∀ p ∈ c.parts.dropLast, p.len ≤ p.step := by
  rw [parts]
  by_cases hrx : c.HasRx
  · by_cases htx : c.HasTx <;> simp [hrx, htx]
  · have htx : c.HasTx := .inl hrx
    simp [hrx, htx]

theorem parts_fit_iff (calls : List EpSetup) :
    (∀ p ∈ (calls.flatMap EpSetup.parts).dropLast, p.len ≤ p.step) ↔
      ∀ c ∈ calls.dropLast, c.HasRx → rxLen c.maxSize.toNat ≤ c.maxSize.toNat := by
  induction calls using List.reverseRecOn with
  | nil => simp
  | append_singleton calls c ih =>
      obtain ⟨hne, hlast⟩ := c.parts_dropLast
      rw [List.flatMap_append, List.flatMap_singleton, List.dropLast_append_of_ne_nil hne,
        List.dropLast_concat]
      constructor
      · intro hall d hd
        refine d.parts_le_iff.mp fun p hp => hall p (List.mem_append_left _ ?_)
        exact List.mem_flatMap.mpr ⟨d, hd, hp⟩
      · intro hall p hp
        rcases List.mem_append.mp hp with hinit | hend
        · obtain ⟨d, hd, hp⟩ := List.mem_flatMap.mp hinit
          exact d.parts_le_iff.mpr (hall d hd) p hp
        · exact hlast p hend

theorem EpSetup.rx_len {t : Nat} (h : c.regions v = stack t c.parts) (hrx : c.HasRx) :
    rxBufferSize (usbGetEpRxCount c.ep v) = rxLen c.maxSize.toNat := by
  rw [regions, parts, if_pos hrx, if_pos hrx] at h
  split at h
  · simp only [List.cons_append, List.nil_append, stack, List.cons.injEq, Region.mk.injEq] at h
    exact h.2.1.2
  · simp only [List.nil_append, stack, List.cons.injEq, Region.mk.injEq] at h
    exact h.1.2

/-- The layout is right exactly when every receive buffer that is not the last
region is of 32 bytes, and the last one of at most 62 or a multiple of 32. -/
theorem layout_iff (calls : List EpSetup) (u : UsbPeriph) (hvalid : ∀ c ∈ calls, c.Valid)
    (hnodup : (calls.map EpSetup.ep).Nodup) :
    LayoutOk calls (runSetups calls (usbdPmTop, u)).2 ↔
      (∀ c ∈ calls.dropLast, c.HasRx → c.maxSize.toNat = 32) ∧
        ∀ c ∈ calls, c.HasRx → c.maxSize.toNat ≤ 62 ∨ 32 ∣ c.maxSize.toNat := by
  have hlen := length_le_eight hvalid hnodup
  have htop : usbdPmTop.toNat = 0x40 := rfl
  have hroom : usbdPmTop.toNat + 1984 * calls.length < 65536 := by omega
  obtain ⟨hregions, heach, -, -⟩ := runSetups_regions (u := u) hvalid hnodup hroom
  have hpos : ∀ p ∈ calls.flatMap EpSetup.parts, 0 < p.len := by
    intro p hp
    obtain ⟨c, hc, hp⟩ := List.mem_flatMap.mp hp
    exact (hvalid c hc).part_pos hp
  have hholds : ∀ c ∈ calls, c.HasRx →
      (c.maxSize.toNat ≤ rxBufferSize (usbGetEpRxCount c.ep (runSetups calls (usbdPmTop, u)).2) ↔
        c.maxSize.toNat ≤ 62 ∨ 32 ∣ c.maxSize.toNat) := by
    intro c hc hrx
    obtain ⟨t, ht⟩ := heach c hc
    rw [EpSetup.rx_len ht hrx, le_rxLen_iff (hvalid c hc).pos]
  have hapart := (@stack_apart_iff usbdPmTop.toNat _ hpos).trans (parts_fit_iff calls)
  rw [← hregions] at hapart
  constructor
  · intro hok
    have hsizes : ∀ c ∈ calls, c.HasRx → c.maxSize.toNat ≤ 62 ∨ 32 ∣ c.maxSize.toNat :=
      fun c hc hrx => (hholds c hc hrx).mp (hok.holds c hc hrx)
    refine ⟨fun c hc hrx => ?_, hsizes⟩
    have hmem := List.dropLast_subset calls hc
    have hle := (rxLen_le_iff (hvalid c hmem).pos).mp (hapart.mp hok.apart c hc hrx)
    have hsize := hsizes c hmem hrx
    omega
  · rintro ⟨hexact, hsizes⟩
    refine ⟨hapart.mpr fun c hc hrx => ?_, fun c hc hrx => (hholds c hc hrx).mpr (hsizes c hc hrx)⟩
    rw [hexact c hc hrx]
    decide

/-- A peripheral with every register and every word of its memory zero. -/
def UsbPeriph.blank : UsbPeriph where
  reg _ := 0
  desc _ := 0
  pm _ := 0
  touched := []
  queued := []

/-- Endpoint 0 with 32 bytes, then a bulk endpoint of 64 in each direction. -/
def threeEndpoints : List EpSetup :=
  [⟨0x00, usbEndpointAttrControl, 32⟩, ⟨0x81, usbEndpointAttrBulk, 64⟩,
    ⟨0x02, usbEndpointAttrBulk, 64⟩]

theorem layout_threeEndpoints :
    LayoutOk threeEndpoints (runSetups threeEndpoints (usbdPmTop, .blank)).2 := by
  have hvalid : ∀ c ∈ threeEndpoints, c.Valid := by
    intro c hc
    simp only [threeEndpoints, List.mem_cons, List.not_mem_nil, or_false] at hc
    rcases hc with rfl | rfl | rfl <;> exact ⟨by decide, by decide, by decide⟩
  exact (layout_iff threeEndpoints .blank hvalid (by decide)).mpr ⟨by decide, by decide⟩

/-- Endpoint 0 as `do_usb_poll` sets it up, then a bulk IN endpoint. -/
def controlAndBulk : List EpSetup :=
  [⟨0x00, usbEndpointAttrControl, 64⟩, ⟨0x81, usbEndpointAttrBulk, 64⟩]

/-- The receive buffer of endpoint 0 is one of 96 bytes, and runs into the next. -/
theorem controlAndBulk_overlap :
    ¬ LayoutOk controlAndBulk (runSetups controlAndBulk (usbdPmTop, .blank)).2 := by
  intro hok
  have hvalid : ∀ c ∈ controlAndBulk, c.Valid := by
    intro c hc
    simp only [controlAndBulk, List.mem_cons, List.not_mem_nil, or_false] at hc
    rcases hc with rfl | rfl <;> exact ⟨by decide, by decide, by decide⟩
  have hroom : usbdPmTop.toNat + 1984 * controlAndBulk.length < 65536 := by decide
  obtain ⟨hregions, -⟩ := runSetups_regions (u := .blank) hvalid (by decide) hroom
  have hapart := hok.apart
  rw [hregions] at hapart
  exact absurd hapart (by decide)

end LnDso
