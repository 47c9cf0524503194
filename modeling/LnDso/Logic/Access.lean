import Mathlib.Tactic.IntervalCases
import LnDso.Machine.Poll

/-!
# What software can do to the peripheral

Software reaches the peripheral through register writes, the descriptor table
and packet memory. `Sw u v` says that `v` comes from `u` that way, without a
write that acknowledges a transmission. A register write only clears ISTR flags
and the CTR flags of an endpoint register, whatever the endpoint index, so no
software raises them (`Sw.noReset`, `Sw.ctrRx_of_lt`, for endpoint 0 `Sw.ctrRx`),
and CTR_TX stays (`Sw.ctrTx_of_lt`, `Sw.ctrTx`) until `USB_CLR_EP_TX_CTR`.
-/

namespace LnDso

open Lib

namespace UsbPeriph

/-- A value that writes 1 to CTR_TX where it is set, so that it stays. -/
def KeepsTx (r x : Half) : Prop := r.getLsbD 7 = true → x.getLsbD 7 = true

/-- `v` comes from `u` by register writes and accesses to memory. -/
inductive Sw (u : UsbPeriph) : UsbPeriph → Prop
  | refl : Sw u u
  | setReg {v : UsbPeriph} (i : Nat) (x : Half) :
      (i < 8 → KeepsTx (v.reg i) x) → Sw u v → Sw u (v.setReg i x)
  | keep {v w : UsbPeriph} : Sw u v → w.reg = v.reg → Sw u w

theorem Sw.trans {u v w : UsbPeriph} (h : Sw u v) (h' : Sw v w) : Sw u w := by
  induction h' with
  | refl => exact h
  | setReg i x hx _ ih => exact ih.setReg i x hx
  | keep _ hreg ih => exact ih.keep hreg

/-- Writing a register that is not an endpoint's. -/
theorem Sw.other {u v : UsbPeriph} (h : Sw u v) {i : Nat} (hi : 8 ≤ i) (x : Half) :
    Sw u (v.setReg i x) :=
  h.setReg i x fun hlt => absurd hi (Nat.not_le.mpr hlt)

theorem Sw.of_reg {u v : UsbPeriph} (h : v.reg = u.reg) : Sw u v := Sw.refl.keep h

theorem Sw.ite {u v w : UsbPeriph} {c : Prop} [Decidable c] (hv : Sw u v) (hw : Sw u w) :
    Sw u (if c then v else w) := by
  split
  · exact hv
  · exact hw

/-- A property of registers that these register writes keep. -/
theorem Sw.preserves {P : (Nat → Half) → Prop}
    (hset : ∀ (u : UsbPeriph) i x, (i < 8 → KeepsTx (u.reg i) x) → P u.reg → P (u.setReg i x).reg)
    {u v : UsbPeriph} (h : Sw u v) (hu : P u.reg) : P v.reg := by
  induction h with
  | refl => exact hu
  | setReg i x hx _ ih => exact hset _ i x hx ih
  | keep _ hreg ih => exact hreg ▸ ih

/-- No bus reset is latched. -/
def NoReset (u : UsbPeriph) : Prop := u.reg usbIstrReg &&& usbIstrReset = 0

/-- Reading ISTR adds the CTR bits to the latched flags; RESET is not one of them. -/
theorem getReg_and_reset (u : UsbPeriph) :
    u.getReg usbIstrReg &&& usbIstrReset = u.reg usbIstrReg &&& usbIstrReset := by
  have hctr : u.ctrBits &&& usbIstrReset = 0#16 := by
    unfold ctrBits
    split
    · rfl
    · next n hn =>
      have hn8 : n < 8 := List.mem_range.mp (List.mem_of_find?_eq_some hn)
      split <;> interval_cases n <;> decide
  rw [getReg, if_pos rfl, BitVec.and_or_distrib_right, hctr, BitVec.and_assoc,
    show 0x7F00 &&& usbIstrReset = usbIstrReset by decide, BitVec.or_zero]

theorem setReg_reg (u : UsbPeriph) (i : Nat) (x : Half) (j : Nat) :
    (u.setReg i x).reg j = if j = i then regWrite i (u.reg i) x else u.reg j := by
  simp only [UsbPeriph.setReg]
  by_cases h : j = i
  · subst h
    rw [Function.update_self, if_pos rfl]
  · rw [Function.update_of_ne h, if_neg h]

theorem setReg_noReset {u : UsbPeriph} (i : Nat) (x : Half) (h : u.NoReset) :
    (u.setReg i x).NoReset := by
  unfold NoReset at h ⊢
  rw [setReg_reg]
  split
  · next hi =>
    subst hi
    rw [regWrite, if_neg (by decide), if_pos rfl, BitVec.and_assoc, BitVec.and_comm x,
      ← BitVec.and_assoc, h]
    exact BitVec.zero_and
  · exact h

theorem Sw.noReset {u v : UsbPeriph} (h : Sw u v) (hu : u.NoReset) : v.NoReset :=
  h.preserves (P := fun reg => reg usbIstrReg &&& usbIstrReset = 0)
    (fun _ i x _ hw => setReg_noReset i x hw) hu

/-- A register write raises no CTR flag. -/
theorem setReg_bit {u : UsbPeriph} (i : Nat) (x : Half) {n b : Nat} (hn : n < 8)
    (hb : b = 15 ∨ b = 7) (h : (u.reg n).getLsbD b = false) :
    ((u.setReg i x).reg n).getLsbD b = false := by
  rw [setReg_reg]
  split
  · next hi =>
    subst hi
    rw [regWrite, if_pos hn]
    rcases hb with rfl | rfl
    · simp only [epWrite, BitVec.getLsbD_or, BitVec.getLsbD_and, BitVec.getLsbD_xor, h]
      simp
    · simp only [epWrite, BitVec.getLsbD_or, BitVec.getLsbD_and, BitVec.getLsbD_xor, h]
      simp
  · exact h

theorem Sw.ctrRx_of_lt {u v : UsbPeriph} (h : Sw u v) {n : Nat} (hn : n < 8)
    (hu : (u.ep n).ctrRx = false) : (v.ep n).ctrRx = false :=
  h.preserves (P := fun reg => (reg n).getLsbD 15 = false)
    (fun _ i x _ hw => setReg_bit i x hn (.inl rfl) hw) hu

theorem Sw.ctrTx_of_lt {u v : UsbPeriph} (h : Sw u v) {n : Nat} (hn : n < 8) :
    (v.ep n).ctrTx = (u.ep n).ctrTx := by
  refine h.preserves (P := fun reg => (reg n).getLsbD 7 = (u.reg n).getLsbD 7)
    (fun w i x hx hw => ?_) rfl
  cases hbit : (w.reg n).getLsbD 7 with
  | false => exact (setReg_bit i x hn (.inr rfl) hbit).trans (hbit.symm.trans hw)
  | true =>
      rw [setReg_reg]
      split
      · next hi =>
        subst hi
        rw [← hw, hbit, regWrite, if_pos hn, getLsbD_epWrite _ _ (by decide), if_pos (.inr rfl),
          hbit, hx hn hbit]
        rfl
      · exact hw

theorem Sw.ctrRx {u v : UsbPeriph} (h : Sw u v) (hu : (u.ep 0).ctrRx = false) :
    (v.ep 0).ctrRx = false :=
  h.ctrRx_of_lt (by decide) hu

theorem Sw.ctrTx {u v : UsbPeriph} (h : Sw u v) : (v.ep 0).ctrTx = (u.ep 0).ctrTx :=
  h.ctrTx_of_lt (by decide)

/-- SETUP is read-only. -/
theorem Sw.setup {u v : UsbPeriph} (h : Sw u v) {n : Nat} (hn : n < 8) :
    (v.ep n).setup = (u.ep n).setup := by
  refine h.preserves (P := fun reg => (reg n).getLsbD 11 = (u.reg n).getLsbD 11)
    (fun w i x _ hw => ?_) rfl
  rw [setReg_reg]
  split
  · next hi =>
    subst hi
    rw [regWrite, if_pos hn, getLsbD_epWrite _ _ (by decide), if_neg (by decide), if_pos rfl]
    exact hw
  · exact hw

end UsbPeriph

open UsbPeriph

/-! ## The functions that reach the peripheral -/

theorem touch_sw (n : Nat) (u : UsbPeriph) : Sw u (u.touch n) := Sw.of_reg rfl

theorem epRegRmw_sw (n : Nat) (f : Half → Half) (hf : ∀ r, KeepsTx r (f r)) (u : UsbPeriph) :
    Sw u (epRegRmw n f u) := by
  refine (touch_sw n u).setReg n _ fun hn => ?_
  rw [getReg_of_ne (by simp only [usbIstrReg]; omega)]
  exact hf _

theorem usbSetEpRxStat_sw (n : Nat) (stat : Half) (u : UsbPeriph) :
    Sw u (usbSetEpRxStat n stat u) :=
  epRegRmw_sw n _ (fun _ _ => by simp [setRxStatVal, togSetRegBitMskAndSet, usbEpTxCtr]) u

theorem usbSetEpTxStat_sw (n : Nat) (stat : Half) (u : UsbPeriph) :
    Sw u (usbSetEpTxStat n stat u) :=
  epRegRmw_sw n _ (fun _ _ => by simp [setTxStatVal, togSetRegBitMskAndSet, usbEpTxCtr]) u

theorem usbClrEpTxDtog_sw (n : Nat) (u : UsbPeriph) : Sw u (usbClrEpTxDtog n u) :=
  epRegRmw_sw n _ (fun _ h => by simp [clrTxDtogVal, usbEpNtoggleMsk, usbEpTxCtr, h]) u

theorem usbClrEpRxDtog_sw (n : Nat) (u : UsbPeriph) : Sw u (usbClrEpRxDtog n u) :=
  epRegRmw_sw n _ (fun _ h => by simp [clrRxDtogVal, usbEpNtoggleMsk, usbEpTxCtr, h]) u

theorem usbClrEpRxCtr_sw (n : Nat) (u : UsbPeriph) : Sw u (usbClrEpRxCtr n u) :=
  epRegRmw_sw n _ (fun _ _ => by simp [clrRxCtrVal, clrRegBitMskAndSet, usbEpTxCtr]) u

theorem usbSetEpType_sw (n : Nat) (type : Half) (u : UsbPeriph) : Sw u (usbSetEpType n type u) :=
  epRegRmw_sw n _ (fun _ h => by simp [setTypeVal, usbEpNtoggleMsk, usbEpTxCtr, usbEpType, h]) u

theorem usbSetEpAddr_sw (n : Nat) (addr : Half) (u : UsbPeriph) : Sw u (usbSetEpAddr n addr u) :=
  epRegRmw_sw n _ (fun _ h => by simp [setAddrVal, usbEpNtoggleMsk, usbEpTxCtr, usbEpAddr, h]) u

theorem usbdEpWritePacket_sw (addr : Byte) (buf : Mem) (len : Half) (u : UsbPeriph) :
    Sw u (usbdEpWritePacket addr buf len u).2 := by
  unfold usbdEpWritePacket
  dsimp only
  split
  · exact touch_sw _ u
  · have hcopy : ∀ pm, Sw u (usbSetEpTxCount (addr &&& 0x7F).toNat len
        { u.touch (addr &&& 0x7F).toNat with pm := pm }) := fun _ => Sw.of_reg rfl
    have hstat := (hcopy (stUsbfsCopyToPm (usbGetEpTxBuff (addr &&& 0x7F).toNat
      (u.touch (addr &&& 0x7F).toNat)) buf len (u.touch (addr &&& 0x7F).toNat).pm)).trans
      (usbSetEpTxStat_sw (addr &&& 0x7F).toNat usbEpTxStatValid _)
    exact hstat.keep rfl

theorem usbdEpReadPacket_sw (forceNak : Nat → Bool) (addr : Byte) (buf : Mem) (off : Nat)
    (len : Half) (u : UsbPeriph) : Sw u (usbdEpReadPacket forceNak addr buf off len u).2.2 := by
  have hclr := (touch_sw addr.toNat u).trans (usbClrEpRxCtr_sw addr.toNat _)
  have hset := hclr.trans (usbSetEpRxStat_sw addr.toNat usbEpRxStatValid _)
  rw [usbdEpReadPacket]
  dsimp only
  by_cases hvalid : (u.touch addr.toNat).getReg addr.toNat &&& usbEpRxStat = usbEpRxStatValid
  · rw [if_pos hvalid]
    exact touch_sw _ u
  · rw [if_neg hvalid]
    exact hclr.ite hset

theorem epStallSet_sw (addr : Byte) (stall : Bool) (u : UsbPeriph) :
    Sw u (epStallSet addr stall u) := by
  let txStat := if stall then usbEpTxStatStall else usbEpTxStatNak
  have htx : Sw u (if addr = 0 then usbSetEpTxStat addr.toNat txStat u else u) :=
    (usbSetEpTxStat_sw addr.toNat txStat u).ite .refl
  have hin := htx.trans (usbSetEpTxStat_sw (addr &&& 0x7F).toNat txStat _)
  unfold epStallSet
  dsimp only
  split
  · exact hin.ite (hin.trans (usbClrEpTxDtog_sw _ _))
  · have hdtog : ∀ w, Sw w (if stall then w else usbClrEpRxDtog addr.toNat w) :=
      fun w => Sw.refl.ite (usbClrEpRxDtog_sw addr.toNat w)
    exact (htx.trans (hdtog _)).trans (usbSetEpRxStat_sw addr.toNat
      (if stall then usbEpRxStatStall else usbEpRxStatValid) _)

theorem epStallGet_sw (addr : Byte) (u : UsbPeriph) : Sw u (epStallGet addr u).2 := by
  unfold epStallGet
  split <;> exact touch_sw _ u

theorem resetEndpoints_sw (n i : Nat) (u : UsbPeriph) : Sw u (resetEndpoints n i u) := by
  induction n generalizing i u with
  | zero => exact .refl
  | succ n ih =>
      exact ((usbSetEpTxStat_sw i usbEpTxStatDisabled u).trans
        (usbSetEpRxStat_sw i usbEpRxStatDisabled _)).trans (ih (i + 1) _)

theorem clrIstr_sw (bit : Half) (u : UsbPeriph) : Sw u (clrIstr bit u) :=
  Sw.refl.other (by decide) _

theorem ackIstr_sw (istr bit : Half) (u : UsbPeriph) : Sw u (ackIstr istr bit u) :=
  (clrIstr_sw bit u).ite .refl

theorem pollTail_sw (istr : Half) (u : UsbPeriph) : Sw u (pollTail istr u) :=
  (((ackIstr_sw _ _ _).trans (ackIstr_sw _ _ _)).trans (ackIstr_sw _ _ _)).other (by decide) _

theorem setEpRxBufsize_reg (ep : Nat) (size : Word) (u : UsbPeriph) :
    (setEpRxBufsize ep size u).reg = u.reg := by
  unfold setEpRxBufsize
  split <;> rfl

theorem epSetupTx_sw (ep : Nat) (maxSize top : Half) (u : UsbPeriph) :
    Sw u (epSetupTx ep maxSize top u).2 := by
  have haddr : Sw u (usbSetEpTxAddr ep top u) := Sw.of_reg rfl
  have hdtog := haddr.trans (usbClrEpTxDtog_sw ep _)
  exact hdtog.trans (usbSetEpTxStat_sw ep usbEpTxStatNak _)

theorem epSetupRx_sw (ep : Nat) (maxSize top : Half) (u : UsbPeriph) :
    Sw u (epSetupRx ep maxSize top u).2 := by
  have haddr : Sw u (setEpRxBufsize ep (maxSize.setWidth 32) (usbSetEpRxAddr ep top u)) :=
    Sw.of_reg (setEpRxBufsize_reg _ _ _)
  have hdtog := haddr.trans (usbClrEpRxDtog_sw ep _)
  exact hdtog.trans (usbSetEpRxStat_sw ep usbEpRxStatValid _)

theorem usbdEpSetup_sw (addr type : Byte) (maxSize top : Half) (u : UsbPeriph) :
    Sw u (usbdEpSetup addr type maxSize top u).2 := by
  let ep := (addr &&& 0x7f).toNat
  have hset := (usbSetEpAddr_sw ep (BitVec.ofNat 16 ep) u).trans
    (usbSetEpType_sw ep (typelookup type) _)
  unfold usbdEpSetup
  dsimp only
  by_cases hdir : addr &&& 0x80 ≠ 0
  · rw [if_pos hdir, if_pos (.inl hdir)]
    exact hset.trans (epSetupTx_sw _ _ _ _)
  · rw [if_neg hdir]
    split
    · exact (hset.trans (epSetupTx_sw _ _ _ _)).trans (epSetupRx_sw _ _ _ _)
    · exact hset.trans (epSetupRx_sw _ _ _ _)

end LnDso
