import LnDso.Logic.Effects

/-!
# Endpoint requests and the register file

SET_FEATURE, CLEAR_FEATURE and GET_STATUS take the endpoint from the low byte of
wIndex and use it as an index through `USB_EP_REG`. The file has eight endpoint
registers; past them lie the control registers of the peripheral. Every other
index the firmware uses is its own.
-/

namespace LnDso

open Lib UsbPeriph

variable {cfg : Config} {σ : Dev} {u v w : UsbPeriph}

/-- An endpoint request that reaches the endpoint register of its wIndex, which
names an endpoint past 7. -/
def UsbSetupData.PastEndpoints (r : UsbSetupData) : Prop :=
  r.bmRequestType &&& usbReqTypeType = usbReqTypeStandard ∧
    r.bmRequestType &&& usbReqTypeRecipient = usbReqTypeEndpoint ∧
    ((r.bRequest = usbReqClearFeature ∨ r.bRequest = usbReqSetFeature) ∧
        r.wValue = usbFeatEndpointHalt ∨
      r.bRequest = usbReqGetStatus) ∧
    7 < (Half.lo r.wIndex &&& 0x7F).toNat

/-- Such a request is never dispatched: it comes with an OUT data stage too
long for the control buffer. -/
def UsbSetupData.InRange (r : UsbSetupData) : Prop :=
  r.PastEndpoints → ¬ (r.wLength = 0 ∨ r.DirIn) ∧ controlBufferSize < r.wLength.toNat

/-! ## Accesses -/

/-- Only registers that meet `P` are accessed, and only they change. -/
structure UsbPeriph.Accesses (P : Nat → Prop) (u v : UsbPeriph) : Prop where
  touches : Touches P u v
  reg : ∀ i, ¬ P i → v.reg i = u.reg i

namespace UsbPeriph.Accesses

variable {P Q : Nat → Prop}

theorem refl (u : UsbPeriph) : Accesses P u u := ⟨.of_eq rfl, fun _ _ => rfl⟩

theorem trans (h : Accesses P u v) (h' : Accesses P v w) : Accesses P u w :=
  ⟨h.touches.trans h'.touches, fun i hi => (h'.reg i hi).trans (h.reg i hi)⟩

theorem touch {n : Nat} (hn : P n) (u : UsbPeriph) : Accesses P u (u.touch n) :=
  ⟨.one rfl hn, fun _ _ => rfl⟩

theorem rmw {n : Nat} (hn : P n) (f : Half → Half) (u : UsbPeriph) :
    Accesses P u (epRegRmw n f u) :=
  ⟨.one rfl hn, fun i hi => epRegRmw_reg_ne (fun h : i = n => hi (by rw [h]; exact hn)) f u⟩

end UsbPeriph.Accesses

theorem not_touches {P : Nat → Prop} {n : Nat} {l : List Nat}
    (h : v.touched = u.touched ++ n :: l) (hn : ¬ P n) : ¬ Touches P u v := by
  rintro ⟨m, hm, hP⟩
  obtain rfl : m = n :: l := List.append_cancel_left (hm.symm.trans h)
  exact hn (hP n (by simp))

theorem and_7F_of_out (addr : Byte) (h : ¬ addr &&& 0x80 ≠ 0) : addr &&& 0x7F = addr := by
  revert addr
  decide +kernel

/-- `_ep_stall_set` accesses the register its argument names. -/
theorem epStallSet_accesses {P : Nat → Prop} {addr : Byte} (h : P (addr &&& 0x7F).toNat)
    (stall : Bool) (u : UsbPeriph) : Accesses P u (epStallSet addr stall u) := by
  have hfirst : Accesses P u (if addr = 0 then usbSetEpTxStat addr.toNat
      (if stall then usbEpTxStatStall else usbEpTxStatNak) u else u) := by
    split
    · next h0 =>
      subst h0
      exact .rmw (P := P) h _ u
    · exact .refl u
  unfold epStallSet
  dsimp only
  split
  · have hset := hfirst.trans (.rmw h
      (setTxStatVal · (if stall then usbEpTxStatStall else usbEpTxStatNak)) _)
    cases stall with
    | true => exact hset
    | false => exact hset.trans (.rmw h clrTxDtogVal _)
  · next hout =>
    rw [and_7F_of_out addr hout] at h
    cases stall with
    | true => exact hfirst.trans (.rmw h (setRxStatVal · usbEpRxStatStall) _)
    | false =>
        have hclr := hfirst.trans (.rmw h clrRxDtogVal _)
        exact hclr.trans (.rmw h (setRxStatVal · usbEpRxStatValid) _)

theorem epStallSet_past {addr : Byte} (h : ¬ (addr &&& 0x7F).toNat < 8) (stall : Bool)
    (u : UsbPeriph) : ¬ Touches (· < 8) u (epStallSet addr stall u) := by
  have hne : addr ≠ 0 := fun h0 => h (by rw [h0]; decide)
  unfold epStallSet
  dsimp only
  rw [if_neg hne]
  split
  · cases stall with
    | true => exact not_touches (l := []) rfl h
    | false => exact not_touches (List.append_assoc u.touched [_] [_]) h
  · next hout =>
    rw [and_7F_of_out addr hout] at h
    cases stall with
    | true => exact not_touches (l := []) rfl h
    | false => exact not_touches (List.append_assoc u.touched [_] [_]) h

theorem epStallGet_accesses {P : Nat → Prop} {addr : Byte} (h : P (addr &&& 0x7F).toNat)
    (u : UsbPeriph) : Accesses P u (epStallGet addr u).2 := by
  unfold epStallGet
  split
  · exact .touch h u
  · next hout =>
    rw [and_7F_of_out addr hout] at h
    exact .touch h u

theorem epStallGet_past {addr : Byte} (h : ¬ (addr &&& 0x7F).toNat < 8) (u : UsbPeriph) :
    ¬ Touches (· < 8) u (epStallGet addr u).2 := by
  unfold epStallGet
  split
  · exact not_touches (l := []) rfl h
  · next hout =>
    rw [and_7F_of_out addr hout] at h
    exact not_touches (l := []) rfl h

theorem resetEndpoints_accesses {P : Nat → Prop} (hP : ∀ n < 8, P n) {n i : Nat} (h : n + i ≤ 8)
    (u : UsbPeriph) : Accesses P u (resetEndpoints n i u) := by
  induction n generalizing i u with
  | zero => exact .refl u
  | succ n ih =>
      have hi : P i := hP i (by omega)
      exact ((Accesses.rmw hi _ u).trans (.rmw hi _ _)).trans (ih (by omega) _)

/-! ## Requests -/

theorem usbStandardGetDescriptor_usb (σ : Dev) :
    (usbStandardGetDescriptor cfg σ).2.usb = σ.usb := by
  unfold usbStandardGetDescriptor
  dsimp only
  split
  · rfl
  split
  · rfl
  split
  · split
    · rfl
    · split
      · rfl
      · split <;> rfl
  · rfl

theorem usbdStandardRequestDevice_accesses {P : Nat → Prop} (hP : ∀ n < 8, P n) (σ : Dev) :
    Accesses P σ.usb (usbdStandardRequestDevice cfg σ).2.usb := by
  unfold usbdStandardRequestDevice
  dsimp only
  split
  · split <;> exact .refl _
  split
  · split
    · exact resetEndpoints_accesses hP (by decide) σ.usb
    · exact .refl _
  split
  · exact .refl _
  split
  · rw [usbStandardGetDescriptor_usb]
    exact .refl _
  split <;> exact .refl _

theorem usbdStandardRequestInterface_accesses {P : Nat → Prop} (σ : Dev) :
    Accesses P σ.usb (usbdStandardRequestInterface σ).2.usb := by
  unfold usbdStandardRequestInterface
  dsimp only
  split
  · exact .refl _
  split
  · exact .refl _
  split <;> exact .refl _

/-- The registers a request may access. -/
def UsbSetupData.Index (r : UsbSetupData) (n : Nat) : Prop := n < 8 ∨ r.PastEndpoints

theorem usbdStandardRequest_accesses (σ : Dev) :
    Accesses σ.pipe.usbReq.Index σ.usb (usbdStandardRequest cfg σ).2.usb := by
  unfold usbdStandardRequest
  dsimp only
  split
  · exact .refl _
  next htype =>
  split
  · exact usbdStandardRequestDevice_accesses (fun n hn => .inl hn) σ
  split
  · exact usbdStandardRequestInterface_accesses σ
  split
  · next hrecipient =>
    -- a request that gets to the register names an endpoint up to 7, or is past them
    have hindex : ((σ.pipe.usbReq.bRequest = usbReqClearFeature ∨
          σ.pipe.usbReq.bRequest = usbReqSetFeature) ∧ σ.pipe.usbReq.wValue = usbFeatEndpointHalt ∨
        σ.pipe.usbReq.bRequest = usbReqGetStatus) →
        σ.pipe.usbReq.Index (Half.lo σ.pipe.usbReq.wIndex &&& 0x7F).toNat := fun hreq => by
      by_cases hlow : (Half.lo σ.pipe.usbReq.wIndex &&& 0x7F).toNat < 8
      · exact .inl hlow
      · exact .inr ⟨not_not.mp htype, hrecipient, hreq, Nat.not_lt.mp hlow⟩
    unfold usbdStandardRequestEndpoint
    dsimp only
    split
    · next hfeature =>
      split
      · next hhalt => exact epStallSet_accesses (hindex (.inl ⟨hfeature, hhalt⟩)) _ _
      · exact .refl _
    split
    · next hstatus => exact epStallGet_accesses (hindex (.inr hstatus)) _
    · exact .refl _
  · exact .refl _

theorem usbdStandardRequest_past (h : σ.pipe.usbReq.PastEndpoints) :
    ¬ Touches (· < 8) σ.usb (usbdStandardRequest cfg σ).2.usb := by
  obtain ⟨htype, hrecipient, hreq, hpast⟩ := h
  have hindex : ¬ (Half.lo σ.pipe.usbReq.wIndex &&& 0x7F).toNat < 8 := by omega
  unfold usbdStandardRequest
  dsimp only
  rw [if_neg (not_not.mpr htype), hrecipient, if_neg (by decide), if_neg (by decide), if_pos rfl]
  unfold usbdStandardRequestEndpoint
  dsimp only
  rcases hreq with ⟨hfeature, hhalt⟩ | hstatus
  · rw [if_pos hfeature, if_pos hhalt]
    exact epStallSet_past hindex _ _
  · rw [if_neg (by rw [hstatus]; decide), if_pos hstatus]
    exact epStallGet_past hindex _

theorem UsbSetupData.PastEndpoints.not_class {r : UsbSetupData} (h : r.PastEndpoints) :
    ¬ r.ClassInterface :=
  fun hclass => classInterface_not_standard hclass h.1

theorem dispatch_accesses (cfg : Config) (σ : Dev) :
    Accesses σ.pipe.usbReq.Index σ.usb (usbControlRequestDispatch cfg σ).2.usb := by
  by_cases hclass : σ.pipe.usbReq.ClassInterface
  · cases hreq : DfuReq.ofByte σ.pipe.usbReq.bRequest with
    | none =>
        rw [usbControlRequestDispatch_unknown hclass hreq]
        exact .refl _
    | some r =>
        rw [usbControlRequestDispatch_class hclass hreq, usbdfuControlRequest_usb]
        exact .refl _
  · rw [usbControlRequestDispatch_pass hclass]
    exact usbdStandardRequest_accesses (σ.call _)

theorem dispatch_past (h : σ.pipe.usbReq.PastEndpoints) :
    ¬ Touches (· < 8) σ.usb (usbControlRequestDispatch cfg σ).2.usb := by
  rw [usbControlRequestDispatch_pass h.not_class]
  exact usbdStandardRequest_past (σ := σ.call _) h

/-! ## Polls and runs -/

/-- What is accessed up to a state in between. -/
theorem touches_split {P Q : Nat → Prop} (h : Touches P u w) (huv : Touches Q u v)
    (hvw : Touches Q v w) : Touches P u v ∧ Touches P v w := by
  obtain ⟨m, hm, hP⟩ := h
  obtain ⟨l, hl, -⟩ := huv
  obtain ⟨l', hl', -⟩ := hvw
  obtain rfl : m = l ++ l' := by
    rw [hl', hl, List.append_assoc] at hm
    exact (List.append_cancel_left hm).symm
  exact ⟨⟨l, hl, fun n hn => hP n (List.mem_append_left _ hn)⟩,
    ⟨l', hl', fun n hn => hP n (List.mem_append_right _ hn)⟩⟩

/-- A poll accesses endpoint registers, and what the request it dispatches may access. -/
theorem poll_touches (cfg : Config) (htidy : σ.Tidy) {t : Transfer} (htracks : σ.Tracks t) (e : Event) :
    Touches (fun n => n < 8 ∨ ∃ q, σ.Dispatches e q ∧ q.PastEndpoints) σ.usb
      (poll cfg σ e).usb := by
  have hplain : ∀ {τ υ : Dev}, τ.Plumbed υ →
      Touches (fun n => n < 8 ∨ ∃ q, σ.Dispatches e q ∧ q.PastEndpoints) τ.usb υ.usb :=
    fun hpl => hpl.usb.mono fun n hn => .inl (by omega)
  cases poll_effect cfg htidy htracks e with
  | idle _ hpl => exact hplain hpl
  | @complete ρ stage _ _ hpl hpl' =>
      refine ((hplain hpl).trans (.of_eq ?_)).trans (hplain hpl')
      rw [usbdfuGetstatusComplete_usb]
      rfl
  | @dispatch ρ hq hpl _ hpl' =>
      refine ((hplain hpl).trans ((dispatch_accesses _ ρ).touches.mono ?_)).trans (hplain hpl')
      rintro n (hn | hpast)
      · exact .inl hn
      · exact .inr ⟨_, hq, hpast⟩

/-- A poll that dispatches a request past the endpoint registers accesses one past them. -/
theorem poll_past (htidy : σ.Tidy) {t : Transfer} (htracks : σ.Tracks t) {e : Event}
    {q : UsbSetupData} (hq : σ.Dispatches e q) (hpast : q.PastEndpoints) :
    ¬ Touches (· < 8) σ.usb (poll cfg σ e).usb := by
  intro htouches
  have hany : ∀ {P : Nat → Prop} {τ υ : Dev}, Touches P τ.usb υ.usb →
      Touches (fun _ => True) τ.usb υ.usb := fun h => h.mono fun _ _ => trivial
  cases poll_effect cfg htidy htracks e with
  | idle hno => exact hno q hq
  | complete hno => exact hno q hq
  | @dispatch ρ hq' hpl _ hpl' =>
      obtain rfl : q = ρ.pipe.usbReq := hq.unique hq'
      have hd := (dispatch_accesses cfg ρ).touches
      have hstart := (touches_split htouches (hany hpl.usb) ((hany hd).trans (hany hpl'.usb))).2
      exact dispatch_past hpast (touches_split hstart (hany hd) (hany hpl'.usb)).1

/-- A request that is in range, or refused, keeps the poll within the endpoint registers. -/
theorem poll_inRange (cfg : Config) (htidy : σ.Tidy) {t : Transfer} (htracks : σ.Tracks t) {e : Event}
    (h : (t.next e).req.InRange) : Touches (· < 8) σ.usb (poll cfg σ e).usb := by
  refine (poll_touches _ htidy htracks e).mono ?_
  rintro n (hn | ⟨q, hq, hpast⟩)
  · exact hn
  cases e with
  | setup p =>
      obtain ⟨rfl, hdir⟩ := hq
      exact absurd hdir (h hpast).1
  | out pkt =>
      have hopen : σ.Open t := htracks.resolve_left fun hno => hno.last hq.2.1
      obtain rfl : q = t.req := hq.1.trans hopen.receiving.usbReq
      exact absurd hopen.fits (Nat.not_le.mpr (h hpast).2)
  | _ => exact absurd hq not_false

theorem run_inRange (htidy : σ.Tidy) {t : Transfer} (htracks : σ.Tracks t) (ht : t.req.InRange)
    {es : List Event} (hes : ∀ p, .setup p ∈ es → p.InRange) :
    Touches (· < 8) σ.usb ((machine cfg).run σ es).usb := by
  induction es generalizing σ t with
  | nil => exact .of_eq rfl
  | cons e es ih =>
      have hnext : (t.next e).req.InRange := by
        cases e with
        | setup p => exact hes p List.mem_cons_self
        | _ => exact ht
      exact (poll_inRange _ htidy htracks hnext).trans (ih (poll_tidy _ htidy e)
        (poll_tracks _ htidy htracks e) hnext fun p hp => hes p (List.mem_cons_of_mem _ hp))

/-- No run takes an access back. -/
theorem run_touches (htidy : σ.Tidy) {t : Transfer} (htracks : σ.Tracks t) (es : List Event) :
    Touches (fun _ => True) σ.usb ((machine cfg).run σ es).usb := by
  induction es generalizing σ t with
  | nil => exact .of_eq rfl
  | cons e es ih =>
      have hpoll := (poll_touches cfg htidy htracks e).mono fun _ _ => trivial
      exact hpoll.trans (ih (poll_tidy _ htidy e) (poll_tracks _ htidy htracks e))

/-- **Endpoint requests stay in the file.** From a reachable state a SETUP and
its data stage access endpoint registers 0 to 7 only, just if the request is in
range. A run whose SETUPs all are accesses nothing else; and a request that
names one of the eight leaves every register past them as it is. -/
theorem endpoint_index (cfg : Config) :
    (∀ (σ : Dev) (p : UsbSetupData), (machine cfg).Reachable σ →
      ((∀ pkts : List Packet, Touches (· < 8) σ.usb
        ((machine cfg).run σ (.setup p :: pkts.map .out)).usb) ↔ p.InRange)) ∧
      (∀ (σ : Dev) (es : List Event), σ.Boot → (∀ p, .setup p ∈ es → p.InRange) →
        Touches (· < 8) σ.usb ((machine cfg).run σ es).usb) ∧
      ∀ σ : Dev, ¬ σ.pipe.usbReq.PastEndpoints → ∀ i, 8 ≤ i →
        (usbControlRequestDispatch cfg σ).2.usb.reg i = σ.usb.reg i := by
  refine ⟨fun σ p hσ => ?_, fun σ es hboot hes => ?_, fun σ hin i hi => ?_⟩
  · obtain ⟨htidy, t, htracks⟩ := tracks_invariant cfg σ hσ
    have htidy' := poll_tidy cfg htidy (.setup p)
    have htracks' := poll_tracks cfg htidy htracks (.setup p)
    constructor
    · intro htouches hpast
      -- a request that is dispatched at its SETUP gives itself away there
      by_cases hdir : p.wLength = 0 ∨ p.DirIn
      · exact absurd (htouches []) (poll_past htidy htracks ⟨rfl, hdir⟩ hpast)
      refine ⟨hdir, Nat.not_le.mp fun hfit => ?_⟩
      obtain ⟨hw, hout⟩ := not_or.mp hdir
      -- the others do when their last packet is there
      obtain ⟨hrecv, -⟩ := poll_setup_write cfg htidy.noReset hout hw hfit
      obtain ⟨k, hk⟩ := hrecv.reaches_dispatch cfg
      obtain ⟨htidy', t', htracks'⟩ := tracks_invariant cfg _ (hσ.run (machine cfg)
        (.setup p :: (List.replicate k Packet.full).map .out))
      have hlast := htouches (List.replicate (k + 1) Packet.full)
      rw [List.replicate_succ', List.map_append, ← List.cons_append, List.map_singleton,
        TSys.run_snoc] at hlast
      have hpoll := (poll_touches cfg htidy' htracks' (.out .full)).mono
        fun _ _ => trivial
      exact poll_past htidy' htracks' hk hpast
        (touches_split hlast (run_touches htidy htracks _) hpoll).2
    · intro hin pkts
      have hsetup := poll_inRange cfg (e := .setup p) htidy htracks hin
      refine hsetup.trans (run_inRange htidy' htracks' hin fun q hq => ?_)
      simp at hq
  · obtain ⟨htidy, htracks⟩ := run_tracks cfg hboot []
    refine run_inRange htidy htracks (fun hpast => ?_) hes
    exact absurd hpast.2.1 (by decide)
  · refine (dispatch_accesses _ σ).reg i ?_
    rintro (hlt | hpast)
    · omega
    · exact hin hpast

/-- CLEAR_FEATURE(ENDPOINT_HALT) on endpoint 1 of a fresh device. -/
theorem endpoint_index_clearFeature :
    Touches (· < 8) (Dev.fresh fun _ => 0xff).usb ((machine .stm32f103).run
      (Dev.fresh fun _ => 0xff) [.reset, .setup ⟨0x02, 1, 0, 0x81, 0⟩]).usb := by
  refine (endpoint_index .stm32f103).2.1 _ _ (Dev.fresh_boot _) fun p hp => ?_
  obtain rfl : p = ⟨0x02, 1, 0, 0x81, 0⟩ := by simpa using hp
  rintro ⟨-, -, -, hpast⟩
  exact absurd hpast (by decide)

/-- SET_FEATURE(ENDPOINT_HALT) with wIndex 19, right after the bus reset, accesses
index 19 and changes USB_DADDR, the register there. -/
theorem setFeature_writes_daddr :
    let σ := (machine .stm32f103).run (Dev.fresh fun _ => 0xff) [.reset]
    let τ := poll .stm32f103 σ (.setup ⟨0x02, 3, 0, 19, 0⟩)
    (machine .stm32f103).Reachable σ ∧ ¬ Touches (· < 8) σ.usb τ.usb ∧
      τ.usb.reg usbDaddrReg ≠ σ.usb.reg usbDaddrReg := by
  have htouched : (poll .stm32f103 ((machine .stm32f103).run (Dev.fresh fun _ => 0xff) [.reset])
      (.setup ⟨0x02, 3, 0, 19, 0⟩)).usb.touched = ((machine .stm32f103).run
        (Dev.fresh fun _ => 0xff) [.reset]).usb.touched ++ [0, 0, 0, 0, 19, 0, 0] := by
    decide +kernel
  have hreach := TSys.Reachable.run (machine .stm32f103) (.init (Dev.fresh_boot fun _ => 0xff))
    [.reset]
  refine ⟨hreach, ?_, by decide +kernel⟩
  rintro ⟨l, hl, hlow⟩
  obtain rfl : l = [0, 0, 0, 0, 19, 0, 0] := List.append_cancel_left (hl.symm.trans htouched)
  exact absurd (hlow 19 (by simp)) (by decide)

end LnDso
