import LnDso.Logic.Dispatched
import LnDso.Theorems.BusReset
import LnDso.Theorems.EndpointIndex
import LnDso.Theorems.Handshake

/-!
# The device address

SET_ADDRESS is checked at its dispatch, and its wValue goes to USB_DADDR at the
end of its status stage, by a test on the stored request that every status stage
makes. `Addressing` says what the address of a device should be; USB_DADDR is
that, whatever SETUPs, packets, stalls and resets come in between.
-/

namespace LnDso

open Lib UsbPeriph

variable {cfg : Config} {σ τ : Dev} {e : Event}

/-! ## What the address should be -/

/-- A SET_ADDRESS that is in order. -/
def UsbSetupData.SetAddress (r : UsbSetupData) : Prop :=
  r.bmRequestType = 0 ∧ r.bRequest = usbReqSetAddress ∧ r.wValue < 128

instance (r : UsbSetupData) : Decidable r.SetAddress := inferInstanceAs (Decidable (_ ∧ _))

/-- The address register of a device, and the SET_ADDRESS whose status stage is due. -/
structure Addressing where
  address : Half
  awaiting : Option UsbSetupData

/-- An event, in which the device accepts the SET_ADDRESS `accepted`, if any. -/
def Addressing.next (accepted : Option UsbSetupData) (a : Addressing) : Event → Addressing
  | .reset => ⟨usbDaddrEf, none⟩
  | .inDone =>
      match a.awaiting with
      | some r => ⟨r.wValue ||| usbDaddrEf, none⟩
      | none => a
  | .setup _ => ⟨a.address, accepted⟩
  | .out _ => ⟨a.address, accepted⟩
  | .flags _ => a

theorem Addressing.next_inDone_none {a : Addressing} {acc : Option UsbSetupData}
    (h : a.awaiting = none) : a.next acc .inDone = ⟨a.address, none⟩ := by
  obtain ⟨address, awaiting⟩ := a
  obtain rfl : awaiting = none := h
  rfl

/-- The SET_ADDRESS that is in order and brought to its dispatch by the event. -/
def Dev.Accepts (σ : Dev) (e : Event) : Prop := σ.Dispatches e (σ.request e) ∧ (σ.request e).SetAddress

instance (σ : Dev) (e : Event) : Decidable (σ.Accepts e) := inferInstanceAs (Decidable (_ ∧ _))

def Dev.accepted (σ : Dev) (e : Event) : Option UsbSetupData :=
  if σ.Accepts e then some (σ.request e) else none

/-- The address after a run. -/
def addressing (cfg : Config) : Dev → Addressing → List Event → Addressing
  | _, a, [] => a
  | σ, a, e :: es => addressing cfg (poll cfg σ e) (a.next (σ.accepted e) e) es

/-- What can happen on the bus. -/
def Dev.Permits (σ : Dev) : Event → Prop
  | .setup p => p.FeatureInRange
  | .inDone => (σ.usb.ep 0).statTx = 3
  | _ => True

/-- The status stage of the SET_ADDRESS `r` is due: its empty packet is on offer. -/
structure Dev.Awaits (r : UsbSetupData) (σ : Dev) : Prop where
  fsm : σ.pipe.usbFsmState = .statusIn
  offer : (σ.usb.ep 0).statTx = 3
  usbReq : σ.pipe.usbReq = r
  setAddress : r.SetAddress

/-- The address register is that of `a`, and so is the SET_ADDRESS awaited. -/
structure Dev.Addressed (a : Addressing) (σ : Dev) : Prop where
  address : σ.usb.reg usbDaddrReg = a.address
  awaiting : ∀ r, a.awaiting = some r ↔ σ.Awaits r

/-! ## Handlers -/

/-- What a handler leaves, beside the address. -/
structure Dev.Orderly (σ : Dev) : Prop where
  offers : (σ.usb.ep 0).statTx = 3 → σ.pipe.usbFsmState.Offers
  inOrder : σ.pipe.usbFsmState = .statusIn → σ.pipe.usbReq.bmRequestType = 0 →
    σ.pipe.usbReq.bRequest = usbReqSetAddress → σ.pipe.usbReq.wValue < 128

structure Dev.Leaves (a : Addressing) (τ : Dev) : Prop extends τ.Addressed a where
  orderly : τ.Orderly

/-- A handler that leaves the address, with a SET_ADDRESS awaited or none. -/
abbrev Dev.Keeps (accepted : Option UsbSetupData) (σ τ : Dev) : Prop :=
  τ.Leaves ⟨σ.usb.reg usbDaddrReg, accepted⟩

variable {a : Addressing} {acc : Option UsbSetupData}

/-- Nothing is awaited outside a status stage. -/
theorem Dev.Leaves.of_ne {x : Half} (haddr : τ.usb.reg usbDaddrReg = x)
    (hfsm : τ.pipe.usbFsmState ≠ .statusIn)
    (hoffers : (τ.usb.ep 0).statTx = 3 → τ.pipe.usbFsmState.Offers) : τ.Leaves ⟨x, none⟩ := by
  refine ⟨⟨haddr, fun r => ⟨?_, ?_⟩⟩, hoffers, fun hstatus => absurd hstatus hfsm⟩
  · intro hnone
    cases hnone
  · intro hawaits
    exact absurd hawaits.fsm hfsm

theorem Dev.Leaves.tail {istr : Half} (h : τ.Leaves a) : (τ.tail istr).Leaves a := by
  obtain ⟨⟨haddr, hawaiting⟩, hoffers, hinOrder⟩ := h
  refine ⟨⟨?_, fun r => ?_⟩, ?_, hinOrder⟩
  · rw [tail_daddr]
    exact haddr
  · rw [hawaiting]
    constructor
    · rintro ⟨hfsm, hoffer, hreq, hset⟩
      exact ⟨hfsm, by rw [Dev.tail_ep]; exact hoffer, hreq, hset⟩
    · rintro ⟨hfsm, hoffer, hreq, hset⟩
      rw [Dev.tail_ep] at hoffer
      exact ⟨hfsm, hoffer, hreq, hset⟩
  · rw [Dev.tail_ep]
    exact hoffers

theorem Dev.Leaves.of_address {ρ : Dev} (haddr : ρ.usb.reg usbDaddrReg = σ.usb.reg usbDaddrReg)
    (h : ρ.Keeps acc τ) : σ.Keeps acc τ := by
  unfold Dev.Keeps at h ⊢
  rw [← haddr]
  exact h

theorem stallTransaction_keeps (σ : Dev) : σ.Keeps none (stallTransaction σ) := by
  refine .of_ne (stallTransaction_daddr σ) (by simp [stallTransaction]) ?_
  intro hoffer
  rw [(stallTransaction_stalled σ).1] at hoffer
  exact absurd hoffer (by decide)

/-- A chunk of an IN data stage. -/
theorem usbControlSendChunk_keeps (σ : Dev) : σ.Keeps none (usbControlSendChunk σ) := by
  have haddr := usbControlSendChunk_daddr σ
  by_cases hmore : 64 < σ.pipe.datasize.toNat
  · rw [usbControlSendChunk_more hmore] at haddr ⊢
    exact .of_ne haddr (by simp) fun _ => .inl rfl
  · rw [usbControlSendChunk_last (Nat.not_lt.mp hmore)] at haddr ⊢
    cases σ.pipe.usbNeedsZlp with
    | true => exact .of_ne haddr (by simp) fun _ => .inl rfl
    | false => exact .of_ne haddr (by simp) fun _ => .inr (.inl rfl)

/-! ## Dispatch -/

theorem usbdStandardRequestEndpoint_daddr (hindex : σ.pipe.usbReq.bRequest = usbReqClearFeature ∨
      σ.pipe.usbReq.bRequest = usbReqSetFeature → (Half.lo σ.pipe.usbReq.wIndex &&& 0x7F).toNat < 8) :
    (usbdStandardRequestEndpoint σ).2.usb.reg usbDaddrReg = σ.usb.reg usbDaddrReg := by
  unfold usbdStandardRequestEndpoint
  dsimp only
  split
  · next hfeature =>
    split
    · exact (epStallSet_accesses (P := (· < 8)) (hindex hfeature) _ σ.usb).reg usbDaddrReg (by decide)
    · rfl
  split
  · show (epStallGet (Half.lo σ.pipe.usbReq.wIndex) σ.usb).2.reg usbDaddrReg = _
    unfold epStallGet
    split <;> rfl
  · rfl

/-- A request leaves the address alone, if it keeps to the endpoint registers. -/
theorem dispatch_daddr (cfg : Config) (h : σ.pipe.usbReq.FeatureInRange) :
    (usbControlRequestDispatch cfg σ).2.usb.reg usbDaddrReg = σ.usb.reg usbDaddrReg := by
  by_cases hclass : σ.pipe.usbReq.ClassInterface
  · cases hreq : DfuReq.ofByte σ.pipe.usbReq.bRequest with
    | none =>
        rw [usbControlRequestDispatch_unknown hclass hreq]
        rfl
    | some r =>
        rw [usbControlRequestDispatch_class hclass hreq, usbdfuControlRequest_usb]
        rfl
  rw [usbControlRequestDispatch_pass hclass]
  unfold usbdStandardRequest
  dsimp only
  split
  · rfl
  next htype =>
  split
  · exact (usbdStandardRequestDevice_accesses (P := (· < 8)) (fun _ hn => hn) _).reg usbDaddrReg
      (by decide)
  split
  · exact (usbdStandardRequestInterface_accesses (P := (· < 8)) _).reg usbDaddrReg (by decide)
  split
  · next hrecipient =>
    exact usbdStandardRequestEndpoint_daddr (σ := σ.call _) (h (not_not.mp htype) hrecipient)
  · rfl

/-- A SET_ADDRESS is handled just if its wValue is an address, and does nothing yet. -/
theorem dispatch_setAddress (cfg : Config) (htype : σ.pipe.usbReq.bmRequestType = 0)
    (hreq : σ.pipe.usbReq.bRequest = usbReqSetAddress) :
    usbControlRequestDispatch cfg σ = (if 128 ≤ σ.pipe.usbReq.wValue then .notsupp else .handled,
      σ.call (.dispatch σ.pipe.usbReq σ.usbdControlBuffer)) := by
  have hclass : ¬ σ.pipe.usbReq.ClassInterface := by
    unfold UsbSetupData.ClassInterface
    rw [htype]
    decide
  rw [usbControlRequestDispatch_pass hclass]
  unfold usbdStandardRequest
  dsimp only [Dev.call_pipe]
  rw [htype, if_neg (by decide), if_pos (by decide)]
  unfold usbdStandardRequestDevice
  dsimp only [Dev.call_pipe]
  rw [if_pos hreq, htype]
  by_cases hvalue : 128 ≤ σ.pipe.usbReq.wValue
  · rw [if_pos (.inr hvalue), if_pos hvalue]
  · rw [if_neg (by simpa using hvalue), if_neg hvalue]

/-- The SET_ADDRESS that `σ` is at, if it is one in order. -/
def Dev.address? (σ : Dev) : Option UsbSetupData :=
  if σ.pipe.usbReq.SetAddress then some σ.pipe.usbReq else none

/-- A request that is refused, or acknowledged with an empty packet. -/
theorem acknowledge_keeps (cfg : Config) (hstat : (σ.usb.ep 0).statTx ≠ 3)
    (hrange : σ.pipe.usbReq.FeatureInRange) {f : Dev → Dev}
    (hf : ∀ υ : Dev, ∃ P : Pipe, P.usbReq = υ.pipe.usbReq ∧
      f υ = ({ υ with pipe := P }.writePacket0 (fun _ => 0) 0).setFsm .statusIn) :
    σ.Keeps σ.address? (if (usbControlRequestDispatch cfg σ).1 = .notsupp
      then stallTransaction (usbControlRequestDispatch cfg σ).2
      else f (usbControlRequestDispatch cfg σ).2) := by
  have haddr := dispatch_daddr cfg hrange
  have hd := usbControlRequestDispatch_handles cfg σ
  split
  · next hrefused =>
    have hnone : σ.address? = none := by
      refine if_neg fun hset => ?_
      rw [dispatch_setAddress cfg hset.1 hset.2.1] at hrefused
      rw [if_neg (BitVec.not_le.mpr hset.2.2)] at hrefused
      cases hrefused
    rw [hnone]
    exact .of_address haddr (stallTransaction_keeps _)
  · next hhandled =>
    obtain ⟨P, hP, hfυ⟩ := hf (usbControlRequestDispatch cfg σ).2
    have hinOrder : σ.pipe.usbReq.bmRequestType = 0 → σ.pipe.usbReq.bRequest = usbReqSetAddress →
        σ.pipe.usbReq.wValue < 128 := by
      intro htype hreq
      rw [dispatch_setAddress cfg htype hreq] at hhandled
      by_contra hvalue
      exact hhandled (if_pos (BitVec.not_lt.mp hvalue))
    have hreq : P.usbReq = σ.pipe.usbReq := hP.trans hd.usbReq
    rw [hfυ]
    have hwrite := usbdEpWritePacket_zero (hd.statTx hstat) (fun _ => 0) 0
    obtain ⟨-, hep, hreg⟩ := hwrite
    have hoffer : EpFields.statTx ((({ (usbControlRequestDispatch cfg σ).2 with
        pipe := P }.writePacket0 (fun _ => 0) 0).setFsm .statusIn).usb.ep 0) = 3 := by
      show EpFields.statTx ((usbdEpWritePacket 0 (fun _ => 0) 0
        (usbControlRequestDispatch cfg σ).2.usb).2.ep 0) = 3
      rw [hep]
    refine ⟨⟨(hreg usbDaddrReg (by decide)).trans haddr, fun r => ?_⟩, fun _ => .inr (.inr rfl), ?_⟩
    · show σ.address? = some r ↔ _
      unfold Dev.address?
      constructor
      · intro hsome
        split at hsome
        · next hset =>
          obtain rfl := Option.some.inj hsome
          exact ⟨rfl, hoffer, hreq, hset⟩
        · cases hsome
      · rintro ⟨-, -, rfl, hset⟩
        have hset' : P.usbReq.SetAddress := hset
        rw [hreq] at hset'
        rw [if_pos hset']
        exact congrArg some hreq.symm
    · intro _
      show P.usbReq.bmRequestType = 0 → P.usbReq.bRequest = usbReqSetAddress → P.usbReq.wValue < 128
      rw [hreq]
      exact hinOrder

/-! ## SETUP -/

theorem UsbSetupData.SetAddress.not_dirIn {r : UsbSetupData} (h : r.SetAddress) : ¬ r.DirIn := by
  unfold UsbSetupData.DirIn
  rw [h.1]
  decide

/-- The start of an IN data stage. -/
theorem answer_keeps {w : Half} (hw : w ≠ 0) (σ : Dev) : σ.Keeps none (σ.answer w) := by
  unfold Dev.answer
  dsimp only
  rw [if_pos hw]
  have hsend : ∀ P : Pipe, σ.Keeps none (usbControlSendChunk { σ with pipe := P }) :=
    fun P => usbControlSendChunk_keeps { σ with pipe := P }
  exact hsend _

theorem setupRead_keeps (cfg : Config) (hstat : (σ.usb.ep 0).statTx ≠ 3)
    (hrange : σ.pipe.usbReq.FeatureInRange)
    (hread : σ.pipe.usbReq.wLength = 0 ∨ σ.pipe.usbReq.DirIn) :
    σ.Keeps σ.address? (usbControlSetupRead cfg σ) := by
  let ρ : Dev := { σ with pipe := { σ.pipe with dataoff := 0 } }
  have heq : usbControlSetupRead cfg σ = if (usbControlRequestDispatch cfg ρ).1 = .notsupp
      then stallTransaction (usbControlRequestDispatch cfg ρ).2
      else (usbControlRequestDispatch cfg ρ).2.answer σ.pipe.usbReq.wLength :=
    usbControlSetupRead_eq σ
  have hsame : σ.address? = ρ.address? := rfl
  rw [heq, hsame]
  refine Dev.Leaves.of_address (ρ := ρ) rfl ?_
  by_cases hw : σ.pipe.usbReq.wLength = 0
  · refine acknowledge_keeps (σ := ρ) cfg hstat hrange ?_
    intro υ
    refine ⟨{ υ.pipe with datasize := truncate σ.pipe.usbReq.wLength υ.pipe.datasize }, rfl, ?_⟩
    unfold Dev.answer
    dsimp only
    rw [if_neg (not_not.mpr hw)]
  · -- with bytes asked for there is a data stage first
    have hnone : ρ.address? = none :=
      if_neg fun hset => hset.not_dirIn (hread.resolve_left hw)
    have haddr := dispatch_daddr (σ := ρ) cfg hrange
    rw [hnone]
    split
    · exact .of_address haddr (stallTransaction_keeps _)
    · exact .of_address haddr (answer_keeps hw _)

theorem setupWrite_keeps (hstat : (σ.usb.ep 0).statTx ≠ 3) :
    σ.Keeps none (usbControlSetupWrite σ) := by
  unfold usbControlSetupWrite
  dsimp only
  split
  · exact stallTransaction_keeps σ
  · have hep := usbSetEpRxStat_ep0 σ.usb false
    refine .of_ne (epRegRmw_daddr (setRxStatVal · usbEpRxStatValid) σ.usb) ?_ ?_
    · show (if _ < _ then UsbFsmState.dataOut else .lastDataOut) ≠ .statusIn
      split
      · simp
      · simp
    · intro hoffer
      exact absurd ((congrArg EpFields.statTx hep).symm.trans hoffer) hstat

/-- A SETUP: its SET_ADDRESS is awaited, if it is one in order with no data stage. -/
theorem setupStage_keeps (cfg : Config) (hstat : (σ.usb.ep 0).statTx ≠ 3)
    (hrange : σ.pipe.usbReq.FeatureInRange) :
    σ.Keeps (if σ.pipe.usbReq.wLength = 0 ∨ σ.pipe.usbReq.DirIn then σ.address? else none)
      (σ.setupStage cfg σ.pipe.usbReq) := by
  unfold Dev.setupStage
  split
  · next hread => exact setupRead_keeps cfg hstat hrange hread
  · exact setupWrite_keeps hstat

/-! ## Packets -/

/-- A chunk that is taken offers nothing. -/
theorem usbControlRecvChunk_statTx (hrx : (σ.usb.ep 0).statRx ≠ 3)
    (htx : (σ.usb.ep 0).statTx ≠ 3) : ((usbControlRecvChunk σ).2.usb.ep 0).statTx ≠ 3 := by
  obtain ⟨v, hread, -, hep⟩ := usbdEpReadPacket_zero hrx σ.pipe.usbForceNak σ.usbdControlBuffer
    σ.pipe.datasize.toNat (BitVec.ofInt 16 (min (bMaxPacketSize0.toNat : Int) σ.pipe.remaining))
  unfold usbControlRecvChunk
  dsimp only
  rw [hread]
  dsimp only
  split
  · rw [(stallTransaction_stalled _).1]
    decide
  · rw [hep]
    exact htx

theorem usbControlRecvChunk_keeps (hrx : (σ.usb.ep 0).statRx ≠ 3)
    (htx : (σ.usb.ep 0).statTx ≠ 3) (h : (usbControlRecvChunk σ).1 < 0) :
    σ.Keeps none (usbControlRecvChunk σ).2 := by
  refine .of_ne (usbControlRecvChunk_daddr σ) ?_ ?_
  · rw [usbControlRecvChunk_refused h]
    simp
  · intro hoffer
    exact absurd hoffer (usbControlRecvChunk_statTx hrx htx)

/-- More of a data stage, or a packet that is refused. -/
theorem usbdControlOut_dataOut (cfg : Config) (hrx : (σ.usb.ep 0).statRx ≠ 3)
    (htx : (σ.usb.ep 0).statTx ≠ 3) (hfsm : σ.pipe.usbFsmState = .dataOut) :
    σ.Keeps none (usbdControlOut cfg σ) := by
  have haddr := usbControlRecvChunk_daddr σ
  have hno := usbControlRecvChunk_statTx hrx htx
  unfold usbdControlOut
  rw [hfsm]
  dsimp only
  split
  · next hneg => exact usbControlRecvChunk_keeps hrx htx hneg
  · next hnonneg =>
    split
    · exact .of_ne haddr (by simp) fun hoffer => absurd hoffer hno
    · refine .of_ne haddr ?_ fun hoffer => absurd hoffer hno
      rw [usbControlRecvChunk_fsm hnonneg, hfsm]
      simp

/-- The end of a data stage: its SET_ADDRESS is awaited, if it is one in order. -/
theorem usbdControlOut_lastDataOut (cfg : Config) (hrx : (σ.usb.ep 0).statRx ≠ 3)
    (htx : (σ.usb.ep 0).statTx ≠ 3) (hfsm : σ.pipe.usbFsmState = .lastDataOut)
    (hrange : σ.pipe.usbReq.FeatureInRange) :
    σ.Keeps (if (usbControlRecvChunk σ).1 < 0 then none else σ.address?) (usbdControlOut cfg σ) := by
  split
  · next hneg =>
    have hself : usbdControlOut cfg σ = (usbControlRecvChunk σ).2 := by
      unfold usbdControlOut
      rw [hfsm]
      exact if_pos hneg
    rw [hself]
    exact usbControlRecvChunk_keeps hrx htx hneg
  · next hnonneg =>
    have hreq := (usbControlRecvChunk_sameDfu σ).2.2
    have haddress : σ.address? = (usbControlRecvChunk σ).2.address? := by
      unfold Dev.address?
      rw [hreq]
    rw [usbdControlOut_last hfsm (Int.not_lt.mp hnonneg), haddress]
    refine .of_address (usbControlRecvChunk_daddr σ) ?_
    exact acknowledge_keeps cfg (usbControlRecvChunk_statTx hrx htx) (by rw [hreq]; exact hrange)
      (f := fun υ => (υ.writePacket0 (fun _ => 0) 0).setFsm .statusIn) fun υ => ⟨υ.pipe, rfl, rfl⟩

/-- The end of a status stage. -/
theorem usbdControlOut_statusOut (cfg : Config) (hrx : (σ.usb.ep 0).statRx ≠ 3)
    (htx : (σ.usb.ep 0).statTx ≠ 3) (hfsm : σ.pipe.usbFsmState = .statusOut) :
    σ.Keeps none (usbdControlOut cfg σ) := by
  have haddr := usbdEpReadPacket_daddr σ.pipe.usbForceNak (fun _ => 0) 0 0 σ.usb
  obtain ⟨v, hread, -, hep⟩ := usbdEpReadPacket_zero hrx σ.pipe.usbForceNak (fun _ => 0) 0 0
  rw [hread] at haddr
  unfold usbdControlOut
  rw [hfsm]
  dsimp only
  rw [hread]
  dsimp only
  obtain ⟨husb, hpipe, -⟩ := completeTransfer_sameUsb cfg .statusOut
    (Dev.setFsm .idle { σ with usb := v })
  refine .of_ne ?_ ?_ ?_
  · rw [husb]
    exact haddr
  · rw [hpipe]
    simp
  · rw [husb, Dev.setFsm_usb, hep]
    intro hoffer
    exact absurd hoffer htx

theorem and_daddrAddr {w : Half} (h : w < 128) : w &&& usbDaddrAddr = w := by
  apply BitVec.eq_of_toNat_eq
  have hlt : w.toNat < 2 ^ 7 := h
  rw [BitVec.toNat_and, show usbDaddrAddr.toNat = 2 ^ 7 - 1 from rfl,
    Nat.and_two_pow_sub_one_eq_mod, Nat.mod_eq_of_lt hlt]

/-- The end of a status stage: the address is that of its SET_ADDRESS, if it has one. -/
theorem usbdControlIn_statusIn (cfg : Config) (htx : (σ.usb.ep 0).statTx ≠ 3) (h : σ.Orderly)
    (hfsm : σ.pipe.usbFsmState = .statusIn) :
    (usbdControlIn cfg σ).Leaves ⟨if σ.pipe.usbReq.SetAddress then σ.pipe.usbReq.wValue ||| usbDaddrEf
      else σ.usb.reg usbDaddrReg, none⟩ := by
  obtain ⟨husb, hpipe, -⟩ := completeTransfer_sameUsb cfg .statusIn σ
  have hin : usbdControlIn cfg σ =
      (if σ.pipe.usbReq.bmRequestType = 0 ∧ σ.pipe.usbReq.bRequest = usbReqSetAddress then
        { completeTransfer cfg .statusIn σ with
          usb := σ.usb.setReg usbDaddrReg ((σ.pipe.usbReq.wValue &&& usbDaddrAddr) ||| usbDaddrEf) }
      else completeTransfer cfg .statusIn σ).setFsm .idle := by
    unfold usbdControlIn
    rw [hfsm]
    dsimp only
    rw [hpipe, husb]
  rw [hin]
  by_cases hset : σ.pipe.usbReq.bmRequestType = 0 ∧ σ.pipe.usbReq.bRequest = usbReqSetAddress
  · have hvalue := h.inOrder hfsm hset.1 hset.2
    rw [if_pos hset, if_pos ⟨hset.1, hset.2, hvalue⟩]
    refine .of_ne ?_ (by simp) ?_
    · rw [and_daddrAddr hvalue]
      exact (setReg_reg σ.usb usbDaddrReg _ usbDaddrReg).trans (if_pos rfl)
    · intro hoffer
      exact absurd ((congrArg EpFields.statTx (setReg_ep (by decide) _ σ.usb)).symm.trans hoffer) htx
  · rw [if_neg hset, if_neg fun hsome => hset ⟨hsome.1, hsome.2.1⟩]
    refine .of_ne ?_ (by simp) ?_
    · exact congrArg (fun u => u.reg usbDaddrReg) husb
    · rw [Dev.setFsm_usb, husb]
      intro hoffer
      exact absurd hoffer htx

theorem usbdControlIn_quiet (cfg : Config) (htx : (σ.usb.ep 0).statTx ≠ 3)
    (hfsm : σ.pipe.usbFsmState ≠ .statusIn) : σ.Keeps none (usbdControlIn cfg σ) := by
  unfold usbdControlIn
  split
  · exact usbControlSendChunk_keeps σ
  · have hep := usbSetEpRxStat_ep0 σ.usb false
    refine .of_ne (epRegRmw_daddr (setRxStatVal · usbEpRxStatValid) σ.usb) ?_ ?_
    · show UsbFsmState.statusOut ≠ .statusIn
      simp
    · intro hoffer
      exact absurd ((congrArg EpFields.statTx hep).symm.trans hoffer) htx
  · next hstatus => exact absurd hstatus hfsm
  · exact stallTransaction_keeps σ

/-! ## Polls -/

/-- What holds of the device while the address register goes by `a`. -/
structure Dev.Follows (a : Addressing) (σ : Dev) : Prop where
  tidy : σ.Tidy
  tracks : ∃ t, σ.Tracks t
  ctrTx : (σ.usb.ep 0).ctrTx = false
  inRange : σ.Stays UsbSetupData.FeatureInRange fun _ _ => True
  leaves : σ.Leaves a

/-- Nothing that offers a packet has a reception left to report. -/
theorem Dev.Follows.ctrRx (h : σ.Follows a) (hoffer : (σ.usb.ep 0).statTx = 3) :
    (σ.usb.ep 0).ctrRx = false :=
  h.tidy.ctrRx (h.leaves.orderly.offers hoffer).ne_idle

theorem Dev.Follows.awaiting_none (h : σ.Follows a) (hfsm : σ.pipe.usbFsmState ≠ .statusIn) :
    a.awaiting = none := by
  cases hsome : a.awaiting with
  | none => rfl
  | some r => exact absurd ((h.leaves.awaiting r).mp hsome).fsm hfsm

theorem accepted_out (hfsm : σ.pipe.usbFsmState ≠ .lastDataOut) (pkt : Packet) :
    σ.accepted (.out pkt) = none :=
  if_neg fun haccepts => hfsm haccepts.1.2.1

theorem readSetup_daddr (σ : Dev) : (readSetup σ).2.usb.reg usbDaddrReg = σ.usb.reg usbDaddrReg :=
  (usbdEpReadPacket_daddr _ _ _ _ _).trans
    (epRegRmw_daddr (setRxStatVal · usbEpRxStatNak) σ.usb)

theorem poll_setup_leaves (cfg : Config) (h : σ.Tidy) {p : UsbSetupData} (hp : p.FeatureInRange) :
    (poll cfg σ (.setup p)).Leaves ⟨σ.usb.reg usbDaddrReg, σ.accepted (.setup p)⟩ := by
  obtain ⟨u, hclear, -, hread, hpoll⟩ := poll_setup_exact cfg h.noReset p
  have haddr : u.reg usbDaddrReg = σ.usb.reg usbDaddrReg := by
    have hsetup := readSetup_daddr (σ.onBus (.setup p)).touch0
    rw [hread] at hsetup
    exact hsetup.trans (hwSetup_reg_ne (i := usbDaddrReg) (by decide) p.bytes σ.usb :)
  have haccepted : (if p.wLength = 0 ∨ p.DirIn then (σ.began p u).address? else none) =
      σ.accepted (.setup p) := by
    unfold Dev.accepted Dev.address?
    by_cases hread : p.wLength = 0 ∨ p.DirIn
    · rw [if_pos hread]
      exact if_congr ⟨fun hset => ⟨⟨rfl, hread⟩, hset⟩, And.right⟩ rfl rfl
    · rw [if_neg hread, if_neg fun haccepts => hread haccepts.1.2]
  have hstage := setupStage_keeps (σ := σ.began p u) cfg hclear.statTx hp
  rw [hpoll, ← haccepted]
  exact (hstage.of_address haddr).tail

theorem poll_out_leaves (cfg : Config) (h : σ.Follows a) (pkt : Packet) :
    (poll cfg σ (.out pkt)).Leaves ⟨σ.usb.reg usbDaddrReg, σ.accepted (.out pkt)⟩ := by
  obtain ⟨hpacket, hep, hpoll⟩ := poll_out_exact cfg h.tidy.noReset pkt
  rw [hpoll]
  refine Dev.Leaves.tail ?_
  let ρ : Dev := (σ.onBus (.out pkt)).touch0
  have haddr : ρ.usb.reg usbDaddrReg = σ.usb.reg usbDaddrReg :=
    (hwOut_reg_ne (i := usbDaddrReg) (by decide) pkt.bytes σ.usb :)
  have hstat : (ρ.usb.ep 0).statRx = 2 := congrArg EpFields.statRx hep
  have hrx : (ρ.usb.ep 0).statRx ≠ 3 := by
    rw [hstat]
    decide
  have htx : σ.TakesOut → (ρ.usb.ep 0).statTx ≠ 3 := fun htakes hoffer =>
    htakes.not_offers (h.leaves.orderly.offers ((congrArg EpFields.statTx hep).symm.trans hoffer))
  refine Dev.Leaves.of_address (ρ := ρ) haddr ?_
  cases hfsm : σ.pipe.usbFsmState with
  | dataOut =>
      rw [accepted_out (by simp [hfsm])]
      exact usbdControlOut_dataOut cfg hrx (htx (.inl hfsm)) hfsm
  | statusOut =>
      rw [accepted_out (by simp [hfsm])]
      exact usbdControlOut_statusOut cfg hrx (htx (.inr (.inr hfsm))) hfsm
  | lastDataOut =>
      have hout := usbdControlOut_lastDataOut (σ := ρ) cfg hrx (htx (.inr (.inl hfsm))) hfsm
        (h.inRange.last hfsm)
      obtain ⟨t, hno | hopen⟩ := h.tracks
      · exact absurd hfsm hno.last
      have hreq := hopen.receiving.usbReq
      have hsize := hopen.receiving.datasize
      have hlast := hopen.receiving.le_of_last hfsm
      have hmin := Nat.min_eq_right hlast
      unfold Dev.accepted
      by_cases hfull : t.req.wLength.toNat - t.data.length ≤ pkt.bytes.length
      · -- the request is complete
        obtain ⟨v, hrecv⟩ := hopen.receiving.recv (u := ρ.usb) hstat
          (by rw [hpacket, hmin]; exact hfull)
        have hnonneg : ¬ (usbControlRecvChunk ρ).1 < 0 := by
          rw [show usbControlRecvChunk ρ = _ from hrecv]
          exact Int.not_lt.mpr (Int.natCast_nonneg _)
        rw [if_neg hnonneg] at hout
        rw [← hreq, ← hsize] at hfull
        have haccepts : σ.Accepts (.out pkt) ↔ σ.pipe.usbReq.SetAddress :=
          ⟨And.right, fun hset => ⟨⟨rfl, hfsm, hfull⟩, hset⟩⟩
        rw [show (if σ.Accepts (.out pkt) then some (σ.request (.out pkt)) else none) = ρ.address? from
          if_congr haccepts rfl rfl]
        exact hout
      · rw [if_neg fun haccepts => ?_]
        · obtain ⟨v, hrecv⟩ := usbControlRecvChunk_short (σ := ρ) (n := t.data.length) hsize
            (by rw [show ρ.pipe.usbReq = t.req from hreq]; exact Nat.le_of_lt hopen.receiving.lt)
            hstat
            (by rw [show ρ.pipe.usbReq = t.req from hreq, hpacket, hmin]; exact Nat.not_le.mp hfull)
          rw [if_pos (by rw [hrecv]; exact Int.negSucc_lt_zero 0)] at hout
          exact hout
        · have hle : σ.pipe.usbReq.wLength.toNat - σ.pipe.datasize.toNat ≤ pkt.bytes.length :=
            haccepts.1.2.2
          rw [hreq, hsize] at hle
          exact hfull hle
  | _ =>
      rw [accepted_out (by simp [hfsm]), usbdControlOut_refused]
      · exact stallTransaction_keeps ρ
      · show ¬ σ.TakesOut
        simp [Dev.TakesOut, hfsm]

theorem poll_inDone_leaves (cfg : Config) (h : σ.Follows a) (hoffer : (σ.usb.ep 0).statTx = 3)
    (acc : Option UsbSetupData) : (poll cfg σ .inDone).Leaves (a.next acc .inDone) := by
  rw [poll_done h.tidy (.inl rfl) (h.ctrRx hoffer)]
  refine Dev.Leaves.tail ?_
  let ρ : Dev := { σ.onBus .inDone with usb := usbClrEpTxCtr 0 (σ.onBus .inDone).usb }
  have hep : ρ.usb.ep 0 = { (hwIn σ.usb).ep 0 with ctrTx := false } :=
    usbClrEpTxCtr_ep (by decide) (hwIn σ.usb)
  have hnak : (ρ.usb.ep 0).statTx = 2 :=
    (congrArg EpFields.statTx hep).trans (congrArg EpFields.statTx (hwIn_ep σ.usb))
  have htx : (ρ.usb.ep 0).statTx ≠ 3 := by
    rw [hnak]
    decide
  have haddr : ρ.usb.reg usbDaddrReg = a.address := by
    have hbus : (hwIn σ.usb).reg usbDaddrReg = σ.usb.reg usbDaddrReg := hwIn_reg_ne (by decide) σ.usb
    exact ((epRegRmw_daddr clrTxCtrVal (hwIn σ.usb)).trans hbus).trans h.leaves.address
  by_cases hfsm : σ.pipe.usbFsmState = .statusIn
  · have hin := usbdControlIn_statusIn (σ := ρ) cfg htx ⟨fun hvalid => absurd hvalid htx,
      h.leaves.orderly.inOrder⟩ hfsm
    by_cases hset : σ.pipe.usbReq.SetAddress
    · rw [show ρ.pipe.usbReq = σ.pipe.usbReq from rfl, if_pos hset] at hin
      have hawaiting : a.awaiting = some σ.pipe.usbReq :=
        (h.leaves.awaiting _).mpr ⟨hfsm, hoffer, rfl, hset⟩
      unfold Addressing.next
      dsimp only
      rw [hawaiting]
      exact hin
    · rw [show ρ.pipe.usbReq = σ.pipe.usbReq from rfl, if_neg hset, haddr] at hin
      rw [Addressing.next_inDone_none (by
        cases hsome : a.awaiting with
        | none => rfl
        | some r =>
          obtain ⟨-, -, hr, hset'⟩ := (h.leaves.awaiting r).mp hsome
          rw [hr] at hset
          exact absurd hset' hset)]
      exact hin
  · have hin := usbdControlIn_quiet (σ := ρ) cfg htx hfsm
    unfold Dev.Keeps at hin
    rw [haddr] at hin
    rw [Addressing.next_inDone_none (h.awaiting_none hfsm)]
    exact hin

theorem poll_reset_leaves (cfg : Config) (h : σ.Follows a) (acc : Option UsbSetupData) :
    (poll cfg σ .reset).Leaves (a.next acc .reset) := by
  rw [poll_reset h.tidy.noReset]
  have hno := pollReset_statTx (σ.onBus .reset)
  refine ⟨⟨?_, fun r => ⟨?_, ?_⟩⟩, fun hoffer => absurd hoffer hno, h.leaves.orderly.inOrder⟩
  · exact (setReg_reg _ usbDaddrReg _ usbDaddrReg).trans (if_pos rfl)
  · intro hnone
    cases hnone
  · intro hawaits
    exact absurd hawaits.offer hno

theorem poll_flags_leaves (cfg : Config) (h : σ.Follows a) (f : Half) :
    (poll cfg σ (.flags f)).Leaves a := by
  have hne : usbDaddrReg ≠ usbIstrReg := by decide
  have haddr : (hwFlags f σ.usb).reg usbDaddrReg = σ.usb.reg usbDaddrReg :=
    Function.update_of_ne hne (σ.usb.reg usbIstrReg ||| (f &&& 0x7B00)) σ.usb.reg
  cases hrx : (σ.usb.ep 0).ctrRx with
  | true =>
      rw [poll_refused (e := .flags f) h.tidy (.inr trivial) hrx]
      have hidle := (h.tidy.stale hrx).2
      have hnone := h.awaiting_none (by simp [hidle])
      have hstall := (stallTransaction_keeps (σ.onBus (.flags f)).touch0).of_address (σ := σ) haddr
      unfold Dev.Keeps at hstall
      rw [h.leaves.address, ← hnone] at hstall
      exact hstall.tail
  | false =>
      rw [poll_quiet (e := .flags f) h.tidy trivial hrx h.ctrTx]
      have hep : (hwFlags f σ.usb).ep 0 = σ.usb.ep 0 := hwFlags_ep f σ.usb (by decide)
      have hbus : (σ.onBus (.flags f)).Leaves a := by
        refine ⟨⟨haddr.trans h.leaves.address, fun r => ?_⟩, ?_, h.leaves.orderly.inOrder⟩
        · rw [h.leaves.awaiting]
          constructor
          · rintro ⟨hfsm, hoffer, hreq, hset⟩
            exact ⟨hfsm, (congrArg EpFields.statTx hep).trans hoffer, hreq, hset⟩
          · rintro ⟨hfsm, hoffer, hreq, hset⟩
            exact ⟨hfsm, (congrArg EpFields.statTx hep).symm.trans hoffer, hreq, hset⟩
        · intro hoffer
          exact h.leaves.orderly.offers ((congrArg EpFields.statTx hep).symm.trans hoffer)
      exact hbus.tail

/-! ## Runs -/

/-- A permitted event, as the address goes. -/
theorem poll_follows (cfg : Config) (h : σ.Follows a) {e : Event} (he : σ.Permits e) :
    (poll cfg σ e).Follows (a.next (σ.accepted e) e) := by
  have hstable : Stable cfg UsbSetupData.FeatureInRange fun _ _ => True := ⟨by simp, by simp⟩
  refine ⟨poll_tidy cfg h.tidy e, ?_, ?_, ?_, ?_⟩
  · obtain ⟨t, htracks⟩ := h.tracks
    exact ⟨_, poll_tracks cfg h.tidy htracks e⟩
  · refine poll_ctrTx h.tidy h.ctrTx ?_
    rintro rfl
    exact (h.leaves.orderly.offers he).ne_idle
  · refine poll_stays hstable h.tidy h.inRange ?_
    cases e with
    | setup p => exact he
    | _ => trivial
  · cases e with
    | setup p =>
        have hsetup := poll_setup_leaves cfg h.tidy he
        rw [h.leaves.address] at hsetup
        exact hsetup
    | out pkt =>
        have hout := poll_out_leaves cfg h pkt
        rw [h.leaves.address] at hout
        exact hout
    | inDone => exact poll_inDone_leaves cfg h he _
    | reset => exact poll_reset_leaves cfg h _
    | flags f => exact poll_flags_leaves cfg h f

theorem run_follows (cfg : Config) {es : List Event} (h : σ.Follows a)
    (hadmits : (machine cfg).Admits Dev.Permits σ es) :
    ((machine cfg).run σ es).Follows (addressing cfg σ a es) := by
  induction es generalizing σ a with
  | nil => exact h
  | cons e es ih => exact ih (poll_follows cfg h hadmits.1) hadmits.2

theorem Dev.Boot.follows (cfg : Config) (h : σ.Boot) :
    σ.Follows ⟨σ.usb.reg usbDaddrReg, none⟩ := by
  obtain ⟨htidy, htracks⟩ := tracks_invariant cfg σ (.init h)
  have hidle := h.usbFsmState
  have hep : σ.usb.ep 0 = EpFields.ofReg 0 := congrArg EpFields.ofReg (h.ep 0 (by decide))
  refine ⟨htidy, htracks, congrArg EpFields.ctrTx hep, ⟨trivial, by simp [hidle], by simp [hidle]⟩,
    .of_ne rfl (by simp [hidle]) ?_⟩
  intro hoffer
  rw [hep] at hoffer
  exact absurd hoffer (by decide)

/-- **The device address.** In every permitted run USB_DADDR changes on a bus
reset, to zero and enabled, and on the IN completion of the status stage of an
accepted SET_ADDRESS, to its wValue and enabled. That status stage is due from
the moment the request is accepted up to the next packet or reset. -/
theorem device_address (cfg : Config) (σ : Dev) (hσ : σ.Boot) (es : List Event)
    (h : (machine cfg).Admits Dev.Permits σ es) :
    ((machine cfg).run σ es).Addressed (addressing cfg σ ⟨σ.usb.reg usbDaddrReg, none⟩ es) :=
  (run_follows cfg (hσ.follows cfg) h).leaves.toAddressed

/-- A fresh device is reset and given address 5. -/
theorem device_address_fresh :
    ((machine .stm32f103).run (Dev.fresh fun _ => 0xff)
      [.reset, .setup ⟨0, 5, 5, 0, 0⟩, .inDone]).Addressed ⟨5 ||| usbDaddrEf, none⟩ := by
  have hsetup : Dev.Permits ((machine .stm32f103).run (Dev.fresh fun _ => 0xff) [.reset])
      (.setup ⟨0, 5, 5, 0, 0⟩) := by
    intro hstandard hrecipient
    exact absurd hrecipient (by decide)
  have hin : Dev.Permits ((machine .stm32f103).run (Dev.fresh fun _ => 0xff)
      [.reset, .setup ⟨0, 5, 5, 0, 0⟩]) .inDone := by
    show EpFields.statTx _ = 3
    decide +kernel
  exact device_address .stm32f103 (Dev.fresh fun _ => 0xff) (Dev.fresh_boot _)
    [.reset, .setup ⟨0, 5, 5, 0, 0⟩, .inDone] ⟨trivial, hsetup, hin, trivial⟩

end LnDso
