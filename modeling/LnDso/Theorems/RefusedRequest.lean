import LnDso.Logic.Alike
import LnDso.Logic.Dispatched
import LnDso.Theorems.InStage

/-!
# A refused request

The handlers stage a reply and give their verdict in separate statements. A refused
request leaves the device as it was, with three exceptions: GET_STATUS to an
interface is refused after its reply is staged, a class request that DFU does not
know after the filter has set `datasize`, and a string that there is not after the
type byte of its descriptor.
-/

namespace LnDso

open Lib

variable {cfg : Config} {σ τ ρ : Dev} {e : Event} {q : UsbSetupData}

/-! ## The requests that leave a trace -/

/-- A standard request to the recipient `r`. -/
structure UsbSetupData.StandardTo (r : Byte) (q : UsbSetupData) : Prop where
  type : q.bmRequestType &&& usbReqTypeType = usbReqTypeStandard
  recipient : q.bmRequestType &&& usbReqTypeRecipient = r

/-- GET_STATUS to an interface. -/
structure UsbSetupData.InterfaceStatus (q : UsbSetupData) : Prop where
  standard : q.StandardTo usbReqTypeInterface
  code : q.bRequest = usbReqGetStatus

/-- A class request to the interface with a code that DFU does not have. -/
structure UsbSetupData.NotDfu (q : UsbSetupData) : Prop where
  filtered : q.ClassInterface
  code : DfuReq.ofByte q.bRequest = none

/-- A string past the last one, or in another language. -/
structure UsbSetupData.NoString (q : UsbSetupData) : Prop where
  standard : q.StandardTo usbReqTypeDevice
  code : q.bRequest = usbReqGetDescriptor
  string : Half.hi q.wValue = usbDtString
  index : Half.lo q.wValue ≠ 0
  missing : 5 < (Half.lo q.wValue).toNat ∨ q.wIndex ≠ usbLangidEnglishUs

/-! ## Staging and the verdict -/

/-- Nothing is staged between the two states. -/
structure Dev.Unstaged (σ τ : Dev) : Prop where
  buffer : τ.usbdControlBuffer = σ.usbdControlBuffer
  datasize : τ.pipe.datasize = σ.pipe.datasize
  state : τ.dfu.usbdfuState = σ.dfu.usbdfuState
  prog : τ.dfu.prog = σ.dfu.prog
  callback : τ.pipe.usbCompleteCb = σ.pipe.usbCompleteCb
  registers : τ.usb.reg = σ.usb.reg

/-- The device with another content of the control buffer. -/
def Dev.holding (buf : Mem) (σ : Dev) : Dev := { σ with usbdControlBuffer := buf }

/-- The request stages a reply: the dispatch writes the start of the control buffer,
whatever it holds. -/
def Dev.Stages (cfg : Config) (ρ : Dev) : Prop :=
  ∃ bytes : List Byte, bytes ≠ [] ∧ ∀ buf : Mem,
    (usbControlRequestDispatch cfg (ρ.holding buf)).2.usbdControlBuffer = buf.write 0 bytes

/-- The dispatch stages nothing if it refuses, and handles what it stages a reply to. -/
structure Dev.PairsVerdict (cfg : Config) (ρ : Dev) : Prop where
  refused : (usbControlRequestDispatch cfg ρ).1 = .notsupp →
    ρ.Unstaged (usbControlRequestDispatch cfg ρ).2
  staged : ρ.Stages cfg → (usbControlRequestDispatch cfg ρ).1 = .handled

/-! ## What a refusal leaves behind -/

/-- The device after its request has been refused. -/
inductive Dev.Refuses (σ : Dev) : Dev → Prop
  | clean : Refuses σ σ
  | status : σ.pipe.usbReq.InterfaceStatus → Refuses σ (σ.reply [0, 0] 2)
  | filter : σ.pipe.usbReq.NotDfu →
      Refuses σ { σ with pipe := { σ.pipe with datasize := σ.pipe.usbReq.wLength } }
  | string : σ.pipe.usbReq.NoString →
      Refuses σ { σ with usbdControlBuffer := σ.usbdControlBuffer.write 1 [usbDtString] }

theorem usbStandardGetDescriptor_refused (hto : σ.pipe.usbReq.StandardTo usbReqTypeDevice)
    (hcode : σ.pipe.usbReq.bRequest = usbReqGetDescriptor)
    (h : usbStandardGetDescriptor cfg σ = (.notsupp, τ)) : σ.Refuses τ := by
  unfold usbStandardGetDescriptor at h
  dsimp only at h
  split at h
  · cases h
  split at h
  · cases h
  split at h
  · next hstring =>
    split at h
    · cases h
    next hindex =>
    split at h
    · next hnone =>
      cases h
      have hpast : (usbStrings cfg).length ≤ (Half.lo σ.pipe.usbReq.wValue).toNat - 1 :=
        List.getElem?_eq_none_iff.mp hnone
      have hlen : (usbStrings cfg).length = 5 := rfl
      exact .string ⟨hto, hcode, hstring, hindex, .inl (by omega)⟩
    · split at h
      · next hlang =>
        cases h
        exact .string ⟨hto, hcode, hstring, hindex, .inr hlang⟩
      · cases h
  · cases h
    exact .clean

theorem usbdStandardRequestDevice_refused (hto : σ.pipe.usbReq.StandardTo usbReqTypeDevice)
    (h : usbdStandardRequestDevice cfg σ = (.notsupp, τ)) : σ.Refuses τ := by
  unfold usbdStandardRequestDevice at h
  dsimp only at h
  split at h
  · split at h
    · cases h
      exact .clean
    · cases h
  split at h
  · split at h
    · cases h
    · cases h
      exact .clean
  split at h
  · cases h
  split at h
  · next hcode => exact usbStandardGetDescriptor_refused hto hcode h
  split at h
  · cases h
  · cases h
    exact .clean

theorem usbdStandardRequestInterface_refused
    (hto : σ.pipe.usbReq.StandardTo usbReqTypeInterface)
    (h : usbdStandardRequestInterface σ = (.notsupp, τ)) : σ.Refuses τ := by
  unfold usbdStandardRequestInterface at h
  dsimp only at h
  split at h
  · cases h
  split at h
  · cases h
  split at h
  · next hcode =>
    cases h
    exact .status ⟨hto, hcode⟩
  · cases h
    exact .clean

theorem usbdStandardRequestEndpoint_refused
    (h : usbdStandardRequestEndpoint σ = (.notsupp, τ)) : σ.Refuses τ := by
  unfold usbdStandardRequestEndpoint at h
  dsimp only at h
  split at h
  · split at h
    · cases h
    · cases h
      exact .clean
  split at h
  · cases h
  · cases h
    exact .clean

theorem usbdStandardRequest_refused (h : usbdStandardRequest cfg σ = (.notsupp, τ)) :
    σ.Refuses τ := by
  unfold usbdStandardRequest at h
  dsimp only at h
  split at h
  · cases h
    exact .clean
  next htype =>
  have hstandard := not_not.mp htype
  split at h
  · next hto => exact usbdStandardRequestDevice_refused ⟨hstandard, hto⟩ h
  split at h
  · next hto => exact usbdStandardRequestInterface_refused ⟨hstandard, hto⟩ h
  split at h
  · exact usbdStandardRequestEndpoint_refused h
  · cases h
    exact .clean

/-- Beside the record of the dispatch, a refusal leaves no more than the trace of its kind. -/
theorem usbControlRequestDispatch_refused (h : usbControlRequestDispatch cfg σ = (.notsupp, τ)) :
    (σ.call (.dispatch σ.pipe.usbReq σ.usbdControlBuffer)).Refuses τ := by
  by_cases hclass : σ.pipe.usbReq.ClassInterface
  · cases hreq : DfuReq.ofByte σ.pipe.usbReq.bRequest with
    | none =>
        rw [usbControlRequestDispatch_unknown hclass hreq] at h
        cases h
        exact .filter ⟨hclass, hreq⟩
    | some r =>
        rw [usbControlRequestDispatch_dfu hclass hreq] at h
        cases h
  · rw [usbControlRequestDispatch_pass hclass] at h
    exact usbdStandardRequest_refused h

/-! ## The exceptions -/

theorem UsbSetupData.StandardTo.not_classInterface {r : Byte} (h : q.StandardTo r) :
    ¬ q.ClassInterface :=
  fun hclass => classInterface_not_standard hclass h.type

/-- GET_STATUS to an interface is refused with its reply staged. -/
theorem usbdStandardRequest_interfaceStatus (h : σ.pipe.usbReq.InterfaceStatus) :
    usbdStandardRequest cfg σ = (.notsupp, σ.reply [0, 0] 2) := by
  rw [usbdStandardRequest, if_neg (not_not.mpr h.standard.type), h.standard.recipient,
    if_neg (by decide), if_pos rfl, usbdStandardRequestInterface, h.code, if_neg (by decide),
    if_neg (by decide), if_pos rfl]

theorem usbControlRequestDispatch_interfaceStatus (h : σ.pipe.usbReq.InterfaceStatus) :
    usbControlRequestDispatch cfg σ =
      (.notsupp, (σ.call (.dispatch σ.pipe.usbReq σ.usbdControlBuffer)).reply [0, 0] 2) := by
  rw [usbControlRequestDispatch_pass h.standard.not_classInterface]
  exact usbdStandardRequest_interfaceStatus h

theorem usbdStandardRequest_getDescriptor (hto : σ.pipe.usbReq.StandardTo usbReqTypeDevice)
    (hcode : σ.pipe.usbReq.bRequest = usbReqGetDescriptor) :
    usbdStandardRequest cfg σ = usbStandardGetDescriptor cfg σ := by
  rw [usbdStandardRequest, if_neg (not_not.mpr hto.type), hto.recipient, if_pos rfl,
    usbdStandardRequestDevice, hcode, if_neg (by decide), if_neg (by decide), if_neg (by decide),
    if_pos rfl]

/-- A string that there is not is refused with its type byte written. -/
theorem usbStandardGetDescriptor_noString (h : σ.pipe.usbReq.NoString) :
    usbStandardGetDescriptor cfg σ =
      (.notsupp, { σ with usbdControlBuffer := σ.usbdControlBuffer.write 1 [usbDtString] }) := by
  rw [usbStandardGetDescriptor, h.string, if_neg (by decide), if_neg (by decide), if_pos rfl,
    if_neg h.index]
  split
  · rfl
  next s hs =>
  obtain ⟨hlt, -⟩ := List.getElem?_eq_some_iff.mp hs
  have hlen : (usbStrings cfg).length = 5 := rfl
  exact if_pos (h.missing.resolve_left (by omega))

theorem usbControlRequestDispatch_noString (h : σ.pipe.usbReq.NoString) :
    usbControlRequestDispatch cfg σ =
      (.notsupp, { σ.call (.dispatch σ.pipe.usbReq σ.usbdControlBuffer) with
        usbdControlBuffer := σ.usbdControlBuffer.write 1 [usbDtString] }) := by
  rw [usbControlRequestDispatch_pass h.standard.not_classInterface]
  exact (usbdStandardRequest_getDescriptor (σ := σ.call _) h.standard h.code).trans
    (usbStandardGetDescriptor_noString (σ := σ.call _) h)

/-! ## The verdict -/

theorem usbStandardGetDescriptor_ne_next (cfg : Config) (σ : Dev) :
    (usbStandardGetDescriptor cfg σ).1 ≠ .nextCallback := by
  unfold usbStandardGetDescriptor
  dsimp only
  repeat' split
  all_goals simp

/-- A standard request is refused or handled. -/
theorem usbdStandardRequest_ne_next (cfg : Config) (σ : Dev) :
    (usbdStandardRequest cfg σ).1 ≠ .nextCallback := by
  have hdevice : (usbdStandardRequestDevice cfg σ).1 ≠ .nextCallback := by
    have hdescriptor := usbStandardGetDescriptor_ne_next cfg σ
    unfold usbdStandardRequestDevice
    dsimp only
    repeat' split
    all_goals simp [hdescriptor]
  have hinterface : (usbdStandardRequestInterface σ).1 ≠ .nextCallback := by
    unfold usbdStandardRequestInterface
    dsimp only
    repeat' split
    all_goals simp
  have hendpoint : (usbdStandardRequestEndpoint σ).1 ≠ .nextCallback := by
    unfold usbdStandardRequestEndpoint
    dsimp only
    repeat' split
    all_goals simp
  unfold usbdStandardRequest
  dsimp only
  repeat' split
  all_goals simp [hdevice, hinterface, hendpoint]

/-- So is every request: the dispatch passes none on. -/
theorem usbControlRequestDispatch_ne_next (cfg : Config) (σ : Dev) :
    (usbControlRequestDispatch cfg σ).1 ≠ .nextCallback := by
  by_cases hclass : σ.pipe.usbReq.ClassInterface
  · cases hreq : DfuReq.ofByte σ.pipe.usbReq.bRequest with
    | none => simp [usbControlRequestDispatch_unknown hclass hreq]
    | some r => simp [usbControlRequestDispatch_dfu hclass hreq]
  · rw [usbControlRequestDispatch_pass hclass]
    exact usbdStandardRequest_ne_next cfg _

/-- The verdict is a matter of the request, not of what the control buffer holds. -/
theorem usbControlRequestDispatch_holding (cfg : Config) (σ : Dev) (buf : Mem) :
    (usbControlRequestDispatch cfg (σ.holding buf)).1 = (usbControlRequestDispatch cfg σ).1 := by
  let τ := σ.holding buf
  have hsame : Dev.Alike False (fun _ _ _ => True) (σ.call (.dispatch σ.pipe.usbReq σ.usbdControlBuffer))
      (τ.call (.dispatch τ.pipe.usbReq τ.usbdControlBuffer)) :=
    ⟨⟨rfl, rfl, fun _ => rfl⟩, rfl, rfl, False.elim, False.elim, trivial⟩
  by_cases hclass : σ.pipe.usbReq.ClassInterface
  · cases hreq : DfuReq.ofByte σ.pipe.usbReq.bRequest with
    | none =>
        rw [usbControlRequestDispatch_unknown hclass hreq,
          usbControlRequestDispatch_unknown (σ := τ) hclass hreq]
    | some r =>
        rw [usbControlRequestDispatch_dfu hclass hreq,
          usbControlRequestDispatch_dfu (σ := τ) hclass hreq]
  · rw [usbControlRequestDispatch_pass hclass, usbControlRequestDispatch_pass (σ := τ) hclass]
    exact (usbdStandardRequest_alike hsame).1

/-- Only GET_STATUS to an interface is refused with the first byte of the buffer written. -/
theorem Dev.Refuses.first (h : σ.Refuses τ) (hstatus : ¬ σ.pipe.usbReq.InterfaceStatus) :
    τ.usbdControlBuffer 0 = σ.usbdControlBuffer 0 := by
  cases h with
  | clean => rfl
  | status hs => exact absurd hs hstatus
  | filter _ => rfl
  | string _ => exact Mem.write_below σ.usbdControlBuffer 1 [usbDtString] Nat.one_pos

/-- What stages a reply is handled, but for GET_STATUS to an interface. -/
theorem Dev.Stages.handled (h : ρ.Stages cfg) (hstatus : ¬ ρ.pipe.usbReq.InterfaceStatus) :
    (usbControlRequestDispatch cfg ρ).1 = .handled := by
  obtain ⟨bytes, hne, hstages⟩ := h
  obtain ⟨b, l, rfl⟩ := List.exists_cons_of_ne_nil hne
  cases hcode : (usbControlRequestDispatch cfg ρ).1 with
  | handled => rfl
  | nextCallback => exact absurd hcode (usbControlRequestDispatch_ne_next cfg ρ)
  | notsupp =>
      -- the dispatch from a buffer whose first byte is not the one staged
      let buf : Mem := fun _ => b + 1
      have hrefused : usbControlRequestDispatch cfg (ρ.holding buf) =
          (.notsupp, (usbControlRequestDispatch cfg (ρ.holding buf)).2) :=
        Prod.ext ((usbControlRequestDispatch_holding cfg ρ buf).trans hcode) rfl
      have hfirst : buf.write 0 (b :: l) 0 = b + 1 :=
        hstages buf ▸ (usbControlRequestDispatch_refused hrefused).first hstatus
      have hwritten : buf.write 0 (b :: l) 0 = b := rfl
      rw [hwritten] at hfirst
      bv_omega

/-! ## One dispatch -/

/-- What the request and the state before the dispatch have to be for a refusal to
leave the device as it was. -/
structure UsbSetupData.LeavesNoTrace (q : UsbSetupData) (datasize : Half) (buf : Mem) : Prop where
  status : ¬ q.InterfaceStatus
  filter : q.NotDfu → datasize = q.wLength
  string : q.NoString → buf 1 = usbDtString

theorem Dev.Refuses.unstaged (h : σ.Refuses τ)
    (hspares : σ.pipe.usbReq.LeavesNoTrace σ.pipe.datasize σ.usbdControlBuffer) : σ.Unstaged τ := by
  cases h with
  | clean => exact ⟨rfl, rfl, rfl, rfl, rfl, rfl⟩
  | status hs => exact absurd hs hspares.status
  | filter hf => exact ⟨rfl, (hspares.filter hf).symm, rfl, rfl, rfl, rfl⟩
  | string hs =>
      have hread : σ.usbdControlBuffer.read 1 1 = [usbDtString] :=
        congrArg (fun b => [b]) (hspares.string hs)
      refine ⟨?_, rfl, rfl, rfl, rfl, rfl⟩
      dsimp only
      rw [← hread, Mem.write_read]

/-- A dispatch pairs staging and verdict just if its request leaves no trace. -/
theorem pairsVerdict_iff (cfg : Config) (ρ : Dev) : ρ.PairsVerdict cfg ↔
    ρ.pipe.usbReq.LeavesNoTrace ρ.pipe.datasize ρ.usbdControlBuffer := by
  constructor
  · intro h
    refine ⟨fun hs => ?_, fun hf => ?_, fun hs => ?_⟩
    · have hdispatch : ∀ buf : Mem, usbControlRequestDispatch cfg (ρ.holding buf) = _ :=
        fun buf => usbControlRequestDispatch_interfaceStatus (σ := ρ.holding buf) hs
      have hstages : ρ.Stages cfg := ⟨[0, 0], List.cons_ne_nil _ _, fun buf => by
        rw [hdispatch]
        rfl⟩
      have hhandled := h.staged hstages
      rw [usbControlRequestDispatch_interfaceStatus hs] at hhandled
      cases hhandled
    · have hunstaged := h.refused
      rw [usbControlRequestDispatch_unknown hf.filtered hf.code] at hunstaged
      exact (hunstaged rfl).datasize.symm
    · have hunstaged := h.refused
      rw [usbControlRequestDispatch_noString hs] at hunstaged
      have hbuffer := congrFun (hunstaged rfl).buffer 1
      exact hbuffer.symm
  · intro h
    refine ⟨fun hcode => ?_, fun hstages => hstages.handled h.status⟩
    have hrefused : usbControlRequestDispatch cfg ρ =
        (.notsupp, (usbControlRequestDispatch cfg ρ).2) := Prod.ext hcode rfl
    have hunstaged := (usbControlRequestDispatch_refused hrefused).unstaged h
    exact ⟨hunstaged.buffer, hunstaged.datasize, hunstaged.state, hunstaged.prog,
      hunstaged.callback, hunstaged.registers⟩

/-! ## The dispatch of a poll -/

/-- The state in which the poll after `e` calls the dispatch. -/
def Dev.atDispatch (σ : Dev) : Event → Dev
  | .setup p => σ.asked p
  | .out pkt => (usbControlRecvChunk (σ.onBus (.out pkt)).touch0).2
  | _ => σ

/-- `datasize` as the dispatch finds it: the size of the data stage, or what the
last transfer left behind. -/
def Dev.sized (σ : Dev) : Event → Half
  | .out _ => σ.pipe.usbReq.wLength
  | _ => σ.pipe.datasize

theorem Dev.Receiving.atDispatch {p : UsbSetupData} {n : Nat} (h : σ.Receiving p n)
    {pkt : Packet} (hfsm : σ.pipe.usbFsmState = .lastDataOut)
    (hfull : p.wLength.toNat - n ≤ pkt.bytes.length) :
    0 ≤ (usbControlRecvChunk (σ.onBus (.out pkt)).touch0).1 ∧
      ∃ v, σ.atDispatch (.out pkt) = σ.received v
        (σ.usbdControlBuffer.write n (pkt.bytes.take (p.wLength.toNat - n))) := by
  have hlast := h.le_of_last hfsm
  have hmin := Nat.min_eq_right hlast
  have hall : n + (p.wLength.toNat - n) = p.wLength.toNat := Nat.add_sub_cancel' (Nat.le_of_lt h.lt)
  obtain ⟨hpacket, hep, -⟩ := poll_out_exact Config.stm32f103 h.noReset pkt
  have hstat : ((σ.onBus (.out pkt)).touch0.usb.ep 0).statRx = 2 := congrArg EpFields.statRx hep
  obtain ⟨v, hv⟩ := h.recv hstat (by rw [hpacket, hmin]; exact hfull)
  have hv' : usbControlRecvChunk (σ.onBus (.out pkt)).touch0 = _ := hv
  rw [hmin, hpacket, hall, BitVec.ofNat_toNat, BitVec.setWidth_eq] at hv'
  refine ⟨?_, v, ?_⟩
  · rw [hv']
    exact Int.natCast_nonneg _
  · rw [Dev.atDispatch, hv', Dev.received, h.usbReq]

/-- What the dispatch finds. -/
theorem Dev.Dispatches.found (htidy : σ.Tidy) {t : Transfer} (htracks : σ.Tracks t)
    (h : σ.Dispatches e q) : (σ.atDispatch e).pipe.usbReq = q ∧
      (σ.atDispatch e).pipe.datasize = σ.sized e ∧
      (σ.atDispatch e).usbdControlBuffer = σ.stored e := by
  cases e with
  | setup p =>
      obtain ⟨rfl, -⟩ := h
      obtain ⟨-, -, hreq, hsize, hbuffer⟩ := asked_fields htidy.noReset q
      exact ⟨hreq, hsize, hbuffer⟩
  | out pkt =>
      obtain ⟨rfl, hfsm, hfull⟩ := h
      have hopen : σ.Open t := htracks.resolve_left fun hno => hno.last hfsm
      have hreq := hopen.receiving.usbReq
      have hsize := hopen.receiving.datasize
      rw [hreq, hsize] at hfull
      obtain ⟨-, v, hat⟩ := hopen.receiving.atDispatch hfsm hfull
      rw [hat, Dev.stored, hreq, hsize]
      exact ⟨hreq.symm ▸ rfl, rfl, rfl⟩
  | _ => exact absurd h not_false

/-- A poll whose dispatch refuses ends in a stall of what the dispatch left. -/
theorem Dev.Dispatches.poll_refused (htidy : σ.Tidy) {t : Transfer} (htracks : σ.Tracks t)
    (h : σ.Dispatches e q) (hrefused : usbControlRequestDispatch cfg (σ.atDispatch e) = (.notsupp, τ)) :
    ∃ istr, poll cfg σ e = (stallTransaction τ).tail istr := by
  cases e with
  | setup p =>
      obtain ⟨rfl, hdir⟩ := h
      obtain ⟨u, istr, -, -, hread, hpoll⟩ := poll_setup cfg htidy.noReset q
      rw [Dev.atDispatch, Dev.asked, hread] at hrefused
      rw [setupStage_refused hdir hrefused] at hpoll
      exact ⟨istr, hpoll⟩
  | out pkt =>
      obtain ⟨rfl, hfsm, hfull⟩ := h
      have hopen : σ.Open t := htracks.resolve_left fun hno => hno.last hfsm
      rw [hopen.receiving.usbReq, hopen.receiving.datasize] at hfull
      obtain ⟨hrecv, -⟩ := hopen.receiving.atDispatch hfsm hfull
      rw [Dev.atDispatch] at hrefused
      obtain ⟨-, -, hpoll⟩ := poll_out_exact cfg htidy.noReset pkt
      have hstall : usbdControlOut cfg (σ.onBus (.out pkt)).touch0 = stallTransaction τ := by
        rw [usbdControlOut_last (σ := (σ.onBus (.out pkt)).touch0) hfsm hrecv, hrefused]
        rfl
      rw [hstall] at hpoll
      exact ⟨_, hpoll⟩
  | _ => exact absurd h not_false

/-! ## Every run -/

/-- The dispatch of the poll, if there is one, pairs staging and verdict; what it
refuses is stalled. -/
structure Dev.PollPairs (cfg : Config) (σ : Dev) (e : Event) : Prop where
  pairs : ∀ q, σ.Dispatches e q → (σ.atDispatch e).PairsVerdict cfg
  stalls : ∀ q τ, σ.Dispatches e q →
    usbControlRequestDispatch cfg (σ.atDispatch e) = (.notsupp, τ) →
      ∃ istr, poll cfg σ e = (stallTransaction τ).tail istr

/-- The request of the poll, if one is dispatched, leaves no trace when it is refused. -/
def Dev.PollSpares (σ : Dev) (e : Event) : Prop :=
  ∀ q, σ.Dispatches e q → q.LeavesNoTrace (σ.sized e) (σ.stored e)

theorem pollPairs_iff (hσ : (machine cfg).Reachable σ) (e : Event) :
    σ.PollPairs cfg e ↔ σ.PollSpares e := by
  obtain ⟨htidy, t, htracks⟩ := tracks_invariant cfg σ hσ
  have hpairs : ∀ q, σ.Dispatches e q → ((σ.atDispatch e).PairsVerdict cfg ↔
      q.LeavesNoTrace (σ.sized e) (σ.stored e)) := by
    intro q hq
    obtain ⟨hreq, hsize, hbuffer⟩ := hq.found htidy htracks
    rw [pairsVerdict_iff, hreq, hsize, hbuffer]
  constructor
  · intro h q hq
    exact (hpairs q hq).mp (h.pairs q hq)
  · intro h
    refine ⟨fun q hq => (hpairs q hq).mpr (h q hq), fun q τ hq hrefused => ?_⟩
    exact hq.poll_refused htidy htracks hrefused

/-- **Staging and the verdict.** In a run every refused dispatch stages nothing, and
every dispatch that stages a reply handles its request, just if no request of the run is
a GET_STATUS to an interface, class requests that DFU does not know find `datasize` at
their wLength, and strings that there are not find the type byte in place. -/
theorem refusals_stage_nothing (hσ : (machine cfg).Reachable σ) (es : List Event) :
    (machine cfg).Admits (Dev.PollPairs cfg) σ es ↔ (machine cfg).Admits Dev.PollSpares σ es :=
  hσ.admits_congr (fun _ hτ e => pollPairs_iff hτ e) es

/-- A bus reset, then a SET_ADDRESS that is out of range. -/
theorem refusals_stage_nothing_setAddress :
    (machine .stm32f103).Admits (Dev.PollPairs .stm32f103) (Dev.fresh fun _ => 0xff)
      [.reset, .setup ⟨0, 5, 200, 0, 0⟩] := by
  refine (refusals_stage_nothing (.init (Dev.fresh_boot _)) _).mpr ⟨?_, ?_, trivial⟩
  · intro q hq
    exact absurd hq not_false
  · rintro q ⟨rfl, -⟩
    refine ⟨?_, ?_, ?_⟩
    · rintro ⟨⟨-, hto⟩, -⟩
      exact absurd hto (by decide)
    · rintro ⟨hclass, -⟩
      exact absurd hclass (by decide)
    · rintro ⟨-, hcode, -⟩
      exact absurd hcode (by decide)

/-- GET_STATUS to an interface is refused, with a reply of two bytes staged. -/
theorem interfaceStatus_staged :
    let p : UsbSetupData := ⟨0x81, 0, 0, 0, 2⟩
    let ρ := (Dev.fresh fun _ => 0xff).atDispatch (.setup p)
    let out := usbControlRequestDispatch .stm32f103 ρ
    out.1 = .notsupp ∧ ρ.pipe.datasize = 0 ∧ out.2.pipe.datasize = 2 ∧
      ¬ (machine .stm32f103).Admits (Dev.PollPairs .stm32f103) (Dev.fresh fun _ => 0xff)
        [.setup p] := by
  intro p ρ out
  have hcode : out.1 = .notsupp := by decide +kernel
  have hbefore : ρ.pipe.datasize = 0 := by decide +kernel
  have hafter : out.2.pipe.datasize = 2 := by decide +kernel
  refine ⟨hcode, hbefore, hafter, ?_⟩
  rintro ⟨h, -⟩
  have hunstaged := (h.pairs p ⟨rfl, by decide⟩).refused hcode
  have hsame : out.2.pipe.datasize = ρ.pipe.datasize := hunstaged.datasize
  rw [hbefore, hafter] at hsame
  exact absurd hsame (by decide)

end LnDso
