import LnDso.Logic.Steps
import LnDso.Theorems.InStage

/-!
# Replies and the control buffer

An IN stage sends from the control buffer as many bytes as `datasize` says. A
request that stages a reply sets it; one that is handled without a reply leaves
what it finds, wLength or the size of an earlier transfer. `ReplyFits` says
when that is at most the buffer, and then no chunk reaches past it.
-/

namespace LnDso

open Lib UsbPeriph

variable {cfg : Config} {p : UsbSetupData} {σ : Dev}

/-! ## The length a request stages -/

/-- DFU requests that stage a reply of their own. -/
def DfuReq.Replies : DfuReq → Prop
  | .upload | .getstatus | .getstate => True
  | _ => False

/-- A DFU request that is handled without a reply: `*len` stays wLength. -/
def UsbSetupData.EchoesLen (p : UsbSetupData) : Prop :=
  p.ClassInterface ∧ ∃ r, DfuReq.ofByte p.bRequest = some r ∧ ¬ r.Replies

/-- A standard request that is handled without a reply: `*len` stays as it was. -/
def UsbSetupData.KeepsLen (p : UsbSetupData) : Prop :=
  p.bmRequestType &&& usbReqTypeType = usbReqTypeStandard ∧
    ((p.bmRequestType &&& usbReqTypeRecipient = usbReqTypeDevice ∧
        p.bRequest = usbReqSetConfiguration ∧ p.wValue = bConfigurationValue.setWidth 16) ∨
      (p.bmRequestType &&& usbReqTypeRecipient = usbReqTypeEndpoint ∧
        (p.bRequest = usbReqClearFeature ∨ p.bRequest = usbReqSetFeature) ∧
        p.wValue = usbFeatEndpointHalt))

/-- The reply to `p`, if it has a data stage, fits the control buffer. -/
def Dev.ReplyFits (σ : Dev) (p : UsbSetupData) : Prop :=
  p.DirIn → p.wLength ≠ 0 →
    (p.EchoesLen → p.wLength.toNat ≤ controlBufferSize) ∧
    (p.KeepsLen → min σ.pipe.datasize.toNat p.wLength.toNat ≤ controlBufferSize)

theorem dfuUpload_datasize (cfg : Config) (σ : Dev) :
    (dfuUpload cfg σ).pipe.datasize.toNat ≤ controlBufferSize := by
  unfold dfuUpload dfuUploadBlock
  dsimp only
  generalize uploadLoads _ dfuTransferSize 0 _ = fl
  split
  · exact show 3 ≤ controlBufferSize by decide
  split
  · split
    · exact Nat.le_refl controlBufferSize
    · exact Nat.zero_le _
  · exact Nat.zero_le _

/-- A DFU request is handled; it stages a short reply or leaves length and buffer. -/
theorem usbdfuControlRequest_datasize (cfg : Config) {r : DfuReq}
    (h : DfuReq.ofByte σ.pipe.usbReq.bRequest = some r) :
    (usbdfuControlRequest cfg σ).1 = .handled ∧
      (r.Replies → (usbdfuControlRequest cfg σ).2.pipe.datasize.toNat ≤ controlBufferSize) ∧
      (¬ r.Replies → (usbdfuControlRequest cfg σ).2.pipe.datasize = σ.pipe.datasize ∧
        (usbdfuControlRequest cfg σ).2.usbdControlBuffer = σ.usbdControlBuffer) := by
  unfold usbdfuControlRequest
  rw [h]
  cases r with
  | dnload =>
      refine ⟨rfl, fun hr => absurd hr not_false, fun _ => ?_⟩
      dsimp only
      unfold dfuDnload
      split <;> exact ⟨rfl, rfl⟩
  | clrstatus =>
      refine ⟨rfl, fun hr => absurd hr not_false, fun _ => ?_⟩
      dsimp only
      split <;> exact ⟨rfl, rfl⟩
  | abort => exact ⟨rfl, fun hr => absurd hr not_false, fun _ => ⟨rfl, rfl⟩⟩
  | detach => exact ⟨rfl, fun hr => absurd hr not_false, fun _ => ⟨rfl, rfl⟩⟩
  | upload => exact ⟨rfl, fun _ => dfuUpload_datasize cfg σ, fun hr => absurd trivial hr⟩
  | getstatus =>
      exact ⟨rfl, fun _ => show 6 ≤ controlBufferSize by decide, fun hr => absurd trivial hr⟩
  | getstate =>
      exact ⟨rfl, fun _ => show 1 ≤ controlBufferSize by decide, fun hr => absurd trivial hr⟩

theorem usbStandardGetDescriptor_datasize (cfg : Config) (σ : Dev) :
    (usbStandardGetDescriptor cfg σ).1 ≠ .notsupp →
      (usbStandardGetDescriptor cfg σ).2.pipe.datasize.toNat ≤ controlBufferSize := by
  have hstring : ∀ (wData : List Half) (τ : Dev),
      (replyString wData τ).pipe.datasize.toNat ≤ controlBufferSize := by
    intro wData τ
    have hbyte := (BitVec.ofNat 8 (wData.length * 2 + 2)).isLt
    show ((BitVec.ofNat 8 (wData.length * 2 + 2)).setWidth 16).toNat ≤ 1024
    rw [BitVec.toNat_setWidth]
    omega
  unfold usbStandardGetDescriptor
  dsimp only
  split
  · exact fun _ => show 18 ≤ controlBufferSize by decide
  split
  · exact fun _ => show 27 ≤ controlBufferSize by decide
  split
  · split
    · exact fun _ => hstring _ _
    · split
      · exact fun h => absurd rfl h
      · split
        · exact fun h => absurd rfl h
        · exact fun _ => hstring _ _
  · exact fun h => absurd rfl h

/-- A standard request that is handled without a reply leaves length and buffer. -/
theorem usbdStandardRequest_keeps (cfg : Config) (h : σ.pipe.usbReq.KeepsLen) :
    (usbdStandardRequest cfg σ).1 = .handled ∧
      (usbdStandardRequest cfg σ).2.pipe.datasize = σ.pipe.datasize ∧
      (usbdStandardRequest cfg σ).2.usbdControlBuffer = σ.usbdControlBuffer := by
  obtain ⟨htype, ⟨hrec, hreq, hvalue⟩ | ⟨hrec, hreq, hvalue⟩⟩ := h
  · have hset : ¬ σ.pipe.usbReq.bRequest = usbReqSetAddress := by
      rw [hreq]
      decide
    rw [usbdStandardRequest, if_neg (not_not.mpr htype), if_pos hrec, usbdStandardRequestDevice]
    dsimp only
    rw [if_neg hset, if_pos hreq, if_pos hvalue]
    exact ⟨rfl, rfl, rfl⟩
  · have hdevice : ¬ σ.pipe.usbReq.bmRequestType &&& usbReqTypeRecipient = usbReqTypeDevice := by
      rw [hrec]
      decide
    have hinterface :
        ¬ σ.pipe.usbReq.bmRequestType &&& usbReqTypeRecipient = usbReqTypeInterface := by
      rw [hrec]
      decide
    rw [usbdStandardRequest, if_neg (not_not.mpr htype), if_neg hdevice, if_neg hinterface,
      if_pos hrec, usbdStandardRequestEndpoint]
    dsimp only
    rw [if_pos hreq, if_pos hvalue]
    exact ⟨rfl, rfl, rfl⟩

theorem usbdStandardRequestDevice_datasize (hdir : σ.pipe.usbReq.DirIn)
    (hkeeps : ¬ (σ.pipe.usbReq.bRequest = usbReqSetConfiguration ∧
      σ.pipe.usbReq.wValue = bConfigurationValue.setWidth 16)) :
    (usbdStandardRequestDevice cfg σ).1 ≠ .notsupp →
      (usbdStandardRequestDevice cfg σ).2.pipe.datasize.toNat ≤ controlBufferSize := by
  unfold usbdStandardRequestDevice
  dsimp only
  split
  · split
    · exact fun h => absurd rfl h
    · next hset =>
      -- SET_ADDRESS is refused unless bmRequestType is 0, without the direction bit.
      have hzero : σ.pipe.usbReq.bmRequestType = 0 := not_not.mp (not_or.mp hset).1
      exact absurd (by rw [hzero]; decide) hdir
  split
  · next hconfig =>
    split
    · next hvalue => exact absurd ⟨hconfig, hvalue⟩ hkeeps
    · exact fun h => absurd rfl h
  split
  · exact fun _ => show 1 ≤ controlBufferSize by decide
  split
  · exact usbStandardGetDescriptor_datasize cfg σ
  split
  · exact fun _ => show 2 ≤ controlBufferSize by decide
  · exact fun h => absurd rfl h

theorem usbdStandardRequestInterface_datasize (σ : Dev) :
    (usbdStandardRequestInterface σ).1 ≠ .notsupp →
      (usbdStandardRequestInterface σ).2.pipe.datasize.toNat ≤ controlBufferSize := by
  unfold usbdStandardRequestInterface
  dsimp only
  split
  · exact fun _ => show 1 ≤ controlBufferSize by decide
  split
  · exact fun _ => Nat.zero_le _
  split
  · exact fun h => absurd rfl h
  · exact fun h => absurd rfl h

theorem usbdStandardRequestEndpoint_datasize
    (hkeeps : ¬ ((σ.pipe.usbReq.bRequest = usbReqClearFeature ∨
      σ.pipe.usbReq.bRequest = usbReqSetFeature) ∧ σ.pipe.usbReq.wValue = usbFeatEndpointHalt)) :
    (usbdStandardRequestEndpoint σ).1 ≠ .notsupp →
      (usbdStandardRequestEndpoint σ).2.pipe.datasize.toNat ≤ controlBufferSize := by
  unfold usbdStandardRequestEndpoint
  dsimp only
  split
  · next hfeature =>
    split
    · next hhalt => exact absurd ⟨hfeature, hhalt⟩ hkeeps
    · exact fun h => absurd rfl h
  split
  · exact fun _ => show 2 ≤ controlBufferSize by decide
  · exact fun h => absurd rfl h

/-- Any other standard read request that is handled stages a short reply. -/
theorem usbdStandardRequest_datasize (hdir : σ.pipe.usbReq.DirIn)
    (hkeeps : ¬ σ.pipe.usbReq.KeepsLen) :
    (usbdStandardRequest cfg σ).1 ≠ .notsupp →
      (usbdStandardRequest cfg σ).2.pipe.datasize.toNat ≤ controlBufferSize := by
  unfold usbdStandardRequest
  dsimp only
  split
  · exact fun h => absurd rfl h
  next htype =>
  have hstd := not_not.mp htype
  split
  · next hdevice =>
    exact usbdStandardRequestDevice_datasize hdir
      fun hget => hkeeps ⟨hstd, .inl ⟨hdevice, hget.1, hget.2⟩⟩
  split
  · exact usbdStandardRequestInterface_datasize σ
  split
  · next hendpoint =>
    exact usbdStandardRequestEndpoint_datasize
      fun hset => hkeeps ⟨hstd, .inr ⟨hendpoint, hset.1, hset.2⟩⟩
  · exact fun h => absurd rfl h

/-- The length a handled read request leaves, and when it fits the buffer. -/
theorem dispatch_datasize (cfg : Config) (hdir : σ.pipe.usbReq.DirIn)
    (hr : (usbControlRequestDispatch cfg σ).1 ≠ .notsupp) :
    min (usbControlRequestDispatch cfg σ).2.pipe.datasize.toNat σ.pipe.usbReq.wLength.toNat ≤
        controlBufferSize ↔
      (σ.pipe.usbReq.EchoesLen → σ.pipe.usbReq.wLength.toNat ≤ controlBufferSize) ∧
      (σ.pipe.usbReq.KeepsLen →
        min σ.pipe.datasize.toNat σ.pipe.usbReq.wLength.toNat ≤ controlBufferSize) := by
  have hshort : ∀ {n w : Nat}, n ≤ controlBufferSize → min n w ≤ controlBufferSize :=
    fun h => (Nat.min_le_left _ _).trans h
  by_cases hclass : σ.pipe.usbReq.ClassInterface
  · have hkeeps : ¬ σ.pipe.usbReq.KeepsLen := fun h => classInterface_not_standard hclass h.1
    cases hreq : DfuReq.ofByte σ.pipe.usbReq.bRequest with
    | none =>
        rw [usbControlRequestDispatch_unknown hclass hreq] at hr
        exact absurd rfl hr
    | some r =>
        obtain ⟨-, hshortReply, hecho⟩ := usbdfuControlRequest_datasize cfg (σ := σ.toHandler) hreq
        rw [usbControlRequestDispatch_class hclass hreq]
        by_cases hreplies : r.Replies
        · have hnot : ¬ σ.pipe.usbReq.EchoesLen := by
            rintro ⟨-, r', hr', hno⟩
            obtain rfl := Option.some.inj (hreq.symm.trans hr')
            exact hno hreplies
          exact ⟨fun _ => ⟨fun h => absurd h hnot, fun h => absurd h hkeeps⟩,
            fun _ => hshort (hshortReply hreplies)⟩
        · rw [(hecho hreplies).1, show σ.toHandler.pipe.datasize = σ.pipe.usbReq.wLength from rfl,
            Nat.min_self]
          exact ⟨fun hle => ⟨fun _ => hle, fun h => absurd h hkeeps⟩,
            fun h => h.1 ⟨hclass, r, hreq, hreplies⟩⟩
  · have hecho : ¬ σ.pipe.usbReq.EchoesLen := fun h => hclass h.1
    let τ := σ.call (.dispatch σ.pipe.usbReq σ.usbdControlBuffer)
    rw [usbControlRequestDispatch_pass hclass] at hr ⊢
    by_cases hkeeps : σ.pipe.usbReq.KeepsLen
    · rw [(usbdStandardRequest_keeps _ (σ := τ) hkeeps).2.1]
      exact ⟨fun hle => ⟨fun h => absurd h hecho, fun _ => hle⟩, fun h => h.2 hkeeps⟩
    · exact ⟨fun _ => ⟨fun h => absurd h hecho, fun h => absurd h hkeeps⟩,
        fun _ => hshort (usbdStandardRequest_datasize (σ := τ) hdir hkeeps hr)⟩

/-! ## Chunks inside the buffer -/

/-- A chunk handed to the endpoint lies inside the control buffer. -/
def Call.Fits : Call → Prop
  | .send off len => off + len ≤ controlBufferSize
  | _ => True

instance : DecidablePred Call.Fits := fun c =>
  match c with
  | .send off len => inferInstanceAs (Decidable (off + len ≤ controlBufferSize))
  | .setup _ | .dispatch .. | .dnload _ | .upload _ | .getstatus | .complete _ | .dnbusy _ | .stall =>
      isTrue trivial

theorem Call.ByHandler.fits {c : Call} (h : c.ByHandler) : c.Fits := by
  cases c <;> first | exact trivial | exact absurd h not_false

/-- An IN stage in progress ends inside the control buffer. -/
def Dev.InBounds (σ : Dev) : Prop :=
  σ.pipe.usbFsmState = .dataIn → σ.pipe.dataoff.toNat + σ.pipe.datasize.toNat ≤ controlBufferSize

theorem Dev.InBounds.of_ne (h : σ.pipe.usbFsmState ≠ .dataIn) : σ.InBounds :=
  fun hin => absurd hin h

/-- Chunks that fit, into a state whose IN stage fits. -/
structure Dev.Fitting (σ τ : Dev) : Prop where
  records : σ.Records Call.Fits τ
  inBounds : τ.InBounds

theorem Dev.Fitting.head {τ υ : Dev} (h : σ.Records Call.Fits τ) (h' : τ.Fitting υ) : σ.Fitting υ :=
  ⟨h.trans h'.records, h'.inBounds⟩

theorem stallTransaction_fitting (σ : Dev) : σ.Fitting (stallTransaction σ) :=
  ⟨.one rfl trivial, .of_ne (show UsbFsmState.idle ≠ .dataIn by simp)⟩

/-- A chunk keeps the end of the transfer where it is. -/
theorem usbControlSendChunk_fitting
    (h : σ.pipe.dataoff.toNat + σ.pipe.datasize.toNat ≤ controlBufferSize) :
    σ.Fitting (usbControlSendChunk σ) := by
  have hsmall : controlBufferSize < 2 ^ 16 := by decide
  by_cases hlt : 64 < σ.pipe.datasize.toNat
  · obtain ⟨hadd, hsub⟩ := chunk_progress hlt (Nat.lt_of_le_of_lt h hsmall)
    rw [usbControlSendChunk_more hlt]
    refine ⟨.one rfl ?_, fun _ => ?_⟩
    · show σ.pipe.dataoff.toNat + 64 ≤ controlBufferSize
      omega
    · show (σ.pipe.dataoff + 64).toNat + (σ.pipe.datasize - 64).toNat ≤ controlBufferSize
      omega
  · rw [usbControlSendChunk_last (Nat.not_lt.mp hlt)]
    exact ⟨.one rfl h, fun _ => (Nat.le_add_right _ _).trans h⟩

theorem completeTransfer_records (cfg : Config) (stage : UsbFsmState) (σ : Dev) :
    σ.Records Call.Fits (completeTransfer cfg stage σ) := by
  unfold completeTransfer
  split
  · next cb _ =>
    cases cb
    refine .trans (τ := σ.call (.complete stage)) (.one rfl trivial) ?_
    have hcalls := usbdfuGetstatusComplete_calls cfg (σ.call (.complete stage))
    split at hcalls
    · exact .one hcalls trivial
    · exact .of_eq hcalls
  · exact .of_eq rfl

theorem usbControlRecvChunk_records (σ : Dev) :
    σ.Records Call.Fits (usbControlRecvChunk σ).2 ∧
      ((usbControlRecvChunk σ).2.pipe.usbFsmState = .idle ∨
        (usbControlRecvChunk σ).2.pipe.usbFsmState = σ.pipe.usbFsmState) := by
  unfold usbControlRecvChunk
  dsimp only
  split
  · exact ⟨.one rfl trivial, .inl rfl⟩
  · exact ⟨.of_eq rfl, .inr rfl⟩

theorem usbControlRequestDispatch_records (cfg : Config) (σ : Dev) :
    σ.Records Call.Fits (usbControlRequestDispatch cfg σ).2 :=
  .trans (τ := σ.call (.dispatch σ.pipe.usbReq σ.usbdControlBuffer)) (.one rfl trivial)
    ((usbControlRequestDispatch_handles cfg σ).calls.mono fun _ => Call.ByHandler.fits)

/-- An OUT packet sends nothing and starts no IN stage. -/
theorem usbdControlOut_fitting (σ : Dev) : σ.Fitting (usbdControlOut cfg σ) := by
  obtain ⟨hrecv, hfsm⟩ := usbControlRecvChunk_records σ
  unfold usbdControlOut
  dsimp only
  split
  · next hout =>
    have hne : (usbControlRecvChunk σ).2.pipe.usbFsmState ≠ .dataIn := by
      rw [hout] at hfsm
      rcases hfsm with h | h <;> rw [h] <;> simp
    split
    · exact ⟨hrecv, .of_ne hne⟩
    split
    · exact ⟨hrecv, .of_ne (by simp)⟩
    · exact ⟨hrecv, .of_ne hne⟩
  · next hout =>
    split
    · refine ⟨hrecv, .of_ne ?_⟩
      rw [hout] at hfsm
      rcases hfsm with h | h <;> rw [h] <;> simp
    · have hd := usbControlRequestDispatch_records cfg (usbControlRecvChunk σ).2
      split
      · next τ heq =>
        rw [heq] at hd
        exact .head (hrecv.trans hd) (stallTransaction_fitting τ)
      · next τ _ heq =>
        rw [heq] at hd
        exact ⟨hrecv.trans hd, .of_ne (by simp)⟩
  · refine ⟨completeTransfer_records cfg .statusOut _, .of_ne ?_⟩
    show (completeTransfer cfg .statusOut _).pipe.usbFsmState ≠ .dataIn
    rw [(completeTransfer_sameUsb _ _ _).2.1]
    simp
  · exact stallTransaction_fitting σ

theorem usbdControlIn_fitting (h : σ.InBounds) : σ.Fitting (usbdControlIn cfg σ) := by
  unfold usbdControlIn
  dsimp only
  split
  · next hin => exact usbControlSendChunk_fitting (h hin)
  · exact ⟨.of_eq rfl, .of_ne (show UsbFsmState.statusOut ≠ .dataIn by simp)⟩
  · refine ⟨?_, .of_ne (by simp)⟩
    have hrec := completeTransfer_records cfg .statusIn σ
    split <;> exact hrec
  · exact stallTransaction_fitting σ

/-- A SETUP whose reply fits. -/
theorem setupStage_fitting {u : UsbPeriph} (hfit : σ.ReplyFits p) :
    (σ.began p u).Fitting ((σ.began p u).setupStage cfg p) := by
  unfold Dev.setupStage
  split
  · next hread =>
    let τ : Dev := { σ.began p u with pipe := { (σ.began p u).pipe with dataoff := 0 } }
    have hd : (σ.began p u).Records Call.Fits (usbControlRequestDispatch cfg τ).2 :=
      usbControlRequestDispatch_records cfg τ
    have hoff : (usbControlRequestDispatch cfg τ).2.pipe.dataoff = 0 :=
      (usbControlRequestDispatch_handles cfg τ).dataoff
    rw [usbControlSetupRead_eq]
    change Dev.Fitting _ (if (usbControlRequestDispatch cfg τ).1 = .notsupp then _ else
      (usbControlRequestDispatch cfg τ).2.answer p.wLength)
    split
    · exact .head hd (stallTransaction_fitting _)
    · next hr =>
      unfold Dev.answer
      dsimp only
      split
      · next hw =>
        have hdir : p.DirIn := hread.resolve_left hw
        have hle := (dispatch_datasize cfg (σ := τ) hdir hr).mpr (hfit hdir hw)
        refine .head (by exact hd) (usbControlSendChunk_fitting ?_)
        show (usbControlRequestDispatch cfg τ).2.pipe.dataoff.toNat + (truncate _ _).toNat ≤ _
        rw [hoff, truncate_toNat]
        exact (Nat.zero_add _).le.trans hle
      · exact ⟨hd, .of_ne (by simp)⟩
  · unfold usbControlSetupWrite
    dsimp only
    split
    · exact stallTransaction_fitting _
    · refine ⟨.of_eq rfl, .of_ne ?_⟩
      show (if _ then UsbFsmState.dataOut else .lastDataOut) ≠ .dataIn
      split <;> simp

theorem tail_fitting {τ : Dev} {istr : Half} (h : σ.Fitting τ) : σ.Fitting (τ.tail istr) :=
  ⟨h.records, h.inBounds⟩

/-- The SETUP, whatever transfer it cuts short. -/
theorem poll_setup_fitting (cfg : Config) (hreset : σ.usb.NoReset) (hfit : σ.ReplyFits p) :
    σ.Fitting (poll cfg σ (.setup p)) := by
  obtain ⟨u, istr, -, -, -, hpoll⟩ := poll_setup cfg hreset p
  rw [hpoll]
  exact tail_fitting (.head (τ := σ.began p u) (.one rfl trivial) (setupStage_fitting hfit))

/-- The event is not a SETUP whose reply does not fit. -/
def ReplyOk (σ : Dev) : Event → Prop
  | .setup p => σ.ReplyFits p
  | _ => True

/-- One poll: chunks inside the buffer, and an IN stage that ends inside. -/
theorem poll_fitting (cfg : Config) (h : σ.Tidy) (hin : σ.InBounds) {e : Event} (hok : ReplyOk σ e) :
    σ.Fitting (poll cfg σ e) := by
  have hp := poll_polled cfg h e
  generalize poll cfg σ e = τ at hp
  cases hp with
  | reset => exact ⟨.of_eq rfl, hin⟩
  | @setup p u =>
      exact tail_fitting (.head (τ := σ.began p u) (.one rfl trivial) (setupStage_fitting hok))
  | @out _ u =>
      exact tail_fitting (.head (τ := { σ with usb := u }) (.of_eq rfl) (usbdControlOut_fitting _))
  | @stale _ u =>
      exact tail_fitting (.head (τ := { σ with usb := u }) (.of_eq rfl) (stallTransaction_fitting _))
  | @inDone _ u =>
      exact tail_fitting (.head (τ := { σ with usb := u }) (.of_eq rfl) (usbdControlIn_fitting hin))
  | quiet => exact ⟨.of_eq rfl, hin⟩

/-! ## Chunks past the buffer -/

/-- An IN stage runs to its end: some completion sends up to it. -/
theorem inDones_reach (cfg : Config) (hcalm : σ.Calm) (hin : σ.pipe.usbFsmState = .dataIn) {b : Nat}
    (hb : σ.pipe.dataoff.toNat + σ.pipe.datasize.toNat = b) (hlt : b < 2 ^ 16) :
    ∃ j l off len, ((machine cfg).run σ (List.replicate j .inDone)).calls = σ.calls ++ l ∧
      Call.send off len ∈ l ∧ off + len = b := by
  induction hsize : σ.pipe.datasize.toNat using Nat.strongRecOn generalizing σ with
  | ind size ih =>
      have hnext := poll_noReset cfg σ .inDone
      obtain ⟨u, istr, hclear, -, hpoll⟩ := poll_in cfg hcalm.noReset hcalm.ctrRx
      have hchunk : usbdControlIn cfg { σ with usb := u } =
          usbControlSendChunk { σ with usb := u } := by
        rw [usbdControlIn, hin]
      have hrx := (usbControlSendChunk_acts cfg { σ with usb := u }).sw.ctrRx
        hclear.ctrRx
      rw [hpoll, hchunk] at hnext
      rw [hchunk] at hpoll
      by_cases hmore : 64 < σ.pipe.datasize.toNat
      · have hbound : σ.pipe.dataoff.toNat + σ.pipe.datasize.toNat < 2 ^ 16 := by omega
        obtain ⟨hadd, hsub⟩ := chunk_progress hmore hbound
        have hsend := usbControlSendChunk_more (σ := { σ with usb := u }) hmore
        have hτcalls : (poll cfg σ .inDone).calls = σ.calls ++ [.send σ.pipe.dataoff.toNat 64] := by
          rw [hpoll, hsend]
          rfl
        have hτpipe : (poll cfg σ .inDone).pipe = { σ.pipe with
            usbFsmState := .dataIn
            dataoff := σ.pipe.dataoff + 64
            datasize := σ.pipe.datasize - 64 } := by
          rw [hpoll, hsend]
          rfl
        have hτcalm : (poll cfg σ .inDone).Calm := by
          rw [hpoll]
          exact .tail hrx hnext
        obtain ⟨j, l, off, len, hcalls, hmem, hend⟩ := ih (σ.pipe.datasize.toNat - 64) (by omega)
          hτcalm (by rw [hτpipe]) (by rw [hτpipe]; dsimp only; omega) (by rw [hτpipe]; exact hsub)
        refine ⟨j + 1, .send σ.pipe.dataoff.toNat 64 :: l, off, len, ?_, .tail _ hmem, hend⟩
        refine hcalls.trans ?_
        rw [hτcalls, List.append_assoc]
        rfl
      · have hsend := usbControlSendChunk_last (σ := { σ with usb := u }) (Nat.not_lt.mp hmore)
        have hτcalls : (poll cfg σ .inDone).calls =
            σ.calls ++ [.send σ.pipe.dataoff.toNat σ.pipe.datasize.toNat] := by
          rw [hpoll, hsend]
          rfl
        exact ⟨1, _, _, _, hτcalls, .head _, hb⟩

/-- A request that echoes or keeps the length is handled. -/
theorem dispatch_handled (h : σ.pipe.usbReq.EchoesLen ∨ σ.pipe.usbReq.KeepsLen) :
    (usbControlRequestDispatch cfg σ).1 ≠ .notsupp := by
  rcases h with ⟨hclass, r, hreq, -⟩ | hkeeps
  · rw [usbControlRequestDispatch_class hclass hreq,
      (usbdfuControlRequest_datasize cfg (σ := σ.toHandler) hreq).1]
    simp
  · have hclass : ¬ σ.pipe.usbReq.ClassInterface :=
      fun h => classInterface_not_standard h hkeeps.1
    rw [usbControlRequestDispatch_pass hclass,
      (usbdStandardRequest_keeps cfg (σ := σ.call _) hkeeps).1]
    simp

/-- A reply that does not fit is sent past the buffer. -/
theorem sends_past (cfg : Config) (hreset : σ.usb.NoReset) (hfit : ¬ σ.ReplyFits p) :
    ∃ j, ¬ σ.Records Call.Fits ((machine cfg).run σ (.setup p :: List.replicate j .inDone)) := by
  simp only [Dev.ReplyFits, not_forall] at hfit
  obtain ⟨hdir, hw, hlong⟩ := hfit
  have hnext := poll_noReset cfg σ (.setup p)
  obtain ⟨u, istr, hclear, -, -, hpoll⟩ := poll_setup cfg hreset p
  let τ : Dev := { σ.began p u with pipe := { (σ.began p u).pipe with dataoff := 0 } }
  have hr : (usbControlRequestDispatch cfg τ).1 ≠ .notsupp := by
    refine dispatch_handled ?_
    by_contra hnot
    obtain ⟨hecho, hkeeps⟩ := not_or.mp hnot
    exact hlong ⟨fun h => absurd h hecho, fun h => absurd h hkeeps⟩
  have hlen := mt (dispatch_datasize cfg (σ := τ) hdir hr).mp hlong
  have hoff := (usbControlRequestDispatch_handles cfg τ).dataoff
  have hsw := (usbControlRequestDispatch_acts cfg τ).sw
  obtain ⟨l, hl, -⟩ := usbControlRequestDispatch_records cfg τ
  have hstage : (σ.began p u).setupStage cfg p =
      (usbControlRequestDispatch cfg τ).2.answer p.wLength :=
    setupStage_answered (.inr hdir) rfl hr rfl
  generalize (usbControlRequestDispatch cfg τ).2 = ρ at hlen hoff hsw hl hstage
  let ρ' : Dev := { ρ with pipe := { ρ.pipe with
    datasize := truncate p.wLength ρ.pipe.datasize
    usbNeedsZlp := needsZlp (truncate p.wLength ρ.pipe.datasize) p.wLength bMaxPacketSize0 } }
  have hanswer : ρ.answer p.wLength = usbControlSendChunk ρ' := if_pos hw
  rw [← truncate_toNat, Nat.not_le, controlBufferSize, dfuTransferSize] at hlen
  have hmore : 64 < ρ'.pipe.datasize.toNat := Nat.lt_trans (by decide) hlen
  have hsize := ρ'.pipe.datasize.isLt
  have hzero : ρ'.pipe.dataoff.toNat = 0 := congrArg BitVec.toNat hoff
  obtain ⟨hadd, hsub⟩ := chunk_progress hmore (show ρ'.pipe.dataoff.toNat + _ < _ by omega)
  have hsend := usbControlSendChunk_more hmore
  have hrx : ((usbControlSendChunk ρ').usb.ep 0).ctrRx = false :=
    (usbControlSendChunk_acts cfg ρ').sw.ctrRx (hsw.ctrRx hclear.ctrRx)
  rw [hpoll, hstage, hanswer] at hnext
  rw [hstage, hanswer] at hpoll
  have hcalm : (poll cfg σ (.setup p)).Calm := by
    rw [hpoll]
    exact .tail hrx hnext
  have hpipe : (poll cfg σ (.setup p)).pipe = { ρ'.pipe with
      usbFsmState := .dataIn
      dataoff := ρ'.pipe.dataoff + 64
      datasize := ρ'.pipe.datasize - 64 } := by
    rw [hpoll, hsend]
    rfl
  have hcalls : (poll cfg σ (.setup p)).calls = σ.calls ++ (.setup p :: (l ++ [.send 0 64])) := by
    rw [hpoll, hsend]
    show ρ.calls ++ [.send ρ'.pipe.dataoff.toNat 64] = _
    rw [hzero, hl]
    show ((σ.calls ++ [.setup p]) ++ l) ++ _ = _
    simp only [List.append_assoc, List.cons_append, List.nil_append]
  obtain ⟨j, l', off, len, hrun, hmem, hend⟩ := inDones_reach cfg hcalm
    (by rw [hpipe]) (b := ρ'.pipe.datasize.toNat) (by rw [hpipe]; dsimp only; omega) hsize
  rw [hcalls, List.append_assoc] at hrun
  refine ⟨j, ?_⟩
  rintro ⟨l'', hl'', hfits⟩
  have hsame := List.append_cancel_left (hrun.symm.trans hl'')
  have hbad : (Call.send off len).Fits := hfits _ (hsame ▸ List.mem_append_right _ hmem)
  have hle : off + len ≤ 1024 := hbad
  have hgt : 1024 < ρ'.pipe.datasize.toNat := hlen
  omega

/-! ## The bound -/

/-- **Bounds of replies.** In a run whose SETUPs all have replies that fit,
every chunk sent lies inside the control buffer; and in the state any run
reaches, the chunks sent for a SETUP and the IN completions after it all lie
inside exactly when its reply fits. -/
theorem replies_inside_iff (cfg : Config) {σ₀ : Dev} (hboot : σ₀.Boot) (es : List Event) :
    let σ := (machine cfg).run σ₀ es
    ((machine cfg).Admits ReplyOk σ₀ es → ∀ c ∈ σ.calls, c.Fits) ∧
    ∀ p, (∀ j, σ.Records Call.Fits
      ((machine cfg).run σ (.setup p :: List.replicate j .inDone))) ↔ σ.ReplyFits p := by
  have htidy := tidy_invariant cfg
  refine ⟨fun hok => ?_, fun p => ⟨fun hall => ?_, fun hfit j => ?_⟩⟩
  · let P : Dev → Prop := fun τ => τ.Tidy ∧ τ.InBounds ∧ ∀ c ∈ τ.calls, c.Fits
    have hin : σ₀.InBounds := Dev.InBounds.of_ne (by rw [hboot.usbFsmState]; decide)
    have hcalls : ∀ c ∈ σ₀.calls, c.Fits := by
      rw [hboot.calls]
      exact fun c hc => absurd hc List.not_mem_nil
    have hstart : P σ₀ := ⟨htidy _ (.init hboot), hin, hcalls⟩
    refine (TSys.Admits.preserves (P := P) _ (fun τ e hC hτ => ?_) hstart hok).2.2
    obtain ⟨ht, hin, hall⟩ := hτ
    obtain ⟨⟨l, hl, hfits⟩, hin'⟩ := poll_fitting cfg ht hin hC
    refine ⟨poll_tidy _ ht e, hin', fun c hc => ?_⟩
    rw [machine_step, hl] at hc
    exact (List.mem_append.mp hc).elim (hall c) (hfits c)
  · by_contra hfit
    have hreset := (htidy _ (TSys.Reachable.run _ (.init hboot) es)).noReset
    obtain ⟨j, hj⟩ := sends_past cfg hreset hfit
    exact hj (hall j)
  · have ht := htidy _ (TSys.Reachable.run _ (.init hboot) es)
    have hsetup := poll_setup_fitting cfg ht.noReset hfit
    have hrun : ∀ j {τ : Dev}, τ.Tidy → τ.InBounds →
        τ.Records Call.Fits ((machine cfg).run τ (List.replicate j .inDone)) := by
      intro j
      induction j with
      | zero => exact fun _ _ => .of_eq rfl
      | succ j ih =>
          intro τ hτ hin
          have hstep := poll_fitting cfg hτ hin (e := .inDone) trivial
          exact hstep.records.trans (ih (poll_tidy _ hτ _) hstep.inBounds)
    exact hsetup.records.trans (hrun j (poll_tidy _ ht _) hsetup.inBounds)

/-- DFU_GETSTATUS, fresh out of reset. -/
theorem replies_inside_getstatus :
    let σ := (machine .stm32f103).run (Dev.fresh fun _ => 0xff) []
    ∀ j, σ.Records Call.Fits
      ((machine .stm32f103).run σ (.setup ⟨0xA1, 3, 0, 0, 6⟩ :: List.replicate j .inDone)) := by
  refine ((replies_inside_iff .stm32f103 (Dev.fresh_boot fun _ => 0xff) []).2 _).mpr ?_
  exact fun _ _ => ⟨fun _ => by decide, fun h => absurd h.1 (by decide)⟩

/-- DFU_ABORT as a read request of 1025 bytes: the last packet is the byte
after the control buffer. -/
theorem abort_read_past :
    ¬ ∀ c ∈ ((machine .stm32f103).run (Dev.fresh fun _ => 0xff)
      (.setup ⟨0xA1, 6, 0, 0, 1025⟩ :: List.replicate 16 .inDone)).calls, c.Fits := by
  decide +kernel

end LnDso
