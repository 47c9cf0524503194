import LnDso.Logic.Alike

/-!
# A poll of two devices in step

The handlers of `dfu.cpp` and of a control transfer keep two devices in step,
provided that a DFU_DNLOAD copies the same bytes on both and that uploads read
the same flash. `poll_alike` is the rule for a whole poll.
-/

namespace LnDso

open Lib UsbPeriph

variable {cfg : Config} {full : Prop} {F : Bool → Flash → Flash → Prop} {σ τ : Dev}

/-- What makes `F` a relation the firmware keeps: loads keep it, and so does a
DNBUSY completion on the same DFU state. -/
structure FlashRel (cfg : Config) (F : Bool → Flash → Flash → Prop) : Prop where
  loads : ∀ {e fl fl'} base n i, F e fl fl' →
    F e (uploadLoads base n i fl) (uploadLoads base n i fl')
  dnbusy : ∀ {σ τ : Dev}, τ.dfu = σ.dfu → σ.dfu.usbdfuState = .dfuDnbusy →
    F σ.dfu.erased σ.flash τ.flash →
    F (usbdfuGetstatusComplete cfg σ).dfu.erased (usbdfuGetstatusComplete cfg σ).flash
      (usbdfuGetstatusComplete cfg τ).flash

/-- Every upload recorded in `cs` read flashes that `F` makes the same. -/
def SameUploads (F : Bool → Flash → Flash → Prop) (cs : List Call) : Prop :=
  ∀ b, .upload b ∈ cs → ∀ fl fl', F b fl fl' → fl'.mem = fl.mem

/-- A DFU_DNLOAD of `n` bytes copies the same bytes on both devices. -/
def Dev.SameCopy (σ τ : Dev) (n : Half) : Prop :=
  DfuReq.ofByte σ.pipe.usbReq.bRequest = some .dnload →
    ∀ i < min n.toNat dfuTransferSize, τ.usbdControlBuffer i = σ.usbdControlBuffer i

/-! ## The DFU handler -/

theorem dfuDnload_alike (h : σ.Alike full F τ)
    (hcopy : ∀ i < min σ.pipe.datasize.toNat dfuTransferSize,
      τ.usbdControlBuffer i = σ.usbdControlBuffer i) :
    (dfuDnload σ).Alike full F (dfuDnload τ) := by
  let len : Half := if 1024 < σ.pipe.datasize then BitVec.ofNat 16 dfuTransferSize else σ.pipe.datasize
  have hlen : len.toNat ≤ min σ.pipe.datasize.toNat dfuTransferSize := by
    show (if 1024 < σ.pipe.datasize then BitVec.ofNat 16 dfuTransferSize
      else σ.pipe.datasize).toNat ≤ _
    split
    · next hlt => exact Nat.le_min.mpr ⟨Nat.le_of_lt hlt, Nat.le_refl _⟩
    · next hle => exact Nat.le_min.mpr ⟨Nat.le_refl _, Nat.not_lt.mp hle⟩
  have hread : τ.usbdControlBuffer.read 0 len.toNat = σ.usbdControlBuffer.read 0 len.toNat := by
    refine Mem.read_ext fun i hi => ?_
    rw [Nat.zero_add]
    exact hcopy i (Nat.lt_of_lt_of_le hi hlen)
  unfold dfuDnload
  dsimp only
  rw [h.pipe]
  split
  · exact h.setDfuState _
  · rw [h.dfu, hread]
    refine Dev.Alike.call ?_ fun _ => rfl
    exact ⟨h.usb, rfl, rfl, h.buffer, h.calls, h.flash⟩

/-- The refusal of an upload. -/
theorem refuse_alike (h : σ.Alike full F τ) :
    ((σ.setDfuState .dfuError).reply [] 0).Alike full F ((τ.setDfuState .dfuError).reply [] 0) :=
  (h.setDfuState _).reply (fun _ => rfl) _

theorem dfuUploadBlock_alike (hF : FlashRel cfg F) (h : σ.Alike full F τ)
    (hup : full → SameUploads F (dfuUploadBlock cfg σ).calls) :
    (dfuUploadBlock cfg σ).Alike full F (dfuUploadBlock cfg τ) := by
  unfold dfuUploadBlock at hup ⊢
  dsimp only at hup ⊢
  rw [h.pipe, h.dfu]
  split
  · next hguard =>
    rw [if_pos hguard] at hup
    have hmem : full → τ.flash.mem = σ.flash.mem := fun hf =>
      hup hf _ (List.mem_append_right _ (.head _)) _ _ h.flash
    have hloads := hF.loads (blockAddr σ.dfu.prog.addr σ.pipe.usbReq.wValue) dfuTransferSize 0 h.flash
    generalize uploadLoads _ dfuTransferSize 0 σ.flash = fl at hloads ⊢
    generalize uploadLoads _ dfuTransferSize 0 τ.flash = fl' at hloads ⊢
    have hread : { σ with flash := fl }.Alike full F { τ with flash := fl' } :=
      ⟨h.usb, h.pipe, h.dfu, h.buffer, h.calls, hloads⟩
    rw [h.pipe, h.dfu] at hread
    exact (hread.reply (fun hf => by rw [hmem hf]) _).call fun _ => rfl
  · exact refuse_alike h

theorem dfuUpload_alike (hF : FlashRel cfg F) (h : σ.Alike full F τ)
    (hup : full → SameUploads F (dfuUpload cfg σ).calls) :
    (dfuUpload cfg σ).Alike full F (dfuUpload cfg τ) := by
  have hidle := h.setDfuState .dfuUploadIdle
  unfold dfuUpload at hup ⊢
  dsimp only at hup ⊢
  rw [show (τ.setDfuState .dfuUploadIdle).pipe = (σ.setDfuState .dfuUploadIdle).pipe from h.pipe]
  split
  · exact hidle.reply (fun _ => rfl) _
  · next hcmd =>
    rw [if_neg hcmd] at hup
    split
    · next hbuild =>
      rw [if_pos hbuild] at hup
      exact dfuUploadBlock_alike hF hidle hup
    · exact refuse_alike hidle

theorem dfuGetstatus_alike (h : σ.Alike full F τ) :
    (dfuGetstatus σ).Alike full F (dfuGetstatus τ) := by
  unfold dfuGetstatus
  dsimp only
  rw [h.dfu]
  refine Dev.Alike.call ?_ fun _ => rfl
  obtain ⟨status, timeout, s⟩ := usbdfuGetstatus σ.dfu.usbdfuState
  have hreply : ∀ bytes, ((σ.setDfuState s).reply bytes 6).Alike full F
      ((τ.setDfuState s).reply bytes 6) := fun bytes => (h.setDfuState s).reply (fun _ => rfl) 6
  rw [(hreply _).pipe]
  exact (hreply _).setPipe _

theorem usbdfuControlRequest_alike (hF : FlashRel cfg F) (h : σ.Alike full F τ)
    (hcopy : σ.SameCopy τ σ.pipe.datasize)
    (hup : full → SameUploads F (usbdfuControlRequest cfg σ).2.calls) :
    Dev.AlikeOut full F (usbdfuControlRequest cfg σ) (usbdfuControlRequest cfg τ) := by
  unfold usbdfuControlRequest at hup ⊢
  rw [h.pipe]
  cases hreq : DfuReq.ofByte σ.pipe.usbReq.bRequest with
  | none => exact ⟨rfl, h⟩
  | some r =>
      rw [hreq] at hup
      cases r with
      | dnload => exact ⟨rfl, dfuDnload_alike h (hcopy hreq)⟩
      | clrstatus =>
          dsimp only
          rw [h.dfu]
          split
          · exact ⟨rfl, h.setDfuState _⟩
          · exact ⟨rfl, h⟩
      | abort => exact ⟨rfl, h.setDfuState _⟩
      | detach => exact ⟨rfl, h.setDfuState _⟩
      | upload => exact ⟨rfl, dfuUpload_alike hF h hup⟩
      | getstatus => exact ⟨rfl, dfuGetstatus_alike h⟩
      | getstate => exact ⟨rfl, h.reply (fun _ => by rw [h.dfu]) _⟩

theorem usbControlRequestDispatch_alike (hF : FlashRel cfg F) (h : σ.Alike full F τ)
    (hcopy : σ.pipe.usbReq.ClassInterface → σ.SameCopy τ σ.pipe.usbReq.wLength)
    (hup : full → SameUploads F (usbControlRequestDispatch cfg σ).2.calls) :
    Dev.AlikeOut full F (usbControlRequestDispatch cfg σ) (usbControlRequestDispatch cfg τ) := by
  have hcall : full → Call.dispatch τ.pipe.usbReq τ.usbdControlBuffer =
      .dispatch σ.pipe.usbReq σ.usbdControlBuffer := fun hf => by rw [h.pipe, h.buffer hf]
  have hrec := h.call hcall
  have hreqs : τ.pipe.usbReq = σ.pipe.usbReq := congrArg Pipe.usbReq h.pipe
  by_cases hclass : σ.pipe.usbReq.ClassInterface
  · have hτclass : τ.pipe.usbReq.ClassInterface := hreqs ▸ hclass
    have hhandler : σ.toHandler.Alike full F τ.toHandler := by
      have hstart := hrec.setPipe { σ.pipe with datasize := σ.pipe.usbReq.wLength }
      rw [Dev.toHandler, Dev.toHandler]
      dsimp only [Dev.call] at hstart ⊢
      rw [h.pipe] at hstart ⊢
      exact hstart
    cases hreq : DfuReq.ofByte σ.pipe.usbReq.bRequest with
    | none =>
        rw [usbControlRequestDispatch_unknown hclass hreq,
          usbControlRequestDispatch_unknown hτclass (hreqs ▸ hreq)]
        exact ⟨rfl, hhandler⟩
    | some r =>
        rw [usbControlRequestDispatch_class hclass hreq] at hup ⊢
        rw [usbControlRequestDispatch_class hτclass (hreqs ▸ hreq)]
        exact usbdfuControlRequest_alike hF hhandler (hcopy hclass) hup
  · have hτclass : ¬ τ.pipe.usbReq.ClassInterface := hreqs ▸ hclass
    rw [usbControlRequestDispatch_pass hclass, usbControlRequestDispatch_pass hτclass]
    exact usbdStandardRequest_alike hrec

/-! ## Read requests -/

theorem SameUploads.mono {cs cs' : List Call} (h : SameUploads F cs') (hsub : cs ⊆ cs') :
    SameUploads F cs :=
  fun b hb => h b (hsub hb)

theorem answer_alike (h : σ.Alike full F τ) (w : Half) :
    (σ.answer w).Alike full F (τ.answer w) := by
  unfold Dev.answer
  dsimp only
  rw [h.pipe]
  split
  · exact usbControlSendChunk_alike (h.setPipe _)
  · exact (writePacket0_alike (h.setPipe _) (fun _ => rfl) 0).setFsm .statusIn

/-- Recorded calls stay recorded. -/
theorem Acts.calls_subset {σ τ : Dev} (h : Acts cfg σ τ) : σ.calls ⊆ τ.calls := by
  refine h.preserves (P := fun υ => σ.calls ⊆ υ.calls) (fun {υ ω} hact hυ => ?_) fun _ => id
  refine List.Subset.trans hυ ?_
  cases hact with
  | plumb hsame =>
      rw [hsame.calls]
      exact fun _ => id
  | send => exact List.subset_append_left _ _
  | stall => exact List.subset_append_left _ _
  | forget => exact fun _ => id
  | setup => exact List.subset_append_left _ _
  | pass => exact List.subset_append_left _ _
  | request =>
      obtain ⟨l, hl, -⟩ := (usbdfuControlRequest_handles cfg υ.toHandler).calls
      rw [hl]
      exact List.Subset.trans (List.subset_append_left _ _) (List.subset_append_left _ _)
  | @complete cb stage =>
      cases cb
      show υ.calls ⊆ (usbdfuGetstatusComplete cfg (υ.call (.complete stage))).calls
      rw [usbdfuGetstatusComplete_calls _]
      split
      · exact List.Subset.trans (List.subset_append_left _ _) (List.subset_append_left _ _)
      · exact List.subset_append_left _ _

theorem answer_acts (w : Half) (σ : Dev) : Acts cfg σ (σ.answer w) := by
  unfold Dev.answer
  dsimp only
  split
  · refine .trans (Acts.plumb ?_) (usbControlSendChunk_acts _ _)
    exact ⟨rfl, rfl, rfl, rfl, .refl⟩
  · exact Acts.plumb ⟨rfl, rfl, rfl, rfl, usbdEpWritePacket_sw _ _ _ _⟩

/-- What follows a dispatch: a stall, or `g` once the request is handled. -/
def Dev.finish (g : Dev → Dev) (out : ReqCode × Dev) : Dev :=
  if out.1 = .notsupp then stallTransaction out.2 else g out.2

/-- A dispatch from devices in step, and what follows it. -/
theorem finish_alike (hF : FlashRel cfg F) {g : Dev → Dev} (hacts : ∀ υ, Acts cfg υ (g υ))
    (hg : ∀ {υ ω : Dev}, υ.Alike full F ω → (g υ).Alike full F (g ω)) (h : σ.Alike full F τ)
    (hcopy : σ.pipe.usbReq.ClassInterface → σ.SameCopy τ σ.pipe.usbReq.wLength)
    (hup : full → SameUploads F (Dev.finish g (usbControlRequestDispatch cfg σ)).calls) :
    (Dev.finish g (usbControlRequestDispatch cfg σ)).Alike full F
      (Dev.finish g (usbControlRequestDispatch cfg τ)) := by
  have hsub : (usbControlRequestDispatch cfg σ).2.calls ⊆
      (Dev.finish g (usbControlRequestDispatch cfg σ)).calls := by
    unfold Dev.finish
    split
    · exact (stallTransaction_acts cfg _).calls_subset
    · exact (hacts _).calls_subset
  obtain ⟨hcode, hout⟩ := usbControlRequestDispatch_alike hF h hcopy fun hf => (hup hf).mono hsub
  unfold Dev.finish
  rw [hcode]
  split
  · exact stallTransaction_alike hout
  · exact hg hout

theorem usbControlSetupRead_alike (hF : FlashRel cfg F) (h : σ.Alike full F τ)
    (hcopy : σ.pipe.usbReq.ClassInterface → σ.SameCopy τ σ.pipe.usbReq.wLength)
    (hup : full → SameUploads F (usbControlSetupRead cfg σ).calls) :
    (usbControlSetupRead cfg σ).Alike full F (usbControlSetupRead cfg τ) := by
  have hstart := h.setPipe { σ.pipe with dataoff := 0 }
  rw [usbControlSetupRead_eq] at hup
  rw [usbControlSetupRead_eq, usbControlSetupRead_eq, h.pipe]
  exact finish_alike hF (answer_acts σ.pipe.usbReq.wLength) (answer_alike · _) hstart hcopy hup

/-! ## Write requests -/

theorem usbControlSetupWrite_alike (h : σ.Alike full F τ) :
    (usbControlSetupWrite σ).Alike full F (usbControlSetupWrite τ) := by
  unfold usbControlSetupWrite
  dsimp only
  rw [h.pipe]
  split
  · exact stallTransaction_alike h
  · exact usbdEpNakSet_alike ((h.setPipe _).setFsm _) 0 false

theorem usbControlRecvChunk_alike (h : σ.Alike full F τ) :
    (usbControlRecvChunk τ).1 = (usbControlRecvChunk σ).1 ∧
      (usbControlRecvChunk σ).2.Alike full F (usbControlRecvChunk τ).2 := by
  unfold usbControlRecvChunk
  dsimp only
  rw [h.pipe]
  generalize (BitVec.ofInt 16 (min (bMaxPacketSize0.toNat : Int) σ.pipe.remaining) : Half) = n
  obtain ⟨hsize, hbuf, hu⟩ := usbdEpReadPacket_alike h.usb σ.pipe.usbForceNak 0
    σ.usbdControlBuffer τ.usbdControlBuffer σ.pipe.datasize.toNat n
  rw [hsize]
  generalize usbdEpReadPacket σ.pipe.usbForceNak 0 σ.usbdControlBuffer σ.pipe.datasize.toNat n
    σ.usb = r at hbuf hu ⊢
  generalize usbdEpReadPacket σ.pipe.usbForceNak 0 τ.usbdControlBuffer σ.pipe.datasize.toNat n
    τ.usb = r' at hbuf hu ⊢
  have hread : { σ with usb := r.2.2, usbdControlBuffer := r.2.1 }.Alike full F
      { τ with usb := r'.2.2, usbdControlBuffer := r'.2.1 } :=
    ⟨hu, h.pipe, h.dfu, fun hf => hbuf hf (h.buffer hf), h.calls, h.flash⟩
  rw [h.pipe] at hread
  split
  · exact ⟨rfl, stallTransaction_alike hread⟩
  · exact ⟨rfl, hread.setPipe _⟩

/-! ## Completions -/

theorem usbdfuGetstatusComplete_alike (hF : FlashRel cfg F) (h : σ.Alike full F τ) :
    (usbdfuGetstatusComplete cfg σ).Alike full F (usbdfuGetstatusComplete cfg τ) where
  usb := by
    rw [usbdfuGetstatusComplete_usb, usbdfuGetstatusComplete_usb]
    exact h.usb
  pipe := by
    rw [usbdfuGetstatusComplete_pipe, usbdfuGetstatusComplete_pipe]
    exact h.pipe
  dfu := usbdfuGetstatusComplete_dfu h.dfu
  buffer hf := by
    rw [usbdfuGetstatusComplete_buffer, usbdfuGetstatusComplete_buffer]
    exact h.buffer hf
  calls hf := by
    rw [usbdfuGetstatusComplete_calls _, usbdfuGetstatusComplete_calls _, h.dfu, h.calls hf]
  flash := by
    by_cases hs : σ.dfu.usbdfuState = .dfuDnbusy
    · exact hF.dnbusy h.dfu hs h.flash
    · rw [usbdfuGetstatusComplete_else hs, usbdfuGetstatusComplete_else (h.dfu ▸ hs)]
      exact h.flash

theorem completeTransfer_alike (hF : FlashRel cfg F) (h : σ.Alike full F τ) (stage : UsbFsmState) :
    (completeTransfer cfg stage σ).Alike full F (completeTransfer cfg stage τ) := by
  unfold completeTransfer
  rw [h.pipe]
  split
  · next cb _ =>
    cases cb
    exact usbdfuGetstatusComplete_alike hF (h.call fun _ => rfl)
  · exact h

/-! ## OUT and IN -/

theorem usbdControlOut_alike (hF : FlashRel cfg F) (h : σ.Alike full F τ)
    (hcopy : σ.pipe.usbFsmState = .lastDataOut → 0 ≤ (usbControlRecvChunk σ).1 →
      (usbControlRecvChunk σ).2.SameCopy (usbControlRecvChunk τ).2
        (usbControlRecvChunk σ).2.pipe.usbReq.wLength)
    (hup : full → SameUploads F (usbdControlOut cfg σ).calls) :
    (usbdControlOut cfg σ).Alike full F (usbdControlOut cfg τ) := by
  obtain ⟨hr, hout⟩ := usbControlRecvChunk_alike h
  have hτfsm : τ.pipe.usbFsmState = σ.pipe.usbFsmState := congrArg Pipe.usbFsmState h.pipe
  have hstall : ∀ s, σ.pipe.usbFsmState = s → s ≠ .dataOut → s ≠ .lastDataOut → s ≠ .statusOut →
      (usbdControlOut cfg σ).Alike full F (usbdControlOut cfg τ) := by
    intro s hs h1 h2 h3
    unfold usbdControlOut
    rw [hτfsm, hs]
    cases s with
    | dataOut => exact absurd rfl h1
    | lastDataOut => exact absurd rfl h2
    | statusOut => exact absurd rfl h3
    | _ => exact stallTransaction_alike h
  cases hfsm : σ.pipe.usbFsmState with
  | dataOut =>
      unfold usbdControlOut
      rw [hτfsm, hfsm]
      dsimp only
      rw [hr, hout.pipe]
      split
      · exact hout
      split
      · exact hout.setFsm .lastDataOut
      · exact hout
  | lastDataOut =>
      by_cases hneg : (usbControlRecvChunk σ).1 < 0
      · unfold usbdControlOut
        rw [hτfsm, hfsm]
        dsimp only
        rw [hr, if_pos hneg, if_pos hneg]
        exact hout
      · have hpos := Int.not_lt.mp hneg
        rw [usbdControlOut_last hfsm hpos] at hup ⊢
        rw [usbdControlOut_last (hτfsm.trans hfsm) (hr ▸ hpos)]
        refine finish_alike hF (g := fun υ => (υ.writePacket0 (fun _ => 0) 0).setFsm .statusIn)
          (fun υ => Acts.plumb ?_) (fun hυ => ?_) hout (fun _ => hcopy hfsm hpos) hup
        · exact ⟨rfl, rfl, rfl, rfl, usbdEpWritePacket_sw _ _ _ _⟩
        · exact (writePacket0_alike hυ (fun _ => rfl) 0).setFsm .statusIn
  | statusOut =>
      obtain ⟨-, -, hu⟩ := usbdEpReadPacket_alike h.usb σ.pipe.usbForceNak 0 (fun _ => 0)
        (fun _ => 0) 0 0
      have hdone := completeTransfer_alike hF ((h.setUsb hu).setFsm .idle) .statusOut
      unfold usbdControlOut
      rw [hτfsm, hfsm]
      dsimp only
      rw [show τ.pipe.usbForceNak = σ.pipe.usbForceNak from congrArg Pipe.usbForceNak h.pipe, hdone.pipe]
      exact hdone.setPipe _
  | idle => exact hstall _ hfsm (by simp) (by simp) (by simp)
  | stalled => exact hstall _ hfsm (by simp) (by simp) (by simp)
  | dataIn => exact hstall _ hfsm (by simp) (by simp) (by simp)
  | lastDataIn => exact hstall _ hfsm (by simp) (by simp) (by simp)
  | statusIn => exact hstall _ hfsm (by simp) (by simp) (by simp)

theorem usbdControlIn_alike (hF : FlashRel cfg F) (h : σ.Alike full F τ) :
    (usbdControlIn cfg σ).Alike full F (usbdControlIn cfg τ) := by
  unfold usbdControlIn
  rw [h.pipe]
  split
  · exact usbControlSendChunk_alike h
  · exact usbdEpNakSet_alike (h.setFsm _) 0 false
  · have hdone := completeTransfer_alike hF h .statusIn
    dsimp only
    rw [hdone.pipe]
    refine Dev.Alike.setFsm ?_ .idle
    split
    · have hset := hdone.setUsb (hdone.usb.setReg usbDaddrReg
        (((completeTransfer cfg .statusIn σ).pipe.usbReq.wValue &&& usbDaddrAddr) ||| usbDaddrEf))
      rw [hdone.pipe] at hset
      exact hset
    · exact hdone
  · exact stallTransaction_alike h

/-! ## Polls -/

theorem ackIstr_alike {u v : UsbPeriph} (h : u.Alike full v) (istr bit : Half) :
    (ackIstr istr bit u).Alike full (ackIstr istr bit v) := by
  unfold ackIstr
  split
  · exact h.setReg _ _
  · exact h

theorem tail_alike (h : σ.Alike full F τ) (istr : Half) :
    (σ.tail istr).Alike full F (τ.tail istr) := by
  have hack := ackIstr_alike (ackIstr_alike (ackIstr_alike h.usb istr usbIstrSusp) istr usbIstrWkup)
    istr usbIstrSof
  refine h.setUsb ?_
  unfold pollTail
  dsimp only
  rw [hack.getReg]
  exact hack.setReg _ _

theorem setEpRxBufsize_alike {u v : UsbPeriph} (h : u.Alike full v) (ep : Nat) (size : Word) :
    (setEpRxBufsize ep size u).Alike full (setEpRxBufsize ep size v) := by
  unfold setEpRxBufsize
  dsimp only
  split
  · rw [usbSetEpRxCount, usbSetEpRxCount, h.descOff]
    exact h.setDesc _ _
  · rw [usbSetEpRxCount, usbSetEpRxCount, h.descOff]
    exact h.setDesc _ _

theorem epSetupTx_alike {u v : UsbPeriph} (h : u.Alike full v) (ep : Nat) (size top : Half) :
    (epSetupTx ep size top u).2.Alike full (epSetupTx ep size top v).2 := by
  have haddr : (usbSetEpTxAddr ep top u).Alike full (usbSetEpTxAddr ep top v) := by
    rw [usbSetEpTxAddr, usbSetEpTxAddr, h.descOff]
    exact h.setDesc _ _
  exact (haddr.rmw ep clrTxDtogVal).txStat ep usbEpTxStatNak

theorem epSetupRx_alike {u v : UsbPeriph} (h : u.Alike full v) (ep : Nat) (size top : Half) :
    (epSetupRx ep size top u).2.Alike full (epSetupRx ep size top v).2 := by
  have haddr : (usbSetEpRxAddr ep top u).Alike full (usbSetEpRxAddr ep top v) := by
    rw [usbSetEpRxAddr, usbSetEpRxAddr, h.descOff]
    exact h.setDesc _ _
  exact ((setEpRxBufsize_alike haddr ep _).rmw ep clrRxDtogVal).rxStat ep usbEpRxStatValid

theorem usbdEpSetup_alike {u v : UsbPeriph} (h : u.Alike full v) (addr type : Byte)
    (maxSize top : Half) :
    (usbdEpSetup addr type maxSize top v).1 = (usbdEpSetup addr type maxSize top u).1 ∧
      (usbdEpSetup addr type maxSize top u).2.Alike full
        (usbdEpSetup addr type maxSize top v).2 := by
  unfold usbdEpSetup
  dsimp only
  generalize (addr &&& 0x7f).toNat = ep
  have hassign : (usbSetEpType ep (typelookup type) (usbSetEpAddr ep (BitVec.ofNat 16 ep) u)).Alike
      full (usbSetEpType ep (typelookup type) (usbSetEpAddr ep (BitVec.ofNat 16 ep) v)) :=
    (h.rmw ep (setAddrVal · (BitVec.ofNat 16 ep))).rmw ep (setTypeVal · (typelookup type))
  generalize usbSetEpType ep (typelookup type) (usbSetEpAddr ep (BitVec.ofNat 16 ep) u) = u' at *
  generalize usbSetEpType ep (typelookup type) (usbSetEpAddr ep (BitVec.ofNat 16 ep) v) = v' at *
  have htx := epSetupTx_alike hassign ep maxSize top
  by_cases hdir : addr &&& 0x80 ≠ 0
  · have htransmit : addr &&& 0x80 ≠ 0 ∨ ep = 0 := .inl hdir
    simp only [if_pos htransmit, if_pos hdir]
    exact ⟨rfl, htx⟩
  · simp only [if_neg hdir]
    by_cases htransmit : addr &&& 0x80 ≠ 0 ∨ ep = 0
    · simp only [if_pos htransmit]
      exact ⟨rfl, epSetupRx_alike htx ep maxSize (top + maxSize)⟩
    · simp only [if_neg htransmit]
      exact ⟨rfl, epSetupRx_alike hassign ep maxSize top⟩

theorem pollReset_alike (h : σ.Alike full F τ) : (pollReset σ).Alike full F (pollReset τ) := by
  have hack : (clrIstr usbIstrReset σ.usb).Alike full (clrIstr usbIstrReset τ.usb) :=
    h.usb.setReg _ _
  obtain ⟨htop, hsetup⟩ := usbdEpSetup_alike hack 0 usbEndpointAttrControl
    (bMaxPacketSize0.setWidth 16) usbdPmTop
  unfold pollReset
  dsimp only
  rw [h.pipe, htop]
  exact (h.setPipe _).setUsb (hsetup.setReg usbDaddrReg usbDaddrEf)

theorem storeRx_alike {u v : UsbPeriph} (h : u.Alike full v) (bytes : List Byte) :
    (storeRx bytes u).Alike full (storeRx bytes v) := by
  refine ⟨h.reg, ?_, fun hf => by rw [h.all hf]⟩
  show Function.update v.desc (v.descOff 0 6)
    ((v.desc (v.descOff 0 6) &&& 0xFC00) ||| (BitVec.ofNat 16 bytes.length &&& 0x3ff)) = _
  rw [h.desc, h.descOff]
  rfl

theorem Dev.Alike.onBus (h : σ.Alike full F τ) (e : Event) :
    (σ.onBus e).Alike full F (τ.onBus e) := by
  refine h.setUsb ?_
  cases e with
  | reset =>
      refine ⟨?_, h.usb.desc, fun hf => congrArg hwReset (h.usb.all hf)⟩
      simp only [hw, hwReset, h.usb.reg]
  | setup p =>
      have hrx := storeRx_alike h.usb p.bytes
      refine ⟨?_, hrx.desc, fun hf => congrArg (hwSetup p.bytes) (h.usb.all hf)⟩
      simp only [hw, hwSetup, hrx.reg]
  | out pkt =>
      have hrx := storeRx_alike h.usb pkt.bytes
      refine ⟨?_, hrx.desc, fun hf => congrArg (hwOut pkt.bytes) (h.usb.all hf)⟩
      simp only [hw, hwOut, hrx.reg]
  | inDone =>
      refine ⟨?_, h.usb.desc, fun hf => congrArg hwIn (h.usb.all hf)⟩
      simp only [hw, hwIn, h.usb.reg]
  | flags f =>
      refine ⟨?_, h.usb.desc, fun hf => congrArg (hwFlags f) (h.usb.all hf)⟩
      simp only [hw, hwFlags, h.usb.reg]

/-- In an OUT data stage the two devices have received the same bytes. -/
structure Dev.Received (σ τ : Dev) : Prop where
  same : σ.pipe.usbFsmState = .dataOut ∨ σ.pipe.usbFsmState = .lastDataOut →
    σ.pipe.datasize.toNat ≤ σ.pipe.usbReq.wLength.toNat ∧
      ∀ i < σ.pipe.datasize.toNat, τ.usbdControlBuffer i = σ.usbdControlBuffer i
  last : σ.pipe.usbFsmState = .lastDataOut →
    σ.pipe.usbReq.wLength.toNat ≤ σ.pipe.datasize.toNat + 64

/-- Outside an OUT data stage there is nothing to compare. -/
theorem Dev.Received.of_noDataOut (h : σ.NoDataOut) : σ.Received τ :=
  ⟨fun hstage => absurd hstage (not_or.mpr ⟨h.more, h.last⟩), fun hlast => absurd hlast h.last⟩

theorem setupStage_received (cfg : Config) (p : UsbSetupData) (σ τ : Dev) :
    (σ.setupStage cfg p).Received τ := by
  unfold Dev.setupStage
  split
  · exact .of_noDataOut (usbControlSetupRead_noDataOut _ σ)
  · unfold usbControlSetupWrite
    dsimp only
    split
    · exact .of_noDataOut (stallTransaction_noDataOut σ)
    · refine ⟨fun _ => ⟨Nat.zero_le _, fun i hi => absurd hi (Nat.not_lt_zero i)⟩, fun hlast => ?_⟩
      have hfsm : (if (bMaxPacketSize0.setWidth 16 : Half) < σ.pipe.usbReq.wLength
          then UsbFsmState.dataOut else .lastDataOut) = .lastDataOut := hlast
      split at hfsm
      · cases hfsm
      · next hle =>
        show σ.pipe.usbReq.wLength.toNat ≤ 0 + 64
        exact Nat.not_lt.mp hle

/-- A chunk that is taken is the same on both devices. -/
theorem usbControlRecvChunk_received (hpipe : τ.pipe = σ.pipe) (h : σ.Received τ)
    (hstage : σ.pipe.usbFsmState = .dataOut ∨ σ.pipe.usbFsmState = .lastDataOut)
    (hσ : (σ.usb.ep 0).statRx = 2) (hτ : (τ.usb.ep 0).statRx = 2)
    (hpacket : τ.usb.rxPacket 0 = σ.usb.rxPacket 0) (htaken : 0 ≤ (usbControlRecvChunk σ).1) :
    let σ' := (usbControlRecvChunk σ).2
    let τ' := (usbControlRecvChunk τ).2
    σ'.pipe.usbFsmState = σ.pipe.usbFsmState ∧ σ'.pipe.usbReq = σ.pipe.usbReq ∧
      σ'.pipe.datasize.toNat =
        σ.pipe.datasize.toNat + min 64 (σ.pipe.usbReq.wLength.toNat - σ.pipe.datasize.toNat) ∧
      ∀ i < σ'.pipe.datasize.toNat, τ'.usbdControlBuffer i = σ'.usbdControlBuffer i := by
  obtain ⟨hle, hsame⟩ := h.same hstage
  let n := σ.pipe.datasize.toNat
  let e := min 64 (σ.pipe.usbReq.wLength.toNat - n)
  by_cases hfull : e ≤ (σ.usb.rxPacket 0).length
  · obtain ⟨u, -, -, -, hrecv⟩ := usbControlRecvChunk_full (n := n) rfl hle hσ hfull
    obtain ⟨v, -, -, -, hrecv'⟩ := usbControlRecvChunk_full (σ := τ) (n := n)
      (by rw [hpipe]) (by rw [hpipe]; exact hle) hτ (by rw [hpipe, hpacket]; exact hfull)
    have hwlt := σ.pipe.usbReq.wLength.isLt
    have hsize : (BitVec.ofNat 16 (n + e) : Half).toNat = n + e := by
      rw [BitVec.toNat_ofNat]
      exact Nat.mod_eq_of_lt (by omega)
    rw [hrecv, hrecv', hpacket, hpipe]
    refine ⟨rfl, rfl, hsize, fun i hi => ?_⟩
    have hi' : i < n + e := hsize ▸ hi
    show τ.usbdControlBuffer.write n ((σ.usb.rxPacket 0).take e) i =
      σ.usbdControlBuffer.write n ((σ.usb.rxPacket 0).take e) i
    rw [Mem.write_apply, Mem.write_apply]
    split
    · next hni =>
      have hlt : i - n < ((σ.usb.rxPacket 0).take e).length := by
        rw [List.length_take]
        omega
      rw [List.getElem?_eq_getElem hlt]
      rfl
    · next hni => exact hsame i (Nat.not_le.mp hni)
  · obtain ⟨u, hrecv⟩ := usbControlRecvChunk_short (n := n) rfl hle hσ (Nat.not_le.mp hfull)
    rw [hrecv] at htaken
    exact absurd (show (0 : Int) ≤ -1 from htaken) (by decide)

/-- The last chunk completes the same bytes on both devices. -/
theorem usbControlRecvChunk_sameCopy (hpipe : τ.pipe = σ.pipe) (h : σ.Received τ)
    (hfsm : σ.pipe.usbFsmState = .lastDataOut) (hσ : (σ.usb.ep 0).statRx = 2)
    (hτ : (τ.usb.ep 0).statRx = 2) (hpacket : τ.usb.rxPacket 0 = σ.usb.rxPacket 0)
    (htaken : 0 ≤ (usbControlRecvChunk σ).1) :
    (usbControlRecvChunk σ).2.SameCopy (usbControlRecvChunk τ).2
      (usbControlRecvChunk σ).2.pipe.usbReq.wLength := by
  obtain ⟨-, hreq, hsize, hsame⟩ :=
    usbControlRecvChunk_received hpipe h (.inr hfsm) hσ hτ hpacket htaken
  have hlast := h.last hfsm
  have hle := (h.same (.inr hfsm)).1
  rw [hreq]
  refine fun _ i hi => hsame i ?_
  have hi' : i < σ.pipe.usbReq.wLength.toNat := Nat.lt_of_lt_of_le hi (Nat.min_le_left _ _)
  omega

theorem usbdControlOut_received (cfg : Config) (h : σ.Alike full F τ) (hrec : σ.Received τ)
    (hσ : (σ.usb.ep 0).statRx = 2) (hpacket : τ.usb.rxPacket 0 = σ.usb.rxPacket 0) :
    (usbdControlOut cfg σ).Received (usbdControlOut cfg τ) := by
  have hτ : (τ.usb.ep 0).statRx = 2 := by rw [h.usb.ep, hσ]
  obtain ⟨hr, hout⟩ := usbControlRecvChunk_alike h
  have hτfsm : τ.pipe.usbFsmState = σ.pipe.usbFsmState := congrArg Pipe.usbFsmState h.pipe
  cases hfsm : σ.pipe.usbFsmState with
  | dataOut =>
      unfold usbdControlOut
      rw [hτfsm, hfsm]
      dsimp only
      rw [hr, hout.pipe]
      by_cases hneg : (usbControlRecvChunk σ).1 < 0
      · rw [if_pos hneg, if_pos hneg]
        exact .of_noDataOut (.of_fsm (usbControlRecvChunk_refused hneg) (by simp) (by simp))
      · obtain ⟨hstill, hreq, hsize, hsame⟩ := usbControlRecvChunk_received h.pipe hrec (.inl hfsm)
          hσ hτ hpacket (Int.not_lt.mp hneg)
        have hle := (hrec.same (.inl hfsm)).1
        rw [← hreq] at hle hsize
        rw [if_neg hneg, if_neg hneg]
        split
        · next hrem =>
          refine ⟨fun _ => ⟨?_, hsame⟩, fun _ => ?_⟩
          · show (usbControlRecvChunk σ).2.pipe.datasize.toNat ≤ _
            rw [hsize]
            show _ ≤ (usbControlRecvChunk σ).2.pipe.usbReq.wLength.toNat
            omega
          · rw [Pipe.remaining, show bMaxPacketSize0.toNat = 64 from rfl] at hrem
            show (usbControlRecvChunk σ).2.pipe.usbReq.wLength.toNat ≤
              (usbControlRecvChunk σ).2.pipe.datasize.toNat + 64
            omega
        · refine ⟨fun _ => ⟨?_, hsame⟩, fun hlast => ?_⟩
          · rw [hsize]
            omega
          · cases hfsm.symm.trans (hstill.symm.trans hlast)
  | _ => exact .of_noDataOut (usbdControlOut_noDataOut _ (by rw [hfsm]; simp))

/-- What an event asks of two devices in step: a DFU_DNLOAD in the IN direction
copies the same bytes. -/
def Dev.CopiesSame (σ τ : Dev) : Event → Prop
  | .setup p => p.DirIn → p.ClassInterface → DfuReq.ofByte p.bRequest = some .dnload →
      ∀ i < min p.wLength.toNat dfuTransferSize, τ.usbdControlBuffer i = σ.usbdControlBuffer i
  | _ => True

/-- The read of a SETUP packet. -/
theorem readSetup_alike (h : σ.Alike full F τ) (p : UsbSetupData) {u v : UsbPeriph}
    (hσ : readSetup σ = (8, { σ with usb := u, pipe := { σ.pipe with
      usbCompleteCb := none, usbReq := p
      usbForceNak := Function.update σ.pipe.usbForceNak 0 true } }))
    (hτ : readSetup τ = (8, { τ with usb := v, pipe := { τ.pipe with
      usbCompleteCb := none, usbReq := p
      usbForceNak := Function.update τ.pipe.usbForceNak 0 true } })) :
    (σ.began p u).Alike full F (τ.began p v) := by
  have hnak := h.usb.rxStat 0 usbEpRxStatNak
  obtain ⟨-, -, hread⟩ := usbdEpReadPacket_alike hnak (Function.update σ.pipe.usbForceNak 0 true) 0
    σ.pipe.usbReq.toMem σ.pipe.usbReq.toMem 0 8
  have hu : (readSetup σ).2.usb = u := by rw [hσ]
  have hv : (readSetup τ).2.usb = v := by rw [hτ]
  have huv : u.Alike full v := by
    rw [← hu, ← hv]
    unfold readSetup
    dsimp only
    rw [h.pipe]
    exact hread
  have hset := (h.setPipe { σ.pipe with
    usbCompleteCb := none
    usbReq := p
    usbForceNak := Function.update σ.pipe.usbForceNak 0 true }).setUsb huv
  unfold Dev.began
  rw [h.pipe]
  exact hset.call fun _ => rfl

theorem Dev.Alike.tidy (h : σ.Alike full F τ) (hσ : σ.Tidy) : τ.Tidy where
  noReset := h.usb.noReset hσ.noReset
  others n h0 hn := by
    rw [h.usb.ep]
    exact hσ.others n h0 hn
  stale := by
    rw [h.usb.ep, h.pipe]
    exact hσ.stale

theorem setupStage_alike (hF : FlashRel cfg F) (h : σ.Alike full F τ) {p : UsbSetupData}
    (hreq : σ.pipe.usbReq = p) (hcopy : σ.CopiesSame τ (.setup p))
    (hup : full → SameUploads F (σ.setupStage cfg p).calls) :
    (σ.setupStage cfg p).Alike full F (τ.setupStage cfg p) := by
  unfold Dev.setupStage at hup ⊢
  split
  · next hread =>
    rw [if_pos hread] at hup
    refine usbControlSetupRead_alike hF h (fun hclass hdnload i hi => ?_) hup
    rw [hreq] at hclass hdnload hi
    rcases hread with hzero | hin
    · rw [hzero] at hi
      exact absurd hi (by simp)
    · exact hcopy hin hclass hdnload i hi
  · exact usbControlSetupWrite_alike h

/-- **A poll of two devices in step.** They stay in step, and in an OUT data
stage they have received the same bytes. -/
theorem poll_alike (hF : FlashRel cfg F) (hσ : σ.Tidy) (h : σ.Alike full F τ)
    (hrec : σ.Received τ) (e : Event) (hcopy : σ.CopiesSame τ e)
    (hup : full → SameUploads F (poll cfg σ e).calls) :
    (poll cfg σ e).Alike full F (poll cfg τ e) ∧ (poll cfg σ e).Received (poll cfg τ e) := by
  have hτ := h.tidy hσ
  have hbus := h.onBus e
  have htouch : (σ.onBus e).touch0.Alike full F (τ.onBus e).touch0 := hbus.setUsb (hbus.usb.touch 0)
  have hrest : e = .inDone ∨ e.IsFlags →
      (poll cfg σ e).Alike full F (poll cfg τ e) ∧ (poll cfg σ e).Received (poll cfg τ e) := by
    intro he
    cases hrx : (σ.usb.ep 0).ctrRx with
    | true =>
        have hτrx : (τ.usb.ep 0).ctrRx = true := by rw [h.usb.ep, hrx]
        rw [poll_refused hσ he hrx, poll_refused hτ he hτrx, hbus.usb.getReg]
        exact ⟨tail_alike (stallTransaction_alike htouch) _,
          .of_noDataOut (.of_fsm (s := .idle) rfl (by simp) (by simp))⟩
    | false =>
        have hτrx : (τ.usb.ep 0).ctrRx = false := by rw [h.usb.ep, hrx]
        by_cases hdone : e = .inDone ∨ (σ.usb.ep 0).ctrTx = true
        · have he' : e = .inDone ∨ e.IsFlags ∧ (σ.usb.ep 0).ctrTx = true :=
            hdone.elim .inl fun ht => he.imp_right fun hf => ⟨hf, ht⟩
          have hτe : e = .inDone ∨ e.IsFlags ∧ (τ.usb.ep 0).ctrTx = true := by
            rw [h.usb.ep]
            exact he'
          rw [poll_done hσ he' hrx, poll_done hτ hτe hτrx, hbus.usb.getReg]
          refine ⟨tail_alike (usbdControlIn_alike hF (hbus.setUsb (hbus.usb.rmw 0 clrTxCtrVal))) _, ?_⟩
          have hin := usbdControlIn_noDataOut cfg
            { σ.onBus e with usb := usbClrEpTxCtr 0 (σ.onBus e).usb }
          exact .of_noDataOut ⟨hin.more, hin.last⟩
        · obtain ⟨hne, hnone⟩ := not_or.mp hdone
          have hnone := Bool.eq_false_iff.mpr hnone
          have hτnone : (τ.usb.ep 0).ctrTx = false := by rw [h.usb.ep, hnone]
          have hflags := he.resolve_left hne
          rw [poll_quiet hσ hflags hrx hnone, poll_quiet hτ hflags hτrx hτnone, hbus.usb.getReg]
          exact ⟨tail_alike hbus _, hrec.same, hrec.last⟩
  cases e with
  | reset =>
      rw [poll_reset hσ.noReset, poll_reset hτ.noReset]
      exact ⟨pollReset_alike hbus, hrec.same, hrec.last⟩
  | setup p =>
      obtain ⟨u, -, -, hread, hpoll⟩ := poll_setup_exact cfg hσ.noReset p
      obtain ⟨v, -, -, hτread, hτpoll⟩ := poll_setup_exact cfg hτ.noReset p
      have hbegan := readSetup_alike htouch p hread hτread
      rw [hpoll] at hup
      rw [hpoll, hτpoll, hbus.usb.getReg]
      have hstage := setupStage_alike hF hbegan rfl hcopy hup
      have hrec' := setupStage_received cfg p (σ.began p u) ((τ.began p v).setupStage cfg p)
      exact ⟨tail_alike hstage _, hrec'.same, hrec'.last⟩
  | out pkt =>
      obtain ⟨hpacket, hep, hpoll⟩ := poll_out_exact cfg hσ.noReset pkt
      obtain ⟨hτpacket, hτep, hτpoll⟩ := poll_out_exact cfg hτ.noReset pkt
      have hstat : ((σ.onBus (.out pkt)).touch0.usb.ep 0).statRx = 2 := congrArg EpFields.statRx hep
      have hτstat : ((τ.onBus (.out pkt)).touch0.usb.ep 0).statRx = 2 := congrArg EpFields.statRx hτep
      have hsame := hτpacket.trans hpacket.symm
      have hrec' : (σ.onBus (.out pkt)).touch0.Received (τ.onBus (.out pkt)).touch0 :=
        ⟨hrec.same, hrec.last⟩
      rw [hpoll] at hup
      rw [hpoll, hτpoll, hbus.usb.getReg]
      have hout := usbdControlOut_alike hF htouch (fun hfsm htaken =>
        usbControlRecvChunk_sameCopy htouch.pipe hrec' hfsm hstat hτstat hsame htaken) hup
      have hdone := usbdControlOut_received cfg htouch hrec' hstat hsame
      exact ⟨tail_alike hout _, hdone.same, hdone.last⟩
  | inDone => exact hrest (.inl rfl)
  | flags f => exact hrest (.inr trivial)

end LnDso
