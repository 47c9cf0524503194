import LnDso.Logic.Steps

/-!
# What requests leave undisturbed

A property of DFU state and flash that the DFU requests of a kind and the
completion callback preserve is preserved by every poll, as long as the
requests on the bus are of that kind.
-/

namespace LnDso

open Lib

variable {cfg : Config} {Q : UsbSetupData → Prop} {P : Dfu → Flash → Prop} {σ : Dev}

/-- `P` survives the DFU requests in `Q` and the completion callback. -/
structure Stable (cfg : Config) (Q : UsbSetupData → Prop) (P : Dfu → Flash → Prop) : Prop where
  request : ∀ {σ : Dev}, σ.pipe.usbReq.ClassInterface → Q σ.pipe.usbReq → P σ.dfu σ.flash →
    P (usbdfuControlRequest cfg σ.toHandler).2.dfu (usbdfuControlRequest cfg σ.toHandler).2.flash
  complete : ∀ {σ : Dev}, P σ.dfu σ.flash →
    P (usbdfuGetstatusComplete cfg σ).dfu (usbdfuGetstatusComplete cfg σ).flash

/-- The property holds, and a request that still receives its data is in `Q`. -/
structure Dev.Stays (Q : UsbSetupData → Prop) (P : Dfu → Flash → Prop) (σ : Dev) : Prop where
  holds : P σ.dfu σ.flash
  more : σ.pipe.usbFsmState = .dataOut → Q σ.pipe.usbReq
  last : σ.pipe.usbFsmState = .lastDataOut → Q σ.pipe.usbReq

theorem Dev.Stays.of_noDataOut (hP : P σ.dfu σ.flash) (h : σ.NoDataOut) : σ.Stays Q P :=
  ⟨hP, fun hfsm => absurd hfsm h.more, fun hfsm => absurd hfsm h.last⟩

/-! ## Functions that dispatch nothing -/

theorem usbControlSendChunk_sameDfu (σ : Dev) :
    (usbControlSendChunk σ).dfu = σ.dfu ∧ (usbControlSendChunk σ).flash = σ.flash := by
  unfold usbControlSendChunk
  dsimp only
  split <;> exact ⟨rfl, rfl⟩

theorem answer_sameDfu (w : Half) (σ : Dev) :
    (σ.answer w).dfu = σ.dfu ∧ (σ.answer w).flash = σ.flash := by
  unfold Dev.answer
  dsimp only
  split
  · exact usbControlSendChunk_sameDfu _
  · exact ⟨rfl, rfl⟩

theorem answer_cb (w : Half) (σ : Dev) :
    (σ.answer w).pipe.usbCompleteCb = σ.pipe.usbCompleteCb := by
  unfold Dev.answer usbControlSendChunk
  dsimp only
  split
  · split <;> rfl
  · rfl

theorem answer_buffer (w : Half) (σ : Dev) :
    (σ.answer w).usbdControlBuffer = σ.usbdControlBuffer := by
  unfold Dev.answer usbControlSendChunk
  dsimp only
  split
  · split <;> rfl
  · rfl

/-! ## Dispatch -/

theorem usbControlRequestDispatch_stable (h : Stable cfg Q P) (hQ : Q σ.pipe.usbReq)
    (hP : P σ.dfu σ.flash) :
    P (usbControlRequestDispatch cfg σ).2.dfu (usbControlRequestDispatch cfg σ).2.flash := by
  have hstandard : ∀ τ : Dev, P τ.dfu τ.flash →
      P (usbdStandardRequest cfg τ).2.dfu (usbdStandardRequest cfg τ).2.flash := fun τ hτ => by
    have hsame := usbdStandardRequest_same cfg τ
    rw [hsame.dfu, hsame.flash]
    exact hτ
  unfold usbControlRequestDispatch
  dsimp only
  split
  · next hclass =>
    have hreq := h.request (σ := σ) hclass hQ hP
    split
    · next τ heq =>
      rw [show τ = (usbdfuControlRequest cfg σ.toHandler).2 from (congrArg Prod.snd heq).symm]
      exact hstandard _ hreq
    · next r τ _ heq =>
      rw [show τ = (usbdfuControlRequest cfg σ.toHandler).2 from (congrArg Prod.snd heq).symm]
      exact hreq
  · exact hstandard _ hP

theorem usbControlSetupRead_stable (h : Stable cfg Q P) (hQ : Q σ.pipe.usbReq)
    (hP : P σ.dfu σ.flash) :
    P (usbControlSetupRead cfg σ).dfu (usbControlSetupRead cfg σ).flash := by
  have hout := usbControlRequestDispatch_stable
    (σ := { σ with pipe := { σ.pipe with dataoff := 0 } }) h hQ hP
  rw [usbControlSetupRead_eq]
  dsimp only
  split
  · exact hout
  · rw [(answer_sameDfu _ _).1, (answer_sameDfu _ _).2]
    exact hout

/-- A SETUP of a request in `Q`. -/
theorem setupStage_stays (h : Stable cfg Q P) {p : UsbSetupData} (hreq : σ.pipe.usbReq = p)
    (hQ : Q p) (hP : P σ.dfu σ.flash) : (σ.setupStage cfg p).Stays Q P := by
  unfold Dev.setupStage
  split
  · exact .of_noDataOut (usbControlSetupRead_stable h (hreq ▸ hQ) hP)
      (usbControlSetupRead_noDataOut _ σ)
  · unfold usbControlSetupWrite
    split
    · exact .of_noDataOut hP (stallTransaction_noDataOut σ)
    · exact ⟨hP, fun _ => hreq ▸ hQ, fun _ => hreq ▸ hQ⟩

/-! ## The completion callback -/

theorem completeTransfer_stable (h : Stable cfg Q P) (stage : UsbFsmState) (hP : P σ.dfu σ.flash) :
    P (completeTransfer cfg stage σ).dfu (completeTransfer cfg stage σ).flash := by
  unfold completeTransfer
  split
  · next cb _ =>
    cases cb
    exact h.complete (σ := σ.call (.complete stage)) hP
  · exact hP

/-! ## OUT and IN -/

theorem usbdControlOut_stays (h : Stable cfg Q P) (hσ : σ.Stays Q P) :
    (usbdControlOut cfg σ).Stays Q P := by
  obtain ⟨hdfu, hflash, hreq⟩ := usbControlRecvChunk_sameDfu σ
  have hrecv : P (usbControlRecvChunk σ).2.dfu (usbControlRecvChunk σ).2.flash := by
    rw [hdfu, hflash]
    exact hσ.holds
  cases hfsm : σ.pipe.usbFsmState with
  | dataOut =>
      have hQ : Q (usbControlRecvChunk σ).2.pipe.usbReq := hreq ▸ hσ.more hfsm
      unfold usbdControlOut
      rw [hfsm]
      dsimp only
      split
      · exact ⟨hrecv, fun _ => hQ, fun _ => hQ⟩
      split
      · exact ⟨hrecv, fun _ => hQ, fun _ => hQ⟩
      · exact ⟨hrecv, fun _ => hQ, fun _ => hQ⟩
  | lastDataOut =>
      refine .of_noDataOut ?_ (usbdControlOut_noDataOut _ (by rw [hfsm]; simp))
      have hout := usbControlRequestDispatch_stable h (hreq ▸ hσ.last hfsm) hrecv
      by_cases hneg : (usbControlRecvChunk σ).1 < 0
      · unfold usbdControlOut
        rw [hfsm]
        dsimp only
        rw [if_pos hneg]
        exact hrecv
      · rw [usbdControlOut_last hfsm (Int.not_lt.mp hneg)]
        dsimp only
        split <;> exact hout
  | statusOut =>
      refine .of_noDataOut ?_ (usbdControlOut_noDataOut _ (by rw [hfsm]; simp))
      unfold usbdControlOut
      rw [hfsm]
      exact completeTransfer_stable h .statusOut hσ.holds
  | _ =>
      rw [usbdControlOut, hfsm]
      exact .of_noDataOut hσ.holds (stallTransaction_noDataOut σ)

theorem usbdControlIn_stays (h : Stable cfg Q P) (hP : P σ.dfu σ.flash) :
    (usbdControlIn cfg σ).Stays Q P := by
  refine .of_noDataOut ?_ (usbdControlIn_noDataOut _ σ)
  unfold usbdControlIn
  split
  · rw [(usbControlSendChunk_sameDfu σ).1, (usbControlSendChunk_sameDfu σ).2]
    exact hP
  · exact hP
  · have hcomplete := completeTransfer_stable h .statusIn hP
    dsimp only
    split <;> exact hcomplete
  · exact hP

/-! ## The poll -/

/-- A SETUP packet on the bus brings a request in `Q`. -/
def Event.Brings (Q : UsbSetupData → Prop) : Event → Prop
  | .setup p => Q p
  | _ => True

theorem poll_stays (h : Stable cfg Q P) (htidy : σ.Tidy) (hσ : σ.Stays Q P) {e : Event}
    (he : e.Brings Q) : (poll cfg σ e).Stays Q P := by
  have hpoll := poll_polled cfg htidy e
  generalize poll cfg σ e = τ at hpoll
  cases hpoll with
  | reset => exact ⟨hσ.holds, hσ.more, hσ.last⟩
  | @setup p u istr _ _ =>
      have hstage := setupStage_stays (σ := σ.began p u) h rfl he hσ.holds
      exact ⟨hstage.holds, hstage.more, hstage.last⟩
  | @out pkt u istr _ _ _ _ =>
      have hout := usbdControlOut_stays (σ := { σ with usb := u }) h ⟨hσ.holds, hσ.more, hσ.last⟩
      exact ⟨hout.holds, hout.more, hout.last⟩
  | stale => exact .of_noDataOut hσ.holds (.of_fsm (s := .idle) rfl (by simp) (by simp))
  | @inDone _ u istr _ _ _ _ =>
      have hin := usbdControlIn_stays (σ := { σ with usb := u }) h hσ.holds
      exact ⟨hin.holds, hin.more, hin.last⟩
  | quiet => exact ⟨hσ.holds, hσ.more, hσ.last⟩

end LnDso
