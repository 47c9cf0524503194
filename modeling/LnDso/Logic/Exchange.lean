import LnDso.Logic.Stable
import LnDso.Theorems.InStage

/-!
# Whole control transfers

A DFU request without OUT data, from its SETUP packet to the end of its status
stage: the handler runs once, at the SETUP, and the completion callback that it
has registered runs once, at the end.
-/

namespace LnDso

open Lib Lib.Packets UsbPeriph

variable {cfg : Config} {p : UsbSetupData} {q : DfuReq} {σ : Dev}

/-- What the DFU handler makes of the request `p` in state `σ`. -/
def Dev.handled (cfg : Config) (p : UsbSetupData) (σ : Dev) : Dev :=
  (usbdfuControlRequest cfg (σ.asked p).toHandler).2

/-- Nothing but the transfer has moved on. -/
structure Dev.Unmoved (σ τ : Dev) : Prop where
  dfu : τ.dfu = σ.dfu
  flash : τ.flash = σ.flash
  cb : τ.pipe.usbCompleteCb = σ.pipe.usbCompleteCb

theorem Dev.Unmoved.trans {τ υ : Dev} (h : σ.Unmoved τ) (h' : τ.Unmoved υ) : σ.Unmoved υ :=
  ⟨h'.dfu.trans h.dfu, h'.flash.trans h.flash, h'.cb.trans h.cb⟩

theorem Dev.Owes.fsm {ps : List (List Byte)} (h : σ.Owes ps) :
    σ.pipe.usbFsmState = .dataIn ∨ σ.pipe.usbFsmState = .lastDataIn := by
  rcases h with ⟨hfsm, -, -⟩ | ⟨hfsm, -⟩
  · exact .inl hfsm
  · exact .inr hfsm

instance (M w : Nat) (l : List Byte) : Decidable (NeedsZlp M w l) :=
  inferInstanceAs (Decidable (_ ∧ _ ∧ _))

/-- The packets of the reply `data` to a request for `w` bytes. -/
def replyPackets (w : Nat) (data : List Byte) : List (List Byte) :=
  packets 64 (decide (NeedsZlp 64 w data)) data

theorem replyPackets_eq {w : Nat} {data : List Byte} {zlp : Bool}
    (hzlp : zlp = true ↔ NeedsZlp 64 w data) : packets 64 zlp data = replyPackets w data := by
  have hneeds : zlp = decide (NeedsZlp 64 w data) := by
    rw [Bool.eq_iff_iff, decide_eq_true_iff]
    exact hzlp
  rw [replyPackets, hneeds]

end LnDso
