import LnDso.Logic.Serving
import LnDso.Theorems.ManifestReset

/-!
# The bootloader serves DFU

Over every conversation of whole DFU requests the device stands for the server:
what it keeps, what it replies and when it resets are the server's. The downloads are
those of `FlashCmd`; between two requests anything may come that brings no other DFU
request, and polls without a packet anywhere.
-/

namespace LnDso

open Lib Lib.Packets FlashCmd

variable {cfg : Config} {s : DfuServer} {σ : Dev} {r : DfuRequest}

/-! ## Requests on the bus -/

/-- The request is none of DFU. -/
def UsbSetupData.Foreign (r : UsbSetupData) : Prop :=
  r.ClassInterface → DfuReq.ofByte r.bRequest = none

/-- The DFU code of a request. -/
def DfuRequest.code : DfuRequest → DfuReq
  | .download _ _ => .dnload
  | .leave _ _ => .dnload
  | .getstatus _ _ _ => .getstatus
  | .upload _ _ _ => .upload
  | .getstate _ _ _ => .getstate
  | .clrstatus _ _ => .clrstatus
  | .abort _ _ => .abort
  | .detach _ _ => .detach

/-- No DFU request is half sent, and the device stands for the server. -/
structure Represents (s : DfuServer) (σ : Dev) : Prop where
  tidy : σ.Tidy
  tracks : ∃ t, σ.Tracks t
  stays : σ.Stays UsbSetupData.Foreign (Stands s)

theorem Represents.run {s' : DfuServer} (h : Represents s σ) {es : List Event}
    (hstays : ((machine cfg).run σ es).Stays UsbSetupData.Foreign (Stands s')) :
    Represents s' ((machine cfg).run σ es) := by
  obtain ⟨t, ht⟩ := h.tracks
  obtain ⟨htidy, htracks⟩ := (machine cfg).run_account (R := fun t τ => τ.Tidy ∧ τ.Tracks t)
    Transfer.next (fun t τ e hτ => ⟨poll_tidy cfg hτ.1 e, poll_tracks cfg hτ.1 hτ.2 e⟩)
    ⟨h.tidy, ht⟩ es
  exact ⟨htidy, ⟨_, htracks⟩, hstays⟩

end LnDso
