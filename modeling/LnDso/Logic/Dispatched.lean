import LnDso.Logic.Applied

/-!
# The requests of a run

Which requests a run dispatches is a matter of its events and of the data stage
that is open. Outside dfuDNBUSY they are all that moves the DFU state.
-/

namespace LnDso

open Lib

variable {cfg : Config} {σ : Dev} {e : Event} {q : UsbSetupData}

/-- The request an event belongs to. -/
def Dev.request (σ : Dev) : Event → UsbSetupData
  | .setup p => p
  | _ => σ.pipe.usbReq

instance (σ : Dev) (e : Event) (q : UsbSetupData) : Decidable (σ.Dispatches e q) :=
  match e with
  | .setup p => inferInstanceAs (Decidable (q = p ∧ (p.wLength = 0 ∨ p.DirIn)))
  | .out pkt => inferInstanceAs (Decidable (q = σ.pipe.usbReq ∧ σ.pipe.usbFsmState = .lastDataOut ∧
      q.wLength.toNat - σ.pipe.datasize.toNat ≤ pkt.bytes.length))
  | .reset => inferInstanceAs (Decidable False)
  | .inDone => inferInstanceAs (Decidable False)
  | .flags _ => inferInstanceAs (Decidable False)

/-- The request that the event brings to its dispatch. -/
def Dev.dispatched? (σ : Dev) (e : Event) : Option UsbSetupData :=
  if σ.Dispatches e (σ.request e) then some (σ.request e) else none

/-- The requests dispatched in a run. -/
def dispatches (cfg : Config) : Dev → List Event → List UsbSetupData
  | _, [] => []
  | σ, e :: es => (σ.dispatched? e).toList ++ dispatches cfg (poll cfg σ e) es

/-- The DFU request that a request is, if it is one. -/
def UsbSetupData.dfuReq? (q : UsbSetupData) : Option DfuReq :=
  if q.ClassInterface then DfuReq.ofByte q.bRequest else none

theorem Dev.Dispatches.request (h : σ.Dispatches e q) : q = σ.request e := by
  cases e with
  | setup p => exact h.1
  | out pkt => exact h.1
  | _ => exact absurd h not_false

theorem dispatched?_eq_some : σ.dispatched? e = some q ↔ σ.Dispatches e q := by
  unfold Dev.dispatched?
  constructor
  · intro hsome
    split at hsome
    · next hq => exact Option.some.inj hsome ▸ hq
    · cases hsome
  · intro hq
    obtain rfl := hq.request
    exact if_pos hq

theorem dispatched?_eq_none : σ.dispatched? e = none ↔ ∀ q, ¬ σ.Dispatches e q := by
  rw [Option.eq_none_iff_forall_ne_some]
  exact forall_congr' fun q => not_congr dispatched?_eq_some

theorem UsbSetupData.dfuReq?_eq_some {r : DfuReq} :
    q.dfuReq? = some r ↔ q.ClassInterface ∧ DfuReq.ofByte q.bRequest = some r := by
  unfold UsbSetupData.dfuReq?
  split
  · next hclass => simp [hclass]
  · next hclass => simp [hclass]

/-! ## What a dispatch does to the DFU state -/

/-- A DFU request is handled by the DFU handler. -/
theorem dispatch_dfu_of_some (cfg : Config) {r : DfuReq} (h : σ.pipe.usbReq.dfuReq? = some r) :
    (usbControlRequestDispatch cfg σ).2.dfu = (usbdfuControlRequest cfg σ.toHandler).2.dfu := by
  obtain ⟨hclass, hreq⟩ := UsbSetupData.dfuReq?_eq_some.mp h
  rw [usbControlRequestDispatch_class hclass hreq]

/-- Any other request leaves the DFU state alone. -/
theorem dispatch_dfu_of_none (cfg : Config) (h : σ.pipe.usbReq.dfuReq? = none) :
    (usbControlRequestDispatch cfg σ).2.dfu = σ.dfu := by
  by_cases hclass : σ.pipe.usbReq.ClassInterface
  · have hreq : DfuReq.ofByte σ.pipe.usbReq.bRequest = none := by
      unfold UsbSetupData.dfuReq? at h
      rw [if_pos hclass] at h
      exact h
    rw [usbControlRequestDispatch_unknown hclass hreq]
    rfl
  · rw [usbControlRequestDispatch_pass hclass]
    exact (usbdStandardRequest_same cfg _).dfu

/-- UPLOAD moves the state to dfuUPLOAD-IDLE, or to dfuERROR if it is refused. -/
theorem dfuUpload_dfu (cfg : Config) (σ : Dev) :
    (dfuUpload cfg σ).dfu.prog = σ.dfu.prog ∧
      (dfuUpload cfg σ).dfu.usbdfuState = if σ.pipe.usbReq.wValue ≠ 0 ∧
          ¬ (cfg.enableDfuUpload = true ∧
            uploadGuard cfg (blockAddr σ.dfu.prog.addr σ.pipe.usbReq.wValue) = true)
        then .dfuError else .dfuUploadIdle := by
  let τ : Dev := σ.setDfuState .dfuUploadIdle
  unfold dfuUpload
  dsimp only
  by_cases hzero : σ.pipe.usbReq.wValue = 0
  · rw [if_pos (show τ.pipe.usbReq.wValue = 0 from hzero), if_neg fun h => h.1 hzero]
    exact ⟨rfl, rfl⟩
  rw [if_neg (show ¬ τ.pipe.usbReq.wValue = 0 from hzero)]
  cases hup : cfg.enableDfuUpload with
  | false =>
      rw [if_neg Bool.false_ne_true, if_pos ⟨hzero, by simp⟩]
      exact ⟨rfl, rfl⟩
  | true =>
      unfold dfuUploadBlock
      dsimp only
      rw [if_pos rfl]
      cases hguard : uploadGuard cfg (blockAddr σ.dfu.prog.addr σ.pipe.usbReq.wValue) with
      | true =>
          rw [if_pos (show uploadGuard cfg (blockAddr τ.dfu.prog.addr τ.pipe.usbReq.wValue) = true
            from hguard), if_neg fun h => h.2 ⟨rfl, rfl⟩]
          exact ⟨rfl, rfl⟩
      | false =>
          have hno : ¬ uploadGuard cfg (blockAddr τ.dfu.prog.addr τ.pipe.usbReq.wValue) = true :=
            Bool.eq_false_iff.mp hguard
          rw [if_neg hno, if_pos ⟨hzero, by simp⟩]
          exact ⟨rfl, rfl⟩

/-! ## One poll -/

/-- A request is dispatched with the DFU state as it is and all its data there;
what follows the handler leaves the DFU state and the reply alone. -/
theorem poll_dispatch (cfg : Config) (h : σ.Sound) (hq : σ.Dispatches e q) :
    ∃ ρ : Dev, ρ.pipe.usbReq = q ∧ ρ.dfu = σ.dfu ∧ ρ.flash = σ.flash ∧
      ρ.usbdControlBuffer = σ.stored e ∧
      (poll cfg σ e).dfu = (usbControlRequestDispatch cfg ρ).2.dfu ∧
      (poll cfg σ e).usbdControlBuffer = (usbControlRequestDispatch cfg ρ).2.usbdControlBuffer := by
  cases e with
  | setup p =>
      obtain ⟨rfl, hread⟩ := hq
      obtain ⟨u, -, -, -, hpoll⟩ := poll_setup_exact cfg h.tidy.noReset q
      let ρ : Dev := { σ.began q u with pipe := { (σ.began q u).pipe with dataoff := 0 } }
      refine ⟨ρ, rfl, rfl, rfl, rfl, ?_⟩
      rw [hpoll]
      by_cases hr : (usbControlRequestDispatch cfg ρ).1 = .notsupp
      · rw [setupStage_refused (ρ := (usbControlRequestDispatch cfg ρ).2) hread (Prod.ext hr rfl)]
        exact ⟨rfl, rfl⟩
      · rw [setupStage_answered (ρ := (usbControlRequestDispatch cfg ρ).2) hread rfl hr rfl]
        exact ⟨(answer_sameDfu q.wLength _).1, answer_buffer q.wLength _⟩
  | out pkt =>
      obtain ⟨rfl, hfsm, hfull⟩ := hq
      obtain ⟨t, hno | hopen⟩ := h.tracks
      · exact absurd hfsm hno.last
      have hreq := hopen.receiving.usbReq
      have hsize := hopen.receiving.datasize
      rw [hreq, hsize] at hfull
      obtain ⟨v, istr, hpoll⟩ := hopen.receiving.poll_last cfg (hopen.receiving.le_of_last hfsm) hfull
      refine ⟨σ.received v (σ.stored (.out pkt)), rfl, rfl, rfl, rfl, ?_⟩
      unfold Dev.stored
      rw [hreq, hsize, hpoll]
      dsimp only
      split
      · exact ⟨rfl, rfl⟩
      · exact ⟨rfl, rfl⟩
  | _ => exact absurd hq not_false

/-- Without a dispatch only the callback can move the DFU state, out of dfuDNBUSY. -/
theorem poll_dfu_of_none (cfg : Config) (h : σ.Sound) (hno : ∀ q, ¬ σ.Dispatches e q)
    (hs : σ.dfu.usbdfuState ≠ .dfuDnbusy) : (poll cfg σ e).dfu = σ.dfu := by
  obtain ⟨t, htracks⟩ := h.tracks
  cases poll_effect cfg h.tidy htracks e with
  | idle _ hpl => exact hpl.dfu
  | dispatch hq => exact absurd hq (hno _)
  | @complete ρ stage _ _ hpl hpl' =>
      have hidle : usbdfuGetstatusComplete cfg (ρ.call (.complete stage)) = ρ.call (.complete stage) :=
        usbdfuGetstatusComplete_else (by rw [Dev.call_dfu, hpl.dfu]; exact hs)
      rw [hpl'.dfu, hidle]
      exact hpl.dfu

end LnDso
