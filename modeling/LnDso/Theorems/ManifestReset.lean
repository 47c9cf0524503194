import LnDso.Logic.Effects
import LnDso.Logic.QuietPolls

/-!
# The reset and the reply before it

`runDfu` resets once it finds the DFU state in MANIFEST after a poll. The state
gets there while the request is dispatched; the reply, or the empty packet of
the status stage, is then only queued.
-/

namespace LnDso

open Lib

variable {cfg : Config} {σ : Dev}

/-- The loop of `runDfu`: the events handled when `_full_system_reset` is
reached, if it is. -/
def runDfu (cfg : Config) : Dev → List Event → Option (List Event)
  | _, [] => none
  | σ, e :: es =>
      let σ := poll cfg σ e
      -- USB device must detach, we just reset...
      if σ.dfu.usbdfuState = .dfuManifest then some [e]
      else (runDfu cfg σ es).map (e :: ·)

/-- The host sees the status stage of the transfer complete. -/
def Dev.StatusStage (σ : Dev) : Event → Prop
  | .out _ => σ.pipe.usbFsmState = .statusOut
  | .inDone => σ.pipe.usbFsmState = .statusIn
  | _ => False

def Event.IsSetup : Event → Prop
  | .setup _ => True
  | _ => False

/-- Among the events `pre` one moved the DFU state to MANIFEST, and the transfer
it belongs to has then completed its status stage. -/
def Delivered (cfg : Config) (σ : Dev) (pre : List Event) : Prop :=
  ∃ before move during status after, pre = before ++ move :: (during ++ status :: after) ∧
    ((machine cfg).run σ before).dfu.usbdfuState ≠ .dfuManifest ∧
    ((machine cfg).run σ (before ++ [move])).dfu.usbdfuState = .dfuManifest ∧
    (∀ e ∈ during, ¬ e.IsSetup) ∧
    ((machine cfg).run σ (before ++ move :: during)).StatusStage status

/-- The loop resets only once the reply has been delivered. -/
def ResetsAfterReply (cfg : Config) (σ : Dev) (es : List Event) : Prop :=
  ∀ pre, runDfu cfg σ es = some pre → Delivered cfg σ pre

/-- The event brings DFU_DETACH, or GETSTATUS in MANIFEST-SYNC, to its dispatch. -/
def Dev.Manifests (σ : Dev) (e : Event) : Prop :=
  ∃ q, σ.Dispatches e q ∧ q.ClassInterface ∧
    (DfuReq.ofByte q.bRequest = some .detach ∨
      DfuReq.ofByte q.bRequest = some .getstatus ∧ σ.dfu.usbdfuState = .dfuManifestSync)

/-! ## Who moves the state to MANIFEST -/

theorem dfuUpload_state (σ : Dev) : (dfuUpload cfg σ).dfu.usbdfuState ≠ .dfuManifest := by
  unfold dfuUpload dfuUploadBlock
  dsimp only
  split
  · simp
  split
  · split <;> simp
  · simp

theorem dfuGetstatus_state (h : σ.dfu.usbdfuState ≠ .dfuManifest) :
    (dfuGetstatus σ).dfu.usbdfuState = .dfuManifest ↔ σ.dfu.usbdfuState = .dfuManifestSync := by
  show (usbdfuGetstatus σ.dfu.usbdfuState).2.2 = .dfuManifest ↔ _
  cases hs : σ.dfu.usbdfuState with
  | dfuManifest => exact absurd hs h
  | _ => simp [usbdfuGetstatus]

theorem usbdfuControlRequest_manifest (h : σ.dfu.usbdfuState ≠ .dfuManifest) :
    (usbdfuControlRequest cfg σ).2.dfu.usbdfuState = .dfuManifest ↔
      DfuReq.ofByte σ.pipe.usbReq.bRequest = some .detach ∨
        DfuReq.ofByte σ.pipe.usbReq.bRequest = some .getstatus ∧
          σ.dfu.usbdfuState = .dfuManifestSync := by
  unfold usbdfuControlRequest
  cases hreq : DfuReq.ofByte σ.pipe.usbReq.bRequest with
  | none => simpa using h
  | some r =>
      cases r with
      | detach => simp
      | dnload =>
          unfold dfuDnload
          dsimp only
          split <;> simp
      | upload => simp [dfuUpload_state]
      | getstatus => simpa using dfuGetstatus_state h
      | clrstatus =>
          dsimp only
          split
          · simp
          · simpa using h
      | getstate => simpa using h
      | abort => simp

theorem dispatch_manifest (h : σ.dfu.usbdfuState ≠ .dfuManifest) :
    (usbControlRequestDispatch cfg σ).2.dfu.usbdfuState = .dfuManifest ↔
      σ.pipe.usbReq.ClassInterface ∧
        (DfuReq.ofByte σ.pipe.usbReq.bRequest = some .detach ∨
          DfuReq.ofByte σ.pipe.usbReq.bRequest = some .getstatus ∧
            σ.dfu.usbdfuState = .dfuManifestSync) := by
  have hhandler : σ.toHandler.dfu.usbdfuState ≠ .dfuManifest := h
  by_cases hclass : σ.pipe.usbReq.ClassInterface
  · cases hreq : DfuReq.ofByte σ.pipe.usbReq.bRequest with
    | none =>
        rw [usbControlRequestDispatch_unknown hclass hreq]
        simpa using hhandler
    | some r =>
        rw [usbControlRequestDispatch_class hclass hreq, usbdfuControlRequest_manifest hhandler,
          show σ.toHandler.pipe.usbReq = σ.pipe.usbReq from rfl, hreq]
        exact (and_iff_right hclass).symm
  · rw [usbControlRequestDispatch_pass hclass, (usbdStandardRequest_same cfg _).dfu]
    exact iff_of_false h fun hboth => hclass hboth.1

/-- A poll moves the state to MANIFEST just if it dispatches one of the two requests. -/
theorem poll_manifest (cfg : Config) (htidy : σ.Tidy) {t : Transfer} (htracks : σ.Tracks t)
    (h : σ.dfu.usbdfuState ≠ .dfuManifest) (e : Event) :
    (poll cfg σ e).dfu.usbdfuState = .dfuManifest ↔ σ.Manifests e := by
  cases poll_effect cfg htidy htracks e with
  | idle hno hpl =>
      rw [hpl.dfu]
      refine iff_of_false h fun hman => ?_
      obtain ⟨q, hq, -⟩ := hman
      exact hno q hq
  | @complete ρ stage hno hcb hpl hpl' =>
      have hstate : (usbdfuGetstatusComplete cfg (ρ.call (.complete stage))).dfu.usbdfuState ≠
          .dfuManifest := by
        rw [usbdfuGetstatusComplete_state, Dev.call_dfu, hpl.dfu]
        split
        · simp
        · exact h
      rw [hpl'.dfu]
      refine iff_of_false hstate fun hman => ?_
      obtain ⟨q, hq, -⟩ := hman
      exact hno q hq
  | @dispatch ρ hq hpl hbuf hpl' =>
      rw [hpl'.dfu, dispatch_manifest (by rw [hpl.dfu]; exact h), hpl.dfu]
      constructor
      · intro hreq
        exact ⟨ρ.pipe.usbReq, hq, hreq⟩
      · rintro ⟨q, hq', hreq⟩
        obtain rfl : q = ρ.pipe.usbReq := hq'.unique hq
        exact hreq

/-! ## The loop -/

/-- The loop stops at the first poll that leaves MANIFEST. -/
theorem runDfu_first {es pre : List Event} (h : runDfu cfg σ es = some pre) :
    ∀ before move after, pre = before ++ move :: after → after ≠ [] →
      ((machine cfg).run σ (before ++ [move])).dfu.usbdfuState ≠ .dfuManifest := by
  induction es generalizing σ pre with
  | nil => simp [runDfu] at h
  | cons e es ih =>
      unfold runDfu at h
      dsimp only at h
      split at h
      · -- the loop stops here: nothing comes after
        rintro before move after hpre hne
        rw [← Option.some.inj h] at hpre
        cases before with
        | nil => exact absurd (List.cons.inj hpre).2.symm hne
        | cons x before => simp at hpre
      · next hrun =>
        obtain ⟨pre', hpre', rfl⟩ := Option.map_eq_some_iff.mp h
        intro before move after hpre hne
        cases before with
        | nil =>
            obtain ⟨rfl, -⟩ := List.cons.inj hpre
            exact hrun
        | cons x before =>
            obtain ⟨rfl, htail⟩ := List.cons.inj hpre
            exact ih hpre' before move after htail hne

/-- A loop that has polled on until the last event resets after it just if that has led
to MANIFEST. -/
theorem runDfu_concat (cfg : Config) (σ : Dev) (es : List Event) (e : Event)
    (hno : (runDfu cfg σ es).isNone) :
    runDfu cfg σ (es ++ [e]) =
      if ((machine cfg).run σ (es ++ [e])).dfu.usbdfuState = .dfuManifest then some (es ++ [e])
      else none := by
  induction es generalizing σ with
  | nil => rfl
  | cons e' es ih =>
      rw [List.cons_append, runDfu]
      unfold runDfu at hno
      dsimp only at hno ⊢
      split at hno
      · cases hno
      · next hstate =>
        rw [if_neg hstate, ih (poll cfg σ e') (by simpa using hno), TSys.run_cons]
        exact apply_ite _ _ _ _

theorem runDfu_snoc (cfg : Config) (σ : Dev) (es : List Event) (e : Event)
    (hno : (runDfu cfg σ es).isNone)
    (hlast : ((machine cfg).run σ (es ++ [e])).dfu.usbdfuState = .dfuManifest) :
    runDfu cfg σ (es ++ [e]) = some (es ++ [e]) :=
  (runDfu_concat cfg σ es e hno).trans (if_pos hlast)

/-- Where the loop resets, nothing has been delivered yet. -/
theorem runDfu_not_delivered {es pre : List Event} (h : runDfu cfg σ es = some pre) :
    ¬ Delivered cfg σ pre := by
  rintro ⟨before, move, during, status, after, hpre, -, hmove, -, -⟩
  exact runDfu_first h before move _ hpre (by simp) hmove

/-- The loop goes on polling just if no event brings one of the two requests. -/
theorem runDfu_none (cfg : Config) (htidy : σ.Tidy) {t : Transfer} (htracks : σ.Tracks t)
    (h : σ.dfu.usbdfuState ≠ .dfuManifest) (es : List Event) :
    runDfu cfg σ es = none ↔ (machine cfg).Admits (fun τ e => ¬ τ.Manifests e) σ es := by
  induction es generalizing σ t with
  | nil => simp [runDfu, TSys.Admits]
  | cons e es ih =>
      have hman := poll_manifest cfg htidy htracks h e
      unfold runDfu TSys.Admits
      dsimp only
      split
      · next hstate => exact iff_of_false (by simp) fun hadmits => hadmits.1 (hman.mp hstate)
      · next hstate =>
        rw [Option.map_eq_none_iff, ih (poll_tidy _ htidy e) (poll_tracks _ htidy htracks e) hstate]
        exact (and_iff_right fun hm => hstate (hman.mpr hm)).symm

/-- **Reset before the reply.** A run resets only after the reply has been
delivered just if it never resets at all: no event brings DFU_DETACH, or
GETSTATUS in MANIFEST-SYNC, to its dispatch. -/
theorem resets_after_reply (cfg : Config) (σ : Dev) (hboot : σ.Boot) (es : List Event) :
    ResetsAfterReply cfg σ es ↔
      (machine cfg).Admits (fun τ e => ¬ τ.Manifests e) σ es := by
  obtain ⟨htidy, htracks⟩ := run_tracks cfg hboot []
  rw [← runDfu_none cfg (σ := σ) htidy htracks (by rw [hboot.usbdfuState]; simp)]
  constructor
  · intro h
    cases hrun : runDfu cfg σ es with
    | none => rfl
    | some pre => exact absurd (h pre hrun) (runDfu_not_delivered hrun)
  · intro hnone pre hpre
    rw [hnone] at hpre
    cases hpre

/-- The rule on a GETSTATUS in dfuIDLE: the loop goes on. -/
theorem resets_after_reply_getstatus :
    ResetsAfterReply .stm32f103 (Dev.fresh fun _ => 0xff) [.reset, .setup ⟨0xA1, 3, 0, 0, 6⟩] := by
  refine (resets_after_reply .stm32f103 _ (Dev.fresh_boot _) _).mpr ⟨?_, ?_, trivial⟩
  · rintro ⟨q, hq, -⟩
    exact hq
  · rintro ⟨q, ⟨rfl, -⟩, -, hdetach | ⟨-, hsync⟩⟩
    · simp [DfuReq.ofByte] at hdetach
    · exact absurd hsync (by decide +kernel)

/-- A DFU_DETACH right after the bus reset: the device resets in the poll that
reads the SETUP packet, the status stage still to come. -/
theorem detach_resets_at_once :
    ¬ ∀ es, ResetsAfterReply .stm32f103 (Dev.fresh fun _ => 0xff) es := by
  intro h
  have hsome : (runDfu .stm32f103 (Dev.fresh fun _ => 0xff)
      [.reset, .setup ⟨0x21, 0, 0, 0, 0⟩]).isSome = true := by decide +kernel
  obtain ⟨pre, hpre⟩ := Option.isSome_iff_exists.mp hsome
  exact runDfu_not_delivered hpre (h _ pre hpre)

end LnDso
