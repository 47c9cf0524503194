import LnDso.Logic.Lockstep

/-!
# Confidentiality without upload

Built without ENABLE_DFU_UPLOAD no request reads the application flash into
anything the host sees. Erase decisions do branch on it, but only flash and
time depend on them.
-/

namespace LnDso

open Lib

variable {cfg : Config} {σ τ : Dev}

/-- Anything but the upload of a block. -/
def Call.NotUpload : Call → Prop
  | .upload _ => False
  | _ => True

/-- No block has been uploaded. -/
def Dev.NoUpload (σ : Dev) : Prop := ∀ c ∈ σ.calls, c.NotUpload

theorem Dev.NoUpload.snoc {c : Call} (h : σ.NoUpload) (hcalls : τ.calls = σ.calls ++ [c])
    (hc : c.NotUpload) : τ.NoUpload := by
  intro d hd
  rw [hcalls] at hd
  rcases List.mem_append.mp hd with hold | hnew
  · exact h d hold
  · rw [List.mem_singleton.mp hnew]
    exact hc

theorem usbdfuControlRequest_noUpload (hbuild : cfg.enableDfuUpload = false) (h : σ.NoUpload) :
    (usbdfuControlRequest cfg σ).2.NoUpload := by
  unfold usbdfuControlRequest
  split
  · unfold dfuDnload
    dsimp only
    split
    · exact h
    · exact h.snoc rfl trivial
  · dsimp only
    split <;> exact h
  · exact h
  · exact h
  · unfold dfuUpload
    dsimp only
    split
    · exact h
    · rw [hbuild]
      exact h
  · exact h.snoc rfl trivial
  · exact h
  · exact h

theorem act_noUpload (hbuild : cfg.enableDfuUpload = false) (h : Act cfg σ τ) (hσ : σ.NoUpload) :
    τ.NoUpload := by
  cases h with
  | plumb hsame => exact fun c hc => hσ c (hsame.calls ▸ hc)
  | send => exact hσ.snoc rfl trivial
  | stall => exact hσ.snoc rfl trivial
  | forget => exact hσ
  | setup => exact hσ.snoc rfl trivial
  | pass => exact hσ.snoc rfl trivial
  | request =>
      exact usbdfuControlRequest_noUpload hbuild (hσ.snoc (τ := σ.toHandler) rfl trivial)
  | @complete cb stage =>
      cases cb
      have hstart : (σ.call (.complete stage)).NoUpload := hσ.snoc rfl trivial
      show (usbdfuGetstatusComplete cfg (σ.call (.complete stage))).NoUpload
      by_cases hs : (σ.call (.complete stage)).dfu.usbdfuState = .dfuDnbusy
      · exact hstart.snoc ((usbdfuGetstatusComplete_calls _ _).trans (if_pos hs)) trivial
      · rw [usbdfuGetstatusComplete_else hs]
        exact hstart

/-- Without ENABLE_DFU_UPLOAD no block is ever uploaded. -/
theorem run_noUpload (hbuild : cfg.enableDfuUpload = false) (hσ : σ.NoUpload) (es : List Event) :
    ((machine cfg).run σ es).NoUpload :=
  run_acts (fun _ h => h) (act_noUpload hbuild) hσ es

/-- Flashes that may hold anything. -/
def AnyFlash : Bool → Flash → Flash → Prop := fun _ _ _ => True

theorem anyFlash_rel (cfg : Config) : FlashRel cfg AnyFlash := ⟨fun _ _ _ _ => trivial, fun _ _ _ => trivial⟩

/-- Nothing the host or the firmware's own state shows tells `σ` and `τ` apart. -/
structure Dev.Indistinct (σ τ : Dev) : Prop where
  /-- Packets queued to the host, and the endpoint registers. -/
  usb : τ.usb = σ.usb
  /-- Stall decisions, among all the firmware did. -/
  calls : τ.calls = σ.calls
  usbdfuState : τ.dfu.usbdfuState = σ.dfu.usbdfuState
  usbFsmState : τ.pipe.usbFsmState = σ.pipe.usbFsmState

/-- **Confidentiality.** Built without ENABLE_DFU_UPLOAD, two devices that enter
the loop in the same state, whatever their flashes hold, cannot be told apart by
any sequence of bus events. -/
theorem confidential_without_upload (cfg : Config) (hbuild : cfg.enableDfuUpload = false)
    {σ : Dev} (hboot : σ.Boot) (m : Nor.Cells 32) (es : List Event) :
    ((machine cfg).run σ es).Indistinct ((machine cfg).run (σ.withCells m) es) := by
  let R : Dev → Dev → Prop := fun σ τ =>
    σ.Tidy ∧ σ.NoUpload ∧ σ.Alike True AnyFlash τ ∧ σ.Received τ
  have hstart : R σ (σ.withCells m) := by
    refine ⟨tidy_invariant cfg _ (.init hboot), ?_, ?_, ?_⟩
    · rw [Dev.NoUpload, hboot.calls]
      exact fun c hc => absurd hc List.not_mem_nil
    · exact ⟨⟨rfl, rfl, fun _ => rfl⟩, rfl, rfl, fun _ => rfl, fun _ => rfl, trivial⟩
    · exact .of_noDataOut (.of_fsm hboot.usbFsmState (by simp) (by simp))
  have hend : R ((machine cfg).run σ es) ((machine cfg).run (σ.withCells m) es) := by
    refine (machine cfg).run_lockstep (fun υ ω e hR => ?_) hstart es
    obtain ⟨htidy, hno, halike, hrec⟩ := hR
    have hno' : (poll cfg υ e).NoUpload := run_noUpload hbuild hno [e]
    have hcopy : υ.CopiesSame ω e := by
      cases e with
      | setup p => exact fun _ _ _ i _ => congrFun (halike.buffer trivial) i
      | _ => trivial
    obtain ⟨halike', hrec'⟩ := poll_alike (anyFlash_rel cfg) htidy halike hrec e hcopy
      fun _ b hb => absurd (hno' _ hb) not_false
    exact ⟨poll_tidy _ htidy e, hno', halike', hrec'⟩
  obtain ⟨-, -, halike, -⟩ := hend
  exact ⟨halike.usb.all trivial, halike.calls trivial, congrArg Dfu.usbdfuState halike.dfu,
    congrArg Pipe.usbFsmState halike.pipe⟩

/-- A blank part and a part with firmware, asked for their status and for a block. -/
theorem confidential_two_parts :
    ((machine .stm32f103).run (Dev.fresh fun _ => 0xff)
      [.reset, .setup ⟨0xA1, 3, 0, 0, 6⟩, .inDone, .setup ⟨0xA1, 2, 2, 0, 1024⟩]).Indistinct
    ((machine .stm32f103).run ((Dev.fresh fun _ => 0xff).withCells fun a =>
        if Config.stm32f103.App a then 0x42 else 0xff)
      [.reset, .setup ⟨0xA1, 3, 0, 0, 6⟩, .inDone, .setup ⟨0xA1, 2, 2, 0, 1024⟩]) :=
  confidential_without_upload .stm32f103 rfl (Dev.fresh_boot fun _ => 0xff) _ _

end LnDso
