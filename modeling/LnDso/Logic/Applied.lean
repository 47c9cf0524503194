import LnDso.Logic.Blocks
import LnDso.Logic.Effects
import LnDso.Logic.Stable

/-!
# Polls that run the DNBUSY branch

The record of calls shows whether a poll has run the DNBUSY branch. Such a poll
leaves the flash and the address pointer as functions of the state before it.
-/

namespace LnDso

open Lib

variable {cfg : Config} {σ τ : Dev} {e : Event}

/-! ## The controller between polls -/

/-- Requests and the callback leave the controller locked and at rest. -/
theorem idle_stable (cfg : Config) : Stable cfg (fun _ => True) fun _ fl => fl.Idle where
  request := fun {σ} _ _ h => (usbdfuControlRequest_over cfg (σ := σ.toHandler) ⟨h, rfl⟩).rest
  complete := usbdfuGetstatusComplete_idle cfg

/-- What every reachable state provides. -/
structure Dev.Sound (σ : Dev) : Prop where
  tidy : σ.Tidy
  tracks : ∃ t, σ.Tracks t
  idle : σ.flash.Idle

theorem sound_invariant (cfg : Config) : (machine cfg).Invariant Dev.Sound := by
  intro σ hσ
  obtain ⟨htidy, htracks⟩ := tracks_invariant cfg σ hσ
  refine ⟨htidy, htracks, ?_⟩
  suffices h : (machine cfg).Invariant fun σ =>
      σ.Tidy ∧ σ.Stays (fun _ => True) fun _ fl => fl.Idle from (h σ hσ).2.holds
  refine TSys.Inductive.invariant ⟨fun τ hboot => ?_, fun τ e h => ?_⟩
  · exact ⟨tidy_invariant cfg τ (.init hboot), hboot.flash, fun _ => trivial, fun _ => trivial⟩
  · refine ⟨poll_tidy cfg h.1 e, poll_stays (idle_stable cfg) h.1 h.2 ?_⟩
    cases e <;> trivial

theorem Dev.Sound.poll (cfg : Config) (h : σ.Sound) (e : Event) : (poll cfg σ e).Sound := by
  obtain ⟨htidy, ⟨t, htracks⟩, hidle⟩ := h
  refine ⟨poll_tidy cfg htidy e, ⟨_, poll_tracks cfg htidy htracks e⟩, ?_⟩
  have hbrings : e.Brings fun _ => True := by cases e <;> trivial
  exact (poll_stays (idle_stable cfg) htidy ⟨hidle, fun _ => trivial, fun _ => trivial⟩ hbrings).holds

/-! ## A run of the branch -/

/-- Between the two states the DNBUSY branch has run. -/
def Dev.RunsDnbusy (σ τ : Dev) : Prop := ∃ l b, τ.calls = σ.calls ++ l ∧ .dnbusy b ∈ l

theorem Call.Plain.notDnbusy {c : Call} (h : c.Plain) : c.NotDnbusy := by
  cases c <;> first | exact trivial | exact absurd h not_false

theorem Dev.Records.not_runs (h : σ.Records Call.NotDnbusy τ) : ¬ σ.RunsDnbusy τ := by
  rintro ⟨l, b, hl, hb⟩
  exact h.mem hl hb

/-- The branch has run on the block of `σ`. -/
structure Dev.Applies (cfg : Config) (σ τ : Dev) : Prop where
  state : σ.dfu.usbdfuState = .dfuDnbusy
  flash : τ.flash.IdleOver (dnbusyCells cfg σ.dfu σ.flash.mem)
  addr : τ.dfu.prog.addr = σ.dfu.nextAddr

/-- A poll that runs the branch is one that runs the callback. -/
theorem Effect.dnbusy (h : Effect cfg σ e τ) (hrun : σ.RunsDnbusy τ) :
    ∃ (ρ : Dev) (stage : UsbFsmState), σ.Completes stage ∧ ρ.dfu = σ.dfu ∧ ρ.flash = σ.flash ∧
      σ.dfu.usbdfuState = .dfuDnbusy ∧ (usbdfuGetstatusComplete cfg ρ).Plumbed τ := by
  have hplain : ∀ {υ ω : Dev}, υ.Plumbed ω → υ.Records Call.NotDnbusy ω :=
    fun hpl => hpl.calls.mono fun _ hc => hc.notDnbusy
  cases h with
  | idle _ hpl => exact absurd hrun (hplain hpl).not_runs
  | @dispatch ρ _ hpl _ hpl' =>
      have hcall : ρ.Records Call.NotDnbusy (ρ.call (.dispatch ρ.pipe.usbReq ρ.usbdControlBuffer)) :=
        .one rfl trivial
      have hhandler := hcall.trans
        ((usbControlRequestDispatch_handles cfg ρ).calls.mono fun _ hc => hc.notDnbusy)
      exact absurd hrun ((hplain hpl).trans (hhandler.trans (hplain hpl'))).not_runs
  | @complete ρ stage _ hcompletes hpl hpl' =>
      let ρ' := ρ.call (.complete stage)
      have hdfu : ρ'.dfu = σ.dfu := hpl.dfu
      by_cases hs : ρ'.dfu.usbdfuState = .dfuDnbusy
      · exact ⟨ρ', stage, hcompletes, hdfu, hpl.flash, hdfu ▸ hs, hpl'⟩
      · have hcall : ρ.Records Call.NotDnbusy ρ' := .one rfl trivial
        rw [show usbdfuGetstatusComplete cfg ρ' = ρ' from usbdfuGetstatusComplete_else hs] at hpl'
        exact absurd hrun ((hplain hpl).trans (hcall.trans (hplain hpl'))).not_runs

/-- A poll that runs the branch applies the block that waits. -/
theorem poll_applies (h : σ.Sound) (hrun : σ.RunsDnbusy (poll cfg σ e)) :
    σ.Applies cfg (poll cfg σ e) := by
  obtain ⟨t, htracks⟩ := h.tracks
  obtain ⟨ρ, -, -, hdfu, hflash, hs, hpl⟩ := (poll_effect cfg h.tidy htracks e).dnbusy hrun
  have hs' : ρ.dfu.usbdfuState = .dfuDnbusy := hdfu ▸ hs
  have hover := usbdfuGetstatusComplete_over cfg hs' (m := σ.flash.mem)
    (by rw [hflash]; exact ⟨h.idle, rfl⟩)
  have haddr : (usbdfuGetstatusComplete cfg ρ).dfu.prog.addr = ρ.dfu.nextAddr :=
    usbdfuGetstatusComplete_addr hs'
  rw [hdfu] at hover haddr
  refine ⟨hs, ?_, ?_⟩
  · rw [hpl.flash]
    exact hover
  · rw [hpl.dfu]
    exact haddr

/-- And it goes to dfuDNLOAD-IDLE, whatever came of the block. -/
theorem poll_dnbusy_state (h : σ.Sound) (hrun : σ.RunsDnbusy (poll cfg σ e)) :
    (poll cfg σ e).dfu.usbdfuState = .dfuDnloadIdle := by
  obtain ⟨t, htracks⟩ := h.tracks
  obtain ⟨ρ, -, -, hdfu, -, hs, hpl⟩ := (poll_effect cfg h.tidy htracks e).dnbusy hrun
  rw [hpl.dfu, usbdfuGetstatusComplete_dnbusy (hdfu ▸ hs)]
  rfl

/-- The branch runs at the end of a status stage only. -/
theorem poll_dnbusy_completes (h : σ.Sound) (hrun : σ.RunsDnbusy (poll cfg σ e)) :
    ∃ stage, σ.Completes stage := by
  obtain ⟨t, htracks⟩ := h.tracks
  obtain ⟨-, stage, hcompletes, -⟩ := (poll_effect cfg h.tidy htracks e).dnbusy hrun
  exact ⟨stage, hcompletes⟩

/-! ## Polls that do not run it -/

theorem poll_records (cfg : Config) (h : σ.Sound) (e : Event) :
    σ.Records (fun _ => True) (poll cfg σ e) := by
  obtain ⟨t, htracks⟩ := h.tracks
  exact (poll_effect cfg h.tidy htracks e).records

theorem poll_notDnbusy (h : σ.Sound) (hno : ¬ σ.RunsDnbusy (poll cfg σ e)) :
    σ.Records Call.NotDnbusy (poll cfg σ e) := by
  obtain ⟨l, hl, -⟩ := poll_records cfg h e
  refine ⟨l, hl, fun c hc => ?_⟩
  cases c with
  | dnbusy b => exact absurd ⟨l, b, hl, hc⟩ hno
  | _ => trivial

/-- No request moves the address pointer or changes a cell. -/
theorem dispatch_kept (cfg : Config) (h : σ.flash.Idle) :
    (usbControlRequestDispatch cfg σ).2.dfu.prog.addr = σ.dfu.prog.addr ∧
      (usbControlRequestDispatch cfg σ).2.flash.mem = σ.flash.mem := by
  by_cases hclass : σ.pipe.usbReq.ClassInterface
  · cases hreq : DfuReq.ofByte σ.pipe.usbReq.bRequest with
    | none =>
        rw [usbControlRequestDispatch_unknown hclass hreq]
        exact ⟨rfl, rfl⟩
    | some r =>
        rw [usbControlRequestDispatch_class hclass hreq]
        exact ⟨usbdfuControlRequest_addr cfg σ.toHandler,
          (usbdfuControlRequest_over cfg (σ := σ.toHandler) ⟨h, rfl⟩).mem⟩
  · have hsame := usbdStandardRequest_same cfg (σ.call (.dispatch σ.pipe.usbReq σ.usbdControlBuffer))
    rw [usbControlRequestDispatch_pass hclass, hsame.dfu, hsame.flash]
    exact ⟨rfl, rfl⟩

/-- A poll that does not run the branch leaves the address pointer and the cells. -/
theorem poll_kept (h : σ.Sound) (hno : σ.Records Call.NotDnbusy (poll cfg σ e)) :
    (poll cfg σ e).dfu.prog.addr = σ.dfu.prog.addr ∧ (poll cfg σ e).flash.mem = σ.flash.mem := by
  obtain ⟨t, htracks⟩ := h.tracks
  cases poll_effect cfg h.tidy htracks e with
  | idle _ hpl =>
      rw [hpl.dfu, hpl.flash]
      exact ⟨rfl, rfl⟩
  | @dispatch ρ _ hpl _ hpl' =>
      obtain ⟨haddr, hmem⟩ := dispatch_kept cfg (σ := ρ) (hpl.flash ▸ h.idle)
      rw [hpl'.dfu, hpl'.flash, haddr, hmem, hpl.dfu, hpl.flash]
      exact ⟨rfl, rfl⟩
  | @complete ρ stage _ _ hpl hpl' =>
      let ρ' := ρ.call (.complete stage)
      have hs : ρ'.dfu.usbdfuState ≠ .dfuDnbusy := by
        intro hs
        -- the run would be on record
        have hcalls := usbdfuGetstatusComplete_calls cfg ρ'
        rw [if_pos hs] at hcalls
        obtain ⟨l, hl, -⟩ := hpl.calls
        obtain ⟨l', hl', -⟩ := hpl'.calls
        refine hno.mem (l := l ++ .complete stage :: .dnbusy ρ'.dfu.prog.block :: l')
          (c := .dnbusy ρ'.dfu.prog.block) ?_ (by simp)
        rw [hl', hcalls, Dev.call_calls, hl]
        simp
      rw [hpl'.dfu, hpl'.flash, usbdfuGetstatusComplete_else (σ := ρ') hs]
      exact ⟨congrArg (Prog.addr ∘ Dfu.prog) hpl.dfu, congrArg Flash.mem hpl.flash⟩

theorem run_kept (h : σ.Sound) {es : List Event}
    (hno : σ.Records Call.NotDnbusy ((machine cfg).run σ es)) :
    ((machine cfg).run σ es).dfu.prog.addr = σ.dfu.prog.addr ∧
      ((machine cfg).run σ es).flash.mem = σ.flash.mem := by
  induction es generalizing σ with
  | nil => exact ⟨rfl, rfl⟩
  | cons e es ih =>
      have hnext := h.poll cfg e
      obtain ⟨t, htracks⟩ := hnext.tracks
      have hrest := run_records cfg hnext.tidy htracks es
      have hstep := poll_kept h (hno.before (poll_records cfg h e) hrest)
      have hrun := ih hnext (hno.after (poll_records cfg h e) hrest)
      exact ⟨hrun.1.trans hstep.1, hrun.2.trans hstep.2⟩

/-! ## Seen in the record -/

/-- The block of a run of the DNBUSY branch. -/
def Call.dnbusyBlock? : Call → Option Block
  | .dnbusy b => some b
  | _ => none

theorem mem_calls_of_dnbusyBlock? {cs : List Call} {b : Block}
    (h : b ∈ cs.filterMap Call.dnbusyBlock?) : .dnbusy b ∈ cs := by
  obtain ⟨c, hc, hb⟩ := List.mem_filterMap.mp h
  cases c with
  | dnbusy b' => exact Option.some.inj hb ▸ hc
  | _ => cases hb

/-- A block whose run is recorded after `σ`. -/
theorem runsDnbusy_of_dnbusyBlock? (cfg : Config) (h : σ.Sound) {b : Block}
    (hb : b ∈ ((poll cfg σ e).calls.drop σ.calls.length).filterMap Call.dnbusyBlock?) :
    σ.RunsDnbusy (poll cfg σ e) := by
  obtain ⟨t, htracks⟩ := h.tracks
  obtain ⟨l, hl, -⟩ := (poll_effect cfg h.tidy htracks e).records
  rw [hl, List.drop_left] at hb
  exact ⟨l, b, hl, mem_calls_of_dnbusyBlock? hb⟩

/-- A download of `data` with block number `n`, up to the completion. -/
def download (n : Half) (data : Packet) : List Event :=
  [.setup ⟨0x21, 1, n, 0, BitVec.ofNat 16 data.bytes.length⟩, .out data, .inDone,
    .setup ⟨0xA1, 3, 0, 0, 6⟩, .inDone, .out (.ofBytes [])]

/-- The address pointer set to the first application page, then a data block
`data` up to the event that completes it. -/
def blockDue (data : Packet) : List Event :=
  [.reset] ++ download 0 (.ofBytes [0x21, 0x00, 0x20, 0x00, 0x08]) ++ (download 2 data).dropLast

end LnDso
