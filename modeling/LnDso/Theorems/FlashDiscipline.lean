import LnDso.Logic.Applied

/-!
# Flash controller discipline

Erases start with the controller unlocked, PER set and PG clear, half-words are
programmed with the controller unlocked, PG set and PER clear, and neither while
BSY is set. Each flashing routine obeys this from a controller that is unlocked
and at rest, and leaves it so; `usbdfu_getstatus_complete` locks it again.
-/

namespace LnDso

open Lib Flash

/-- What the controller finds when an operation is asked of it. -/
def FlashOp.Disciplined : FlashOp → Prop
  | .erase cr bsy _ => cr.lock = false ∧ cr.per = true ∧ cr.pg = false ∧ bsy = false
  | .program cr bsy _ _ => cr.lock = false ∧ cr.pg = true ∧ cr.per = false ∧ bsy = false
  | .scan _ => True
  | .copy _ => True

/-- Between the two states there are only operations that meet `Q`. -/
def Flash.Asks (Q : FlashOp → Prop) (fl fl' : Flash) : Prop :=
  ∃ ops, fl'.log = fl.log ++ ops ∧ ∀ op ∈ ops, Q op

/-- Between the two states there are only disciplined operations. -/
abbrev Flash.Obeys : Flash → Flash → Prop := Flash.Asks FlashOp.Disciplined

variable {Q R : FlashOp → Prop} {fl fl' fl'' : Flash}

theorem Flash.Asks.refl (fl : Flash) : Asks Q fl fl := by
  refine ⟨[], (List.append_nil _).symm, ?_⟩
  intro op hop
  cases hop

theorem Flash.Asks.trans (h : Asks Q fl fl') (h' : Asks Q fl' fl'') : Asks Q fl fl'' := by
  obtain ⟨ops, hlog, hops⟩ := h
  obtain ⟨ops', hlog', hops'⟩ := h'
  refine ⟨ops ++ ops', by rw [hlog', hlog, List.append_assoc], ?_⟩
  intro op hop
  rcases List.mem_append.mp hop with hop | hop
  · exact hops op hop
  · exact hops' op hop

theorem Flash.Asks.one {op : FlashOp} (h : Q op) (hlog : fl'.log = fl.log ++ [op]) :
    Asks Q fl fl' := by
  refine ⟨[op], hlog, ?_⟩
  intro op' hop
  obtain rfl := List.mem_singleton.mp hop
  exact h

theorem Flash.Logs.asks (h : Logs Q fl fl') : Asks Q fl fl' := by
  obtain ⟨ops, hlog, hops, -⟩ := h.ops
  exact ⟨ops, hlog, hops⟩

/-! ## Flashing routines -/

theorem flashUnlock_asks (h : fl.Idle) : Asks Q fl (flashUnlock fl) :=
  (flashUnlock_logs (by rw [h.cr])).asks

theorem flashLock_asks (h : fl.Open) : Asks Q fl (flashLock fl) :=
  (flashLock_logs (by rw [h.cr])).asks

theorem flashPageIsErased_asks (a : Word) (hQ : ∀ a, Q (.scan a)) :
    Asks Q fl (flashPageIsErased a fl).2 :=
  (flashPageIsErased_logs fl fun _ _ => hQ _).asks

theorem flashErasePage_obeys (h : fl.Open) (a : Word) : fl.Obeys (flashErasePage a fl) := by
  obtain ⟨mem, cr, keyr, ar, bsy, log⟩ := fl
  obtain ⟨hcr, hkeyr, hbsy⟩ := h
  dsimp only at hcr hkeyr hbsy
  subst hcr hkeyr hbsy
  have hdisciplined : FlashOp.Disciplined (.erase ⟨false, true, true, false⟩ false a) :=
    ⟨rfl, rfl, rfl, rfl⟩
  exact .one hdisciplined rfl

theorem flashEraseIfNeeded_obeys (h : fl.Open) (a : Word) : fl.Obeys (flashEraseIfNeeded a fl) := by
  have hscan : fl.Obeys (flashPageIsErased a fl).2 := flashPageIsErased_asks a fun _ => trivial
  have hopen : (flashPageIsErased a fl).2.Open := (flashPageIsErased_over ⟨h, rfl⟩ a).rest
  unfold flashEraseIfNeeded
  dsimp only
  split
  · exact hscan
  · exact hscan.trans (flashErasePage_obeys hopen a)

theorem flashProgramBufferLoop_obeys (re : Half → Half → Half) (a : Word) (data : Mem) (n i : Nat)
    (hcr : fl.cr = ⟨false, false, false, true⟩) (hbsy : fl.bsy = false) :
    fl.Obeys (flashProgramBufferLoop re a data n i fl) := by
  induction n generalizing i fl with
  | zero => exact .refl fl
  | succ n ih =>
      rw [flashProgramBufferLoop]
      generalize Half.ofBytes (data (2 * i)) (data (2 * i + 1)) = v
      generalize a + BitVec.ofNat 32 (2 * i) = b
      have hstore : fl.Obeys (flashWaitForLastOperation (fl.storeHalf re b v)) := by
        have hdisciplined : FlashOp.Disciplined (.program fl.cr fl.bsy b v) := by
          rw [hcr, hbsy]
          exact ⟨rfl, rfl, rfl, rfl⟩
        refine .one hdisciplined ?_
        unfold flashWaitForLastOperation storeHalf
        rw [hcr]
        rfl
      have hkept : (flashWaitForLastOperation (fl.storeHalf re b v)).cr =
          ⟨false, false, false, true⟩ := by
        unfold flashWaitForLastOperation storeHalf
        rw [hcr]
        exact hcr
      exact hstore.trans (ih (i + 1) hkept rfl)

theorem flashProgramBuffer_obeys (h : fl.Open) (re : Half → Half → Half) (a : Word) (data : Mem)
    (len : Nat) : fl.Obeys (flashProgramBuffer re a data len fl) := by
  obtain ⟨mem, cr, keyr, ar, bsy, log⟩ := fl
  obtain ⟨hcr, hkeyr, hbsy⟩ := h
  dsimp only at hcr hkeyr hbsy
  subst hcr hkeyr hbsy
  let on : Flash := ⟨mem, ⟨false, false, false, true⟩, .idle, ar, false, log⟩
  have hloop : on.Obeys (flashProgramBufferLoop re a data (len / 2) 0 on) :=
    flashProgramBufferLoop_obeys re a data (len / 2) 0 rfl rfl
  obtain ⟨hcr, -⟩ := @flashProgramBufferLoop_cells on re a data (len / 2) 0 rfl rfl rfl
  have hoff : ∀ fl' : Flash, fl'.cr.strt = false →
      fl'.Obeys (fl'.writeCr { fl'.cr with pg := false }) :=
    fun fl' hs => (writeCr_silent (v := { fl'.cr with pg := false }) hs).asks
  have hboth := hloop.trans (hoff _ (by rw [hcr]))
  exact hboth

theorem checkDoEraseLoop_obeys (endAddr : Word) (n : Nat) (addr : Word) (h : fl.Open) :
    fl.Obeys (checkDoEraseLoop endAddr n addr fl) ∧ (checkDoEraseLoop endAddr n addr fl).Open := by
  induction n generalizing addr fl with
  | zero => exact ⟨.refl fl, h⟩
  | succ n ih =>
      rw [checkDoEraseLoop]
      split
      · have hpage := flashEraseIfNeeded_obeys h addr
        have hopen : (flashEraseIfNeeded addr fl).Open := (flashEraseIfNeeded_over ⟨h, rfl⟩ addr).rest
        obtain ⟨hrest, hopen'⟩ := ih (addr + 1024) hopen
        exact ⟨hpage.trans hrest, hopen'⟩
      · exact ⟨.refl fl, h⟩

theorem checkDoErase_obeys (cfg : Config) (erased : Bool) (h : fl.Open) :
    fl.Obeys (checkDoErase cfg erased fl).2 := by
  unfold checkDoErase
  cases erased with
  | true => exact .refl fl
  | false => exact (checkDoEraseLoop_obeys _ _ _ h).1

/-! ## The DNBUSY branch -/

variable {cfg : Config} {σ : Dev} {e : Event}

theorem safewriteErase_obeys (cfg : Config) (h : σ.flash.Open) :
    σ.flash.Obeys (safewriteErase cfg σ).flash := by
  unfold safewriteErase
  split
  · exact checkDoErase_obeys cfg σ.dfu.erased h
  · exact .refl σ.flash

theorem dnbusyCommand_obeys (h : σ.flash.Open) : σ.flash.Obeys (dnbusyCommand cfg σ).flash := by
  have hwipe := safewriteErase_obeys cfg h
  have hopen : (safewriteErase cfg σ).flash.Open := (safewriteErase_over cfg ⟨h, rfl⟩).rest
  unfold dnbusyCommand
  dsimp only
  split
  · split
    · exact hwipe.trans (flashEraseIfNeeded_obeys hopen _)
    · exact hwipe
  · split
    · exact .refl σ.flash
    · exact .refl σ.flash

theorem dnbusyBlock_obeys (h : σ.flash.Open) : σ.flash.Obeys (dnbusyBlock cfg σ).flash := by
  have hwipe := safewriteErase_obeys cfg h
  have hopen : (safewriteErase cfg σ).flash.Open := (safewriteErase_over cfg ⟨h, rfl⟩).rest
  unfold dnbusyBlock
  dsimp only
  split
  · have hpage := flashEraseIfNeeded_obeys hopen
    have hblank := fun a => (flashEraseIfNeeded_over ⟨hopen, rfl⟩ a).rest
    exact hwipe.trans ((hpage _).trans (flashProgramBuffer_obeys (hblank _) _ _ _ _))
  · exact hwipe

theorem dnbusy_obeys (cfg : Config) (h : σ.flash.Open) :
    σ.flash.Obeys (dnbusy cfg σ).flash := by
  unfold dnbusy
  split
  · exact dnbusyCommand_obeys h
  · exact dnbusyBlock_obeys h

theorem usbdfuGetstatusComplete_obeys (cfg : Config) (h : σ.flash.Idle) :
    σ.flash.Obeys (usbdfuGetstatusComplete cfg σ).flash := by
  by_cases hs : σ.dfu.usbdfuState = .dfuDnbusy
  · rw [usbdfuGetstatusComplete_dnbusy hs]
    let τ : Dev := { σ.call (.dnbusy σ.dfu.prog.block) with flash := flashUnlock σ.flash }
    have hunlock : σ.flash.Obeys τ.flash := flashUnlock_asks h
    have hopen : τ.flash.Open := (flashUnlock_over ⟨h, rfl⟩).rest
    have hrun : τ.flash.Obeys (dnbusy cfg τ).flash := dnbusy_obeys cfg hopen
    have hlock := flashLock_asks (Q := FlashOp.Disciplined) (dnbusy_over cfg ⟨hopen, rfl⟩).rest
    exact (hunlock.trans hrun).trans hlock
  · rw [usbdfuGetstatusComplete_else hs]
    exact .refl σ.flash

/-! ## Outside it -/

/-- The registers and the cells are the same, and between the two states
nothing was erased or programmed. -/
structure Flash.Untouched (fl fl' : Flash) : Prop where
  cr : fl'.cr = fl.cr
  keyr : fl'.keyr = fl.keyr
  ar : fl'.ar = fl.ar
  bsy : fl'.bsy = fl.bsy
  mem : fl'.mem = fl.mem
  asks : fl.Asks (fun op => ¬ op.Modifies) fl'

theorem Flash.Untouched.refl (fl : Flash) : fl.Untouched fl :=
  ⟨rfl, rfl, rfl, rfl, rfl, .refl fl⟩

theorem uploadLoads_ar (base : Word) (n i : Nat) (fl : Flash) :
    (uploadLoads base n i fl).ar = fl.ar := by
  induction n generalizing i fl with
  | zero => rfl
  | succ n ih => exact ih (i + 1) _

theorem usbdfuControlRequest_untouched (cfg : Config) (σ : Dev) :
    σ.flash.Untouched (usbdfuControlRequest cfg σ).2.flash := by
  have hasks : σ.flash.Asks (fun op => ¬ op.Modifies) (usbdfuControlRequest cfg σ).2.flash :=
    (usbdfuControlRequest_logs fun _ _ _ => not_false).asks
  rcases usbdfuControlRequest_flash cfg σ with hsame | ⟨base, hloads⟩
  · rw [hsame]
    exact .refl σ.flash
  · obtain ⟨hmem, hcr, hkeyr, hbsy⟩ := uploadLoads_fields base dfuTransferSize 0 σ.flash
    have har := uploadLoads_ar base dfuTransferSize 0 σ.flash
    rw [← hloads] at hmem hcr hkeyr hbsy har
    exact ⟨hcr, hkeyr, har, hbsy, hmem, hasks⟩

theorem usbControlRequestDispatch_untouched (cfg : Config) (σ : Dev) :
    σ.flash.Untouched (usbControlRequestDispatch cfg σ).2.flash := by
  by_cases hclass : σ.pipe.usbReq.ClassInterface
  · cases hreq : DfuReq.ofByte σ.pipe.usbReq.bRequest with
    | none =>
        rw [usbControlRequestDispatch_unknown hclass hreq]
        exact .refl σ.flash
    | some r =>
        rw [usbControlRequestDispatch_class hclass hreq]
        exact usbdfuControlRequest_untouched cfg σ.toHandler
  · rw [usbControlRequestDispatch_pass hclass, (usbdStandardRequest_same cfg _).flash]
    exact .refl σ.flash

/-- A poll that does not run the branch. -/
theorem Effect.untouched {τ : Dev} (h : Effect cfg σ e τ) (hno : ¬ σ.RunsDnbusy τ) :
    σ.flash.Untouched τ.flash := by
  cases h with
  | idle _ hpl =>
      rw [hpl.flash]
      exact .refl σ.flash
  | @dispatch ρ _ hpl _ hpl' =>
      rw [hpl'.flash, ← hpl.flash]
      exact usbControlRequestDispatch_untouched cfg ρ
  | @complete ρ stage _ _ hpl hpl' =>
      have hs : (ρ.call (.complete stage)).dfu.usbdfuState ≠ .dfuDnbusy := by
        intro hs
        apply hno
        obtain ⟨l, hl, -⟩ := hpl.calls
        obtain ⟨l', hl', -⟩ := hpl'.calls
        have hcalls := usbdfuGetstatusComplete_calls cfg (ρ.call (.complete stage))
        rw [if_pos hs, Dev.call_calls, hl] at hcalls
        rw [hcalls] at hl'
        refine ⟨l ++ [.complete stage, .dnbusy ρ.dfu.prog.block] ++ l', ρ.dfu.prog.block, ?_, ?_⟩
        · rw [hl']
          simp
        · simp
      rw [hpl'.flash, usbdfuGetstatusComplete_else hs, Dev.call_flash, hpl.flash]
      exact .refl σ.flash

/-! ## Every step -/

/-- Requests read the flash and the callback obeys, so that what has been
obeyed so far stays so. -/
theorem obeys_stable (cfg : Config) (fl : Flash) :
    Stable cfg (fun _ => True) fun _ fl' => fl.Obeys fl' ∧ fl'.Idle where
  request := by
    rintro σ - - ⟨hobeys, hidle⟩
    have hreads : σ.flash.Obeys (usbdfuControlRequest cfg σ.toHandler).2.flash :=
      (usbdfuControlRequest_logs (σ := σ.toHandler) fun _ _ _ => trivial).asks
    exact ⟨hobeys.trans hreads, (usbdfuControlRequest_over cfg (σ := σ.toHandler) ⟨hidle, rfl⟩).rest⟩
  complete := by
    rintro σ ⟨hobeys, hidle⟩
    exact ⟨hobeys.trans (usbdfuGetstatusComplete_obeys cfg hidle),
      usbdfuGetstatusComplete_idle cfg hidle⟩

theorem Dev.Sound.poll_obeys (cfg : Config) (h : σ.Sound) (e : Event) :
    σ.flash.Obeys (LnDso.poll cfg σ e).flash := by
  have hstart : σ.Stays (fun _ => True) fun _ fl' => σ.flash.Obeys fl' ∧ fl'.Idle :=
    ⟨⟨.refl σ.flash, h.idle⟩, fun _ => trivial, fun _ => trivial⟩
  have hbrings : e.Brings fun _ => True := by cases e <;> trivial
  exact (poll_stays (obeys_stable cfg σ.flash) h.tidy hstart hbrings).holds.1

theorem log_invariant (cfg : Config) :
    (machine cfg).Invariant fun σ => ∀ op ∈ σ.flash.log, op.Disciplined := by
  suffices h : (machine cfg).Invariant fun σ =>
      σ.Sound ∧ ∀ op ∈ σ.flash.log, op.Disciplined from fun σ hσ => (h σ hσ).2
  refine TSys.Inductive.invariant ⟨?_, ?_⟩
  · intro σ hboot
    refine ⟨sound_invariant cfg σ (.init hboot), ?_⟩
    rw [hboot.log]
    intro op hop
    cases hop
  · rintro σ e ⟨hsound, hlog⟩
    refine ⟨hsound.poll cfg e, ?_⟩
    obtain ⟨ops, hops, hobey⟩ := hsound.poll_obeys cfg e
    show ∀ op ∈ (LnDso.poll cfg σ e).flash.log, op.Disciplined
    rw [hops]
    intro op hop
    rcases List.mem_append.mp hop with hold | hnew
    · exact hlog op hold
    · exact hobey op hnew

/-- FLASH_CR with LOCK set, and PER and PG clear. -/
structure Flash.Relocked (fl : Flash) : Prop where
  lock : fl.cr.lock = true
  per : fl.cr.per = false
  pg : fl.cr.pg = false

theorem Flash.Idle.relocked (h : fl.Idle) : fl.Relocked := by
  obtain ⟨hcr, -, -⟩ := h
  constructor
  all_goals rw [hcr]

/-- What holds of the flash controller in `σ` and of the next step. -/
structure Dev.FlashDiscipline (cfg : Config) (σ : Dev) : Prop where
  log : ∀ op ∈ σ.flash.log, op.Disciplined
  relocked : σ.flash.Relocked
  /-- The callback, whatever the DFU state, the block and the cells. -/
  callback : ∀ ρ : Dev, ρ.flash.cr = σ.flash.cr → ρ.flash.keyr = σ.flash.keyr →
    ρ.flash.bsy = σ.flash.bsy → ρ.flash.Obeys (usbdfuGetstatusComplete cfg ρ).flash ∧
      (usbdfuGetstatusComplete cfg ρ).flash.Relocked
  step : ∀ e, σ.flash.Obeys (poll cfg σ e).flash
  outside : ∀ e, ¬ σ.RunsDnbusy (poll cfg σ e) → σ.flash.Untouched (poll cfg σ e).flash

theorem flash_discipline (cfg : Config) : (machine cfg).Invariant (Dev.FlashDiscipline cfg) := by
  intro σ hreach
  have hsound := sound_invariant cfg σ hreach
  refine ⟨log_invariant cfg σ hreach, hsound.idle.relocked, ?_, hsound.poll_obeys cfg, ?_⟩
  · intro ρ hcr hkeyr hbsy
    have hidle : ρ.flash.Idle :=
      ⟨hcr.trans hsound.idle.cr, hkeyr.trans hsound.idle.keyr, hbsy.trans hsound.idle.bsy⟩
    exact ⟨usbdfuGetstatusComplete_obeys cfg hidle, (usbdfuGetstatusComplete_idle cfg hidle).relocked⟩
  · intro e hno
    obtain ⟨t, htracks⟩ := hsound.tracks
    exact (poll_effect cfg hsound.tidy htracks e).untouched hno

end LnDso
