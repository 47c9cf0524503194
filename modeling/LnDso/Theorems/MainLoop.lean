import LnDso.Lib.Polling
import LnDso.Machine.Loop
import LnDso.Theorems.Animation
import LnDso.Theorems.ManifestReset
import LnDso.Theorems.Protection

/-!
# The whole loop

Whatever the host does until the reset, the frames come in their turn and are
those of the pictures in flash; and whatever is drawn, the host talks to the same
device.
-/

namespace LnDso

open Lib Flash

variable {cfg : Config} {flash : Mem} {g : Pictures} {σ : Dev} {β τ : Board} {start : Word}
  {l : List (Event × Nat)} {s : MainLoop}

/-! ## Pictures in the bootloader's own flash -/

/-- The tokens of the picture are below the application. -/
def Image.Kept (cfg : Config) (flash : Mem) (image : Image) (data : Nat) : Prop :=
  ∃ toks, convert image = some (Lzss.meaning toks) ∧ (∀ t ∈ toks, t.Fits 8 4) ∧
    flash.read data (Lzss.encode 8 4 toks).length = Lzss.encode 8 4 toks ∧ 0x08000000 ≤ data ∧
    data + (Lzss.encode 8 4 toks).length ≤ cfg.startAddr.toNat

structure Pictures.Kept (cfg : Config) (flash : Mem) (g : Pictures) : Prop where
  dfuUsb : g.dfuUsb.Kept cfg flash g.dfuUsbAt
  frame : ∀ i, (g.frame i).Kept cfg flash (g.frameAt i)

theorem Image.Kept.stored {image : Image} {data : Nat} (h : image.Kept cfg flash data) :
    image.Stored flash data := by
  obtain ⟨toks, hout, hfit, hread, -, -⟩ := h
  exact stored_encode _ hout hfit hread

theorem Pictures.Kept.in (h : g.Kept cfg flash) : g.In flash :=
  ⟨h.dfuUsb.stored, fun i => (h.frame i).stored⟩

/-- What spares the bootloader keeps its pictures. -/
theorem Image.Kept.spared {image : Image} {data : Nat} {fl fl' : Flash}
    (h : image.Kept cfg fl.bytes data) (hspares : Spares cfg.Boot fl fl') :
    image.Kept cfg fl'.bytes data := by
  obtain ⟨toks, hout, hfit, hread, hlo, hhi⟩ := h
  refine ⟨toks, hout, hfit, ?_, hlo, hhi⟩
  refine Eq.trans (List.map_congr_left fun i hi => ?_) hread
  have hlt := List.mem_range.mp hi
  have hstart := cfg.startAddr.isLt
  refine hspares.mem _ ⟨?_, ?_⟩
  · rw [BitVec.toNat_ofNat]
    omega
  · rw [BitVec.toNat_ofNat]
    omega

theorem Pictures.Kept.spared {fl fl' : Flash} (h : g.Kept cfg fl.bytes)
    (hspares : Spares cfg.Boot fl fl') : g.Kept cfg fl'.bytes :=
  ⟨h.dfuUsb.spared hspares, fun i => (h.frame i).spared hspares⟩

/-- No run of the device changes the pictures. -/
theorem Pictures.Kept.run (h : g.Kept cfg σ.flash.bytes) (hstrt : σ.flash.cr.strt = false)
    (es : List Event) : g.Kept cfg ((machine cfg).run σ es).flash.bytes :=
  h.spared (run_logs (allOps_sparesBoot cfg) hstrt es).spares

/-! ## One turn -/

/-- The frames drawn by the end of the turns. -/
def framesDrawn (l : List (Event × Nat)) : Nat := (Pace.run 100 (l.map Prod.snd)).done

/-- The loop after the turns `l`. -/
structure MainLoop.Stands (cfg : Config) (g : Pictures) (σ : Dev) (β : Board) (start : Word)
    (l : List (Event × Nat)) (s : MainLoop) : Prop where
  dev : s.dev = (machine cfg).run σ (l.map Prod.fst)
  live : runDfu cfg σ (l.map Prod.fst) = none
  sysTick : s.sysTick = start + BitVec.ofNat 32 (l.map Prod.snd).sum
  nextTick : s.nextTick = start + BitVec.ofNat 32 (100 * (framesDrawn l + 1))
  step : s.step = framesDrawn l % 6
  frames : s.frames = framesDrawn l
  shows : Shows β (g.screen (framesDrawn l)) s.board

/-- The `int` and the counter compare as their distances from the start. -/
theorem tick_lt {a b : Nat} (ha : start.toNat + a < 2 ^ 32) (hb : start.toNat + b < 2 ^ 32) :
    start + BitVec.ofNat 32 a < start + BitVec.ofNat 32 b ↔ a < b := by
  rw [BitVec.lt_def, BitVec.toNat_add, BitVec.toNat_add, BitVec.toNat_ofNat, BitVec.toNat_ofNat]
  omega

/-- The loop polls on after an event that does not lead to MANIFEST. -/
theorem runDfu_on (cfg : Config) (σ : Dev) (es : List Event) (e : Event)
    (hno : runDfu cfg σ es = none)
    (hlast : ((machine cfg).run σ (es ++ [e])).dfu.usbdfuState ≠ .dfuManifest) :
    runDfu cfg σ (es ++ [e]) = none :=
  (runDfu_concat cfg σ es e (by rw [hno]; rfl)).trans (if_neg hlast)

theorem framesDrawn_snoc (l : List (Event × Nat)) (e : Event) (ticks : Nat) :
    framesDrawn (l ++ [(e, ticks)]) =
      if 100 * (framesDrawn l + 1) < (l.map Prod.snd).sum + ticks then framesDrawn l + 1
      else framesDrawn l := by
  rw [framesDrawn, List.map_append, List.map_singleton, Pace.run_concat, Pace.turn,
    Pace.run_elapsed]
  rfl

theorem sum_snoc (l : List (Event × Nat)) (e : Event) (ticks : Nat) :
    ((l ++ [(e, ticks)]).map Prod.snd).sum = (l.map Prod.snd).sum + ticks := by
  rw [List.map_append, List.map_singleton, List.sum_append, List.sum_singleton]

namespace MainLoop

variable {animationStep : List IliHS} {fuel : Nat} {temp : Nat → Half} {e : Event} {ticks : Nat}

theorem turn_reset (hman : (poll cfg s.dev e).dfu.usbdfuState = .dfuManifest) :
    turn cfg animationStep fuel temp e ticks s = some .reset := if_pos hman

/-- The loop after a poll, with nothing drawn yet. -/
def polled (cfg : Config) (e : Event) (ticks : Nat) (s : MainLoop) : MainLoop :=
  { s with dev := poll cfg s.dev e, sysTick := s.sysTick + BitVec.ofNat 32 ticks }

theorem turn_wait (hman : (poll cfg s.dev e).dfu.usbdfuState ≠ .dfuManifest)
    (hno : ¬ s.nextTick < s.sysTick + BitVec.ofNat 32 ticks) :
    turn cfg animationStep fuel temp e ticks s = some (.on (s.polled cfg e ticks)) := by
  unfold turn
  dsimp only
  rw [if_neg hman, if_neg hno]
  rfl

theorem turn_frame (hman : (poll cfg s.dev e).dfu.usbdfuState ≠ .dfuManifest)
    (hpast : s.nextTick < s.sysTick + BitVec.ofNat 32 ticks) :
    turn cfg animationStep fuel temp e ticks s =
      (animate (IliHS.next (poll cfg s.dev e).flash.bytes) fuel animationStep temp s.step
        s.board).map fun r => .on { s.polled cfg e ticks with
          step := r.1, board := r.2, frames := s.frames + 1, nextTick := s.nextTick + 100 } := by
  unfold turn
  dsimp only
  rw [if_neg hman, if_pos hpast]
  rfl

/-- A turn resets as `runDfu` does, or the loop stands as it should. -/
theorem Stands.turn (h : Stands cfg g σ β start l s) (hkept : g.Kept cfg σ.flash.bytes)
    (hstrt : σ.flash.cr.strt = false) (e : Event) (ticks : Nat)
    (hroom : start.toNat + (l.map Prod.snd).sum + ticks + 100 < 2 ^ 31) (temp : Nat → Half) :
    ∃ fuel r, MainLoop.turn cfg g.animationStep fuel temp e ticks s = some r ∧
      (r = .reset ∧ runDfu cfg σ (l.map Prod.fst ++ [e]) = some (l.map Prod.fst ++ [e]) ∨
        ∃ u, r = .on u ∧ Stands cfg g σ β start (l ++ [(e, ticks)]) u) := by
  have hdev : poll cfg s.dev e = (machine cfg).run σ (l.map Prod.fst ++ [e]) := by
    rw [TSys.run_snoc, h.dev]
    rfl
  -- the reset comes before the frame: nothing is drawn in the last turn
  by_cases hman : (poll cfg s.dev e).dfu.usbdfuState = .dfuManifest
  · refine ⟨0, .reset, turn_reset hman, .inl ⟨rfl, ?_⟩⟩
    exact runDfu_snoc cfg σ _ e (by rw [h.live]; rfl) (hdev ▸ hman)
  have hlive : runDfu cfg σ (l.map Prod.fst ++ [e]) = none :=
    runDfu_on cfg σ _ e h.live (hdev ▸ hman)
  have hearly := Pace.run_early 100 (l.map Prod.snd)
  have htick : s.sysTick + BitVec.ofNat 32 ticks =
      start + BitVec.ofNat 32 ((l ++ [(e, ticks)]).map Prod.snd).sum := by
    rw [h.sysTick, sum_snoc, BitVec.ofNat_add, BitVec.add_assoc]
  -- `nextTick` is an `int` that is compared as unsigned; below 2 ^ 31 that is no difference
  have hcompare : s.nextTick < s.sysTick + BitVec.ofNat 32 ticks ↔
      100 * (framesDrawn l + 1) < (l.map Prod.snd).sum + ticks := by
    rw [htick, h.nextTick, sum_snoc]
    refine tick_lt ?_ (by omega)
    rw [framesDrawn]
    omega
  -- the pictures are read after the poll, from a flash that requests may have written
  have hnow : g.In (poll cfg s.dev e).flash.bytes := by
    rw [hdev]
    exact (hkept.run hstrt _).in
  rw [← List.map_singleton (f := Prod.fst) (a := (e, ticks)), ← List.map_append] at hdev hlive
  by_cases hpast : s.nextTick < s.sysTick + BitVec.ofNat 32 ticks
  · have hframes : framesDrawn (l ++ [(e, ticks)]) = framesDrawn l + 1 := by
      rw [framesDrawn_snoc, if_pos (hcompare.mp hpast)]
    have hnext : s.nextTick + 100 =
        start + BitVec.ofNat 32 (100 * (framesDrawn (l ++ [(e, ticks)]) + 1)) := by
      rw [hframes, h.nextTick, Nat.mul_succ 100 (framesDrawn l + 1), BitVec.ofNat_add,
        ← BitVec.add_assoc]
      rfl
    obtain ⟨fuel, υ, hanimate, hshows⟩ := hnow.animate_shows h.shows temp
    rw [← h.step] at hanimate
    refine ⟨fuel, _, (turn_frame hman hpast).trans (congrArg (Option.map _) hanimate),
      .inr ⟨_, rfl, hdev, hlive, htick, hnext, ?_, ?_, ?_⟩⟩
    · rw [hframes]
    · rw [hframes]
      exact congrArg (· + 1) h.frames
    · rw [hframes]
      exact hshows
  · have hframes : framesDrawn (l ++ [(e, ticks)]) = framesDrawn l := by
      rw [framesDrawn_snoc, if_neg fun hlt => hpast (hcompare.mpr hlt)]
    refine ⟨0, _, turn_wait hman hpast, .inr ⟨_, rfl, hdev, hlive, htick, ?_, ?_, ?_, ?_⟩⟩
    · rw [hframes]
      exact h.nextTick
    · rw [hframes]
      exact h.step
    · rw [hframes]
      exact h.frames
    · rw [hframes]
      exact h.shows

theorem turn_unique {fuel' : Nat} {r r' : Turned}
    (h : turn cfg animationStep fuel temp e ticks s = some r)
    (h' : turn cfg animationStep fuel' temp e ticks s = some r') : r = r' := by
  by_cases hman : (poll cfg s.dev e).dfu.usbdfuState = .dfuManifest
  · rw [turn_reset hman] at h h'
    exact Option.some.inj (h.symm.trans h')
  by_cases hpast : s.nextTick < s.sysTick + BitVec.ofNat 32 ticks
  · rw [turn_frame hman hpast] at h h'
    obtain ⟨o, hanimate, rfl⟩ := Option.map_eq_some_iff.mp h
    obtain ⟨o', hanimate', rfl⟩ := Option.map_eq_some_iff.mp h'
    rw [Pictures.animate_unique hanimate hanimate']
  · rw [turn_wait hman hpast] at h h'
    exact Option.some.inj (h.symm.trans h')

/-- Before the first turn. -/
theorem Stands.enter (hshows : Shows β (g.screen 0) τ) :
    Stands cfg g σ β start [] (MainLoop.enter σ start τ) :=
  ⟨rfl, rfl, (BitVec.add_zero start).symm, rfl, rfl, rfl, hshows⟩

/-- A turn that does not reset. -/
theorem Stands.on (h : Stands cfg g σ β start l s) (hkept : g.Kept cfg σ.flash.bytes)
    (hstrt : σ.flash.cr.strt = false) (e : Event) (ticks : Nat)
    (hroom : start.toNat + (l.map Prod.snd).sum + ticks + 100 < 2 ^ 31)
    (hlive : (runDfu cfg σ (l.map Prod.fst ++ [e])).isSome = false) (temp : Nat → Half) :
    ∃ fuel u, MainLoop.turn cfg g.animationStep fuel temp e ticks s = some (.on u) ∧
      Stands cfg g σ β start (l ++ [(e, ticks)]) u := by
  obtain ⟨fuel, r, hturn, hr⟩ := h.turn hkept hstrt e ticks hroom temp
  rcases hr with ⟨-, hreset⟩ | ⟨u, rfl, hu⟩
  · rw [hreset] at hlive
    cases hlive
  · exact ⟨fuel, u, hturn, hu⟩

theorem Runs.stands (hkept : g.Kept cfg σ.flash.bytes) (hstrt : σ.flash.cr.strt = false)
    (hshows : Shows β (g.screen 0) τ)
    (h : Runs cfg g.animationStep (MainLoop.enter σ start τ) l s)
    (hroom : start.toNat + (l.map Prod.snd).sum + 100 < 2 ^ 31) :
    Stands cfg g σ β start l s := by
  induction h with
  | nil => exact .enter hshows
  | @snoc l e ticks fuel temp t u _ hturn ih =>
      rw [sum_snoc] at hroom
      obtain ⟨fuel', r, hturn', hr⟩ :=
        (ih (by omega)).turn hkept hstrt e ticks (by omega) temp
      cases turn_unique hturn hturn'
      rcases hr with ⟨hreset, -⟩ | ⟨v, hv, hstands⟩
      · cases hreset
      · cases hv
        exact hstands

end MainLoop

/-- **The loop of `runDfu`.** Until the reset the device is where the events alone
take it, and there is a reset just when they lead to one; at most one frame was drawn
in 100 ticks, and just so many while no turn takes longer; and the memory of the
panel holds the last of them, whatever the host has written to flash. -/
theorem main_loop (cfg : Config) (g : Pictures) (σ : Dev) (hboot : σ.Boot)
    (hkept : g.Kept cfg σ.flash.bytes) (istat : Nat → Word) (d d' : Ili) (β τ : Board) (fuel : Nat)
    (temp : Nat → Half) (hlcd : runLcd (IliHS.next σ.flash.bytes) fuel (IliHS.init g.dfuUsbAt) temp
      istat d β = some (d', τ)) (start : Word) (l : List (Event × Nat)) (s : MainLoop)
    (hruns : MainLoop.Runs cfg g.animationStep (.enter σ start τ) l s)
    (hroom : start.toNat + (l.map Prod.snd).sum + 100 < 2 ^ 31) :
    s.dev = (machine cfg).run σ (l.map Prod.fst) ∧ runDfu cfg σ (l.map Prod.fst) = none ∧
    s.frames ≤ ((l.map Prod.snd).sum - 1) / 100 ∧
    ((∀ ticks ∈ l.map Prod.snd, ticks ≤ 100) → s.frames = ((l.map Prod.snd).sum - 1) / 100) ∧
    s.step = s.frames % 6 ∧
    (∃ bs, s.board.latched = β.latched ++ bs.map some ∧
      ∀ (p : Panel), ∀ x < 320, ∀ y < 240, (p.takeAll bs).mem x y = g.screen s.frames x y) ∧
    ∀ e ticks temp, start.toNat + (l.map Prod.snd).sum + ticks + 100 < 2 ^ 31 →
      ∃ fuel r, MainLoop.turn cfg g.animationStep fuel temp e ticks s = some r ∧
        (r = .reset ↔ runDfu cfg σ (l.map Prod.fst ++ [e]) = some (l.map Prod.fst ++ [e])) := by
  have hstrt : σ.flash.cr.strt = false := by rw [hboot.flash.cr]
  obtain ⟨fuel', d'', τ', hlcd', hshows⟩ := hkept.in.runLcd_shows istat d β temp
  cases Pictures.runLcd_unique hlcd hlcd'
  have hstands := hruns.stands hkept hstrt hshows hroom
  rw [hstands.frames]
  refine ⟨hstands.dev, hstands.live, ?_, ?_, hstands.step, hstands.shows.takes, ?_⟩
  · exact Pace.run_le (by decide) _
  · exact Pace.run_eq (by decide)
  · intro e ticks temp hmore
    obtain ⟨fuel, r, hturn, hr⟩ := hstands.turn hkept hstrt e ticks hmore temp
    refine ⟨fuel, r, hturn, ?_⟩
    rcases hr with ⟨hreset, hrun⟩ | ⟨u, rfl, hu⟩
    · exact iff_of_true hreset hrun
    · have hlive := hu.live
      rw [List.map_append] at hlive
      refine iff_of_false (by simp) fun hrun => ?_
      rw [show l.map Prod.fst ++ [e] = l.map Prod.fst ++ [(e, ticks)].map Prod.fst from rfl,
        hlive] at hrun
      cases hrun

/-- Flash with bars where the pictures are. -/
def barredCells : Nor.Cells 32 := fun a => kilobytes 0x08000000 barred a.toNat

theorem barredCells_kept {k : Nat} (hk : k ≤ 6) :
    (barred k).Kept .stm32f103 (Dev.fresh barredCells).flash.bytes (0x08000000 + 1024 * k) := by
  have hfits : (barred k).width * (barred k).height ≤ 4160 := by
    rcases Nat.lt_or_eq_of_le hk with hlt | rfl
    · rw [(barred_frame hlt).1, (barred_frame hlt).2]
      decide
    · decide
  obtain ⟨toks, hout, hfit, hread, hlen⟩ := kilobytes_tokens 0x08000000 barred hfits
  have hstart : Config.stm32f103.startAddr.toNat = 0x08000000 + 8 * 1024 := rfl
  refine ⟨toks, hout, hfit, Eq.trans (List.map_congr_left fun i hi => ?_) hread, by omega, by omega⟩
  have hlt := List.mem_range.mp hi
  show kilobytes 0x08000000 barred (BitVec.ofNat 32 _).toNat = _
  rw [BitVec.toNat_ofNat, Nat.mod_eq_of_lt (by omega)]

theorem barredPictures_kept {base : Nat}
    (h : ∀ k ≤ 6, (barred k).Kept cfg flash (base + 1024 * k)) :
    (barredPictures base).Kept cfg flash :=
  ⟨h 6 (Nat.le_refl 6), fun i => h i (Nat.le_of_lt i.isLt)⟩

theorem barred_kept : (barredPictures 0x08000000).Kept .stm32f103
    (Dev.fresh barredCells).flash.bytes :=
  barredPictures_kept fun _ hk => barredCells_kept hk

/-- A bus reset and a quiet poll in 101 ticks: one frame is drawn. -/
theorem main_loop_bars : ∃ fuel d' τ s,
    runLcd (IliHS.next (Dev.fresh barredCells).flash.bytes) fuel
      (IliHS.init (barredPictures 0x08000000).dfuUsbAt) (fun _ => 0) (fun _ => 0) .initial
      listening = some (d', τ) ∧
    MainLoop.Runs .stm32f103 (barredPictures 0x08000000).animationStep
      (.enter (Dev.fresh barredCells) 7 τ) [(.reset, 51), (.flags 0, 50)] s ∧
    s.dev = (machine .stm32f103).run (Dev.fresh barredCells) [.reset, .flags 0] ∧ s.frames = 1 ∧
    ∃ bs, s.board.latched = listening.latched ++ bs.map some ∧
      ∀ (p : Panel), ∀ x < 320, ∀ y < 240,
        (p.takeAll bs).mem x y = (barredPictures 0x08000000).screen 1 x y := by
  obtain ⟨fuel, d', τ, hlcd, hshows⟩ :=
    barred_kept.in.runLcd_shows (fun _ => 0) .initial listening fun _ => 0
  have henter : MainLoop.Stands .stm32f103 (barredPictures 0x08000000) (Dev.fresh barredCells)
      listening 7 [] (.enter (Dev.fresh barredCells) 7 τ) := .enter hshows
  obtain ⟨fuel₁, s₁, hturn₁, hs₁⟩ :=
    henter.on barred_kept rfl .reset 51 (by decide) (by decide +kernel) fun _ => 0
  obtain ⟨fuel₂, s, hturn₂, -⟩ :=
    hs₁.on barred_kept rfl (.flags 0) 50 (by decide) (by decide +kernel) fun _ => 0
  have hruns : MainLoop.Runs .stm32f103 (barredPictures 0x08000000).animationStep
      (.enter (Dev.fresh barredCells) 7 τ) [(.reset, 51), (.flags 0, 50)] s :=
    .snoc (.snoc .nil hturn₁) hturn₂
  obtain ⟨hdev, -, -, hcount, -, hscreen, -⟩ := main_loop .stm32f103 (barredPictures 0x08000000)
    (Dev.fresh barredCells) (Dev.fresh_boot _) barred_kept (fun _ => 0) .initial d' listening τ fuel
    (fun _ => 0) hlcd 7 _ s hruns (by decide)
  have hone : s.frames = 1 := hcount (by decide)
  rw [hone] at hscreen
  exact ⟨fuel, d', τ, s, hlcd, hruns, hdev, hone, hscreen⟩

end LnDso
