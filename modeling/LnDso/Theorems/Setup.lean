import LnDso.Logic.Clocks
import LnDso.Theorems.Pins

/-!
# The start of the clocks and of the bus

`setupForUsb` under every order of its statements and the events: the clocks stay
within their limits, and it ends with 72 MHz selected, a tick of a millisecond at
72 MHz and D+ released after more than 100 ticks low. The code does not wait for the
switch to the clock it selects: it may come later.
-/

namespace LnDso

open Lib Register

variable {r : Rcc} {s : Setup} {k : Known} {X : Setup → Prop}

/-! ## The assertions -/

/-- At every point the counter of the delay has counted the interrupts, and no pin
but D+ has moved. -/
structure Setup.Point (β : Board) (k : Known) (X : Setup → Prop) (s : Setup) : Prop where
  known : k.Holds s.rcc
  counts : s.delay.sysTick = BitVec.ofNat 32 s.ticks
  others : ∀ p ≠ pa12, s.board.config p = β.config p ∧ s.board.level p = β.level p
  holds : X s

/-- `X` is not about the clocks, and the interrupt keeps it. -/
structure Setup.Kept (X : Setup → Prop) : Prop where
  rcc : ∀ s r, X s → X { s with rcc := r }
  tick : ∀ s, X s → X s.ticked

theorem Setup.Point.event {β : Board} (h : s.Point β k X) (hk : k.Steady) (hX : Setup.Kept X)
    (e : SetupEvent) : (Setup.event e s).Point β k X := by
  cases e with
  | hseStarts => exact ⟨h.known.hseStarts hk, h.counts, h.others, hX.rcc s _ h.holds⟩
  | pllLocks => exact ⟨h.known.pllLocks hk, h.counts, h.others, hX.rcc s _ h.holds⟩
  | switches => exact ⟨h.known.switches hk, h.counts, h.others, hX.rcc s _ h.holds⟩
  | tick =>
      show Setup.Point β k X (if s.sysTickCtrl &&& 3 = 3 then s.ticked else s)
      split
      · refine ⟨h.known, ?_, h.others, hX.tick s h.holds⟩
        show s.delay.sysTick + 1 = BitVec.ofNat 32 (s.ticks + 1)
        rw [h.counts, BitVec.ofNat_add]
        rfl
      · exact h

/-- The timer ticks once a millisecond and interrupts; the USB peripheral is off. -/
def Setup.Counting (s : Setup) : Prop :=
  s.sysTickLoad = 71999 ∧ s.sysTickCtrl = 7 ∧ s.usbCntr = 2

/-- The delay has started, and D+ was low at every interrupt since. -/
def Setup.Pulling (s : Setup) : Prop :=
  s.delay.returned = false ∧ ∃ start n, s.ticks = start + n ∧ n ≤ s.low ∧
    s.delay.tgt = BitVec.ofNat 32 (start + 100)

/-- D+ was low for more than 100 ticks, unless the counter has come near its end. -/
def Setup.Pulled (s : Setup) : Prop := s.ticks + 100 < 2 ^ 32 → 100 < s.low

theorem Setup.Pulled.kept : Setup.Kept Setup.Pulled := by
  refine ⟨fun _ _ h => h, fun s h hroom => ?_⟩
  have hlow : s.low ≤ s.ticked.low := Nat.le_add_right _ _
  have hticks : s.ticked.ticks = s.ticks + 1 := rfl
  exact Nat.lt_of_lt_of_le (h (by omega)) hlow

theorem Setup.Pulling.ticked (h : s.Pulling) (hlow : s.Drives false) : s.ticked.Pulling := by
  obtain ⟨hreturned, start, n, hticks, hn, htgt⟩ := h
  refine ⟨hreturned, start, n + 1, ?_, ?_, htgt⟩
  · show s.ticks + 1 = start + (n + 1)
    omega
  · show n + 1 ≤ s.low + if s.Drives false then 1 else 0
    rw [if_pos hlow]
    omega

/-! ## Statements in the outline -/

/-- There is room for the delay before the counter ends. -/
def Setup.Room (s : Setup) : Prop := s.ticks + 101 < 2 ^ 32

/-- What has been reached at the end. -/
def Setup.Done (s : Setup) : Prop := s.Counting ∧ s.Drives true ∧ s.Pulled

/-- The ports A, B and C and the alternate functions are clocked. -/
def knownEnd : Known := knownPorts 0x1D

/-- The outline of the statements `is`, from `X` on and what is known there. -/
abbrev SetupOutline (β : Board) (is : List SetupStmt) (k : Known) (X ready : Setup → Prop) : Prop :=
  setupCore.Outline (fun s => s.rcc.Safe) Setup.Room ⟨Setup.Point β knownEnd Setup.Done, fun _ => True⟩
    is ⟨Setup.Point β k X, ready⟩

section Statements

variable {β : Board} {i : SetupStmt} {is : List SetupStmt} {k' : Known} {X' ready ready' : Setup → Prop}

theorem stable_point (hk : k.Good) (hX : Setup.Kept X) : setupCore.Stable (Setup.Point β k X) :=
  fun e _ hs => hs.event hk.steady hX e

/-- A statement that does not wait. -/
theorem SetupOutline.cons (hk : k.Good) (hX : Setup.Kept X) (hready : ∀ s, s.Room → ready s)
    (hexec : ∀ s, s.Point β k X → ∃ s', Setup.exec i s = some s' ∧ s'.Point β k' X' ∧
      (ready s → ready' s')) (h : SetupOutline β is k' X' ready') :
    SetupOutline β (i :: is) k X ready := by
  refine Core.Outline.cons (stable_point hk hX) (fun s hs => hk.safe _ hs.known) hready ?_ ?_ h
  · intro s s' hs he
    -- the statement runs in every state, so it runs to the one that `hexec` gives
    obtain ⟨τ, hτ, hpoint, -⟩ := hexec s hs
    obtain rfl := Option.some.inj (hτ.symm.trans he)
    exact hpoint
  · intro s hs hroom
    obtain ⟨τ, hτ, -, hkeeps⟩ := hexec s hs
    exact ⟨[], τ, hτ, hkeeps hroom⟩

/-- A statement about the clocks. -/
theorem SetupOutline.clock {f : Rcc → Rcc} (hk : k.Good) (hX : Setup.Kept X)
    (hexec : ∀ s, s.Point β k X → Setup.exec i s = some { s with rcc := f s.rcc })
    (hf : ∀ r, k.Holds r → k'.Holds (f r)) (h : SetupOutline β is k' X Setup.Room) :
    SetupOutline β (i :: is) k X Setup.Room := by
  refine SetupOutline.cons hk hX (fun _ hroom => hroom)
    (fun s hs => ⟨_, hexec s hs, ?_, fun hroom => hroom⟩) h
  exact ⟨hf _ hs.known, hs.counts, hs.others, hX.rcc s _ hs.holds⟩

/-- A loop that waits for a flag, which an event can bring. -/
theorem SetupOutline.wait {n : Nat} {e : SetupEvent} (hk : k.Good) (hX : Setup.Kept X)
    (hbrings : ∀ s : Setup, k.Holds s.rcc →
      (Setup.event e s).rcc.cr &&& BitVec.twoPow 32 n ≠ 0 ∧ (Setup.event e s).ticks = s.ticks)
    (h : SetupOutline β is
      { k with cr := k.cr ||| BitVec.twoPow 32 n, crIs := k.crIs ||| BitVec.twoPow 32 n } X Setup.Room) :
    SetupOutline β (.crWait (BitVec.twoPow 32 n) :: is) k X Setup.Room := by
  refine Core.Outline.cons (stable_point hk hX) (fun s hs => hk.safe _ hs.known)
    (fun _ hroom => hroom) ?_ ?_ h
  · intro s s' hs he
    have he' : (if s.rcc.cr &&& BitVec.twoPow 32 n ≠ 0 then some s else none) = some s' := he
    split at he'
    · next hset =>
      obtain rfl := Option.some.inj he'
      exact ⟨hs.known.crWait hset, hs.counts, hs.others, hs.holds⟩
    · cases he'
  · intro s hs hroom
    obtain ⟨hset, hticks⟩ := hbrings s hs.known
    -- one event is enough, and it is no tick: there is as much room as before
    refine ⟨[e], Setup.event e s, if_pos hset, ?_⟩
    show (Setup.event e s).ticks + 101 < 2 ^ 32
    rw [hticks]
    exact hroom

/-- A call on the pin of D+, whose port is clocked. -/
theorem SetupOutline.pin {c : PinCall} (hk : k.Good) (hX : Setup.Kept X)
    (hready : ∀ s, s.Room → ready s) (hkeeps : ∀ s γ, ready s → ready { s with board := γ })
    (hexec : ∀ s, Setup.exec i s = s.callPin c pa12) (hc : c.Supported)
    (hother : ∀ q ≠ pa12, c.configWrite q = none ∧ c.levelWrite q = none)
    (hclock : k.apb2en.getLsbD 2 = true)
    (hX' : ∀ (s : Setup) (γ : Board), X s →
      γ.config pa12 = Write.apply s.board.config c.configWrite pa12 →
      γ.level pa12 = Write.apply s.board.level c.levelWrite pa12 → X' { s with board := γ })
    (h : SetupOutline β is k X' ready) : SetupOutline β (i :: is) k X ready := by
  refine SetupOutline.cons hk hX hready (fun s hs => ?_) h
  obtain ⟨γ, hγ⟩ := Option.isSome_iff_exists.mp ((c.run_isSome s.board).mpr hc)
  obtain ⟨hconfig, hlevel⟩ := PinCall.run_pins hγ
  -- a write to a port whose clock is off would be lost
  have hport : s.rcc.Clocked pa12.port := (getLsbD_of_and hs.known.apb2en hclock).trans hclock
  refine ⟨{ s with board := γ }, ?_, ⟨hs.known, hs.counts, fun q hq => ?_, ?_⟩, hkeeps s γ⟩
  · rw [hexec, Setup.callPin, hγ, Option.map_some, if_pos hport]
  · obtain ⟨hnone, hnone'⟩ := hother q hq
    obtain ⟨hsame, hsame'⟩ := hs.others q hq
    refine ⟨?_, ?_⟩
    · rw [hconfig, Write.apply_miss hnone, hsame]
    · rw [hlevel, Write.apply_miss hnone', hsame']
  · exact hX' s γ hs.holds (congrFun hconfig pa12) (congrFun hlevel pa12)

end Statements

/-! ## The clock setup -/

/-- After a reset: the internal oscillator is selected and the PLL is off. -/
def known0 : Known := ⟨0x03000000, 0, 0x400003, 0, 0, 0, 0⟩

/-- The crystal is on. -/
def known1 : Known := { known0 with cr := 0x03010000, crIs := 0x00010000 }

/-- The crystal runs. -/
def known2 : Known := { known1 with cr := 0x03030000, crIs := 0x00030000 }

/-- The prescalers and the PLL are set up. -/
def known3 : Known := { known2 with cfgr := 0x7FFFF3, cfgrIs := 0x1DC400 }

/-- The flash has two wait states. -/
def known4 : Known := { known3 with acr := 7, acrIs := 2 }

/-- The PLL is on. -/
def known5 : Known := { known4 with cr := 0x01030000, crIs := 0x01030000 }

/-- The PLL has locked. -/
def known6 : Known := { known5 with cr := 0x03030000, crIs := 0x03030000 }

theorem known1_starts (h : known1.Holds r) : r.hseStarts.cr &&& rccCrHserdy ≠ 0 := by
  have hmask : known1.cr &&& rccCrHseon = rccCrHseon := by decide
  have hon : r.cr &&& rccCrHseon ≠ 0 := by
    rw [and_of_and h.cr hmask]
    decide
  rw [Rcc.hseStarts, if_pos hon]
  show (r.cr ||| rccCrHserdy) &&& rccCrHserdy ≠ 0
  rw [or_and_self]
  decide

theorem known5_locks (h : known5.Holds r) : r.pllLocks.cr &&& rccCrPllrdy ≠ 0 := by
  have hmask : known5.cr &&& rccCrPllon = rccCrPllon := by decide
  have hmask' : known5.cr &&& rccCrHserdy = rccCrHserdy := by decide
  have hon : r.cr &&& rccCrPllon ≠ 0 := by
    rw [and_of_and h.cr hmask]
    decide
  have hruns : r.cr &&& rccCrHserdy ≠ 0 := by
    rw [and_of_and h.cr hmask']
    decide
  -- the PLL is fed by the crystal, which runs
  have hbit : r.cfgr.getLsbD 16 = true :=
    (getLsbD_of_and h.cfgr (by decide : known5.cfgr.getLsbD 16 = true)).trans (by decide)
  have hsource : r.pllSource = 1 := by
    rw [Rcc.pllSource, hbit]
    rfl
  rw [Rcc.pllLocks, if_pos ⟨hon, hsource ▸ .inr (.inl ⟨rfl, hruns⟩)⟩]
  show (r.cr ||| rccCrPllrdy) &&& rccCrPllrdy ≠ 0
  rw [or_and_self]
  decide

theorem known2_cfgr (h : known2.Holds r) :
    known3.Holds (r.writeCfgr (assign 0xFFC0000F clockPrescalers r.cfgr)) := by
  have hmask : known2.cr &&& rccCrPllon = rccCrPllon := by decide
  have hoff : r.cr &&& rccCrPllon = 0 := (and_of_and h.cr hmask).trans (by decide)
  unfold Rcc.writeCfgr
  -- the factor and the source of the PLL can be written only while it is off
  rw [if_pos hoff]
  exact h.writeCfgr (by decide) (by decide) (by decide) (by decide) (by decide) (by decide)

theorem known6_cfgr (h : known6.Holds r) : known72.Holds (r.writeCfgr (assign (~~~3) 2 r.cfgr)) := by
  have hmask : known6.cr &&& rccCrPllon = rccCrPllon := by decide
  have hon : r.cr &&& rccCrPllon ≠ 0 := by
    rw [and_of_and h.cr hmask]
    decide
  unfold Rcc.writeCfgr
  rw [if_neg hon]
  exact h.writeCfgr (by decide) (by decide) (by decide) (by decide) (by decide) (by decide)

/-- The clock setup leads to 72 MHz. -/
theorem clockSetup_outline {β : Board} {is : List SetupStmt} (hX : Setup.Kept X)
    (h : SetupOutline β is known72 X Setup.Room) :
    SetupOutline β (clockSetup ++ is) known0 X Setup.Room := by
  -- from the last statement to the first: each needs the outline of the rest
  have hselect : SetupOutline β (.cfgr (~~~3) 2 :: is) known6 X Setup.Room :=
    .clock (.internal (by decide) (by decide)) hX (fun _ _ => rfl) (fun _ => known6_cfgr) h
  have hlock : SetupOutline β (.crWait rccCrPllrdy :: .cfgr (~~~3) 2 :: is) known5 X Setup.Room :=
    .wait (n := 25) (e := .pllLocks) (.internal (by decide) (by decide)) hX
      (fun _ hs => ⟨known5_locks hs, rfl⟩) hselect
  have hon : SetupOutline β (.crOr rccCrPllon :: .crWait rccCrPllrdy :: .cfgr (~~~3) 2 :: is) known4 X
      Setup.Room :=
    .clock (.internal (by decide) (by decide)) hX (fun _ _ => rfl)
      (fun _ hr => hr.writeCr (by decide) (by decide)) hlock
  have hlatency : SetupOutline β (.acr (~~~7) 2 :: .crOr rccCrPllon :: .crWait rccCrPllrdy ::
      .cfgr (~~~3) 2 :: is) known3 X Setup.Room :=
    .clock (.internal (by decide) (by decide)) hX (fun _ _ => rfl)
      (fun _ hr => hr.writeAcr (by decide) (by decide)) hon
  have hprescalers : SetupOutline β (.cfgr 0xFFC0000F clockPrescalers :: .acr (~~~7) 2 ::
      .crOr rccCrPllon :: .crWait rccCrPllrdy :: .cfgr (~~~3) 2 :: is) known2 X Setup.Room :=
    .clock (.internal (by decide) (by decide)) hX (fun _ _ => rfl) (fun _ => known2_cfgr) hlatency
  have hstart : SetupOutline β (.crWait rccCrHserdy :: .cfgr 0xFFC0000F clockPrescalers ::
      .acr (~~~7) 2 :: .crOr rccCrPllon :: .crWait rccCrPllrdy :: .cfgr (~~~3) 2 :: is) known1 X
      Setup.Room :=
    .wait (n := 17) (e := .hseStarts) (.internal (by decide) (by decide)) hX
      (fun _ hs => ⟨known1_starts hs, rfl⟩) hprescalers
  exact .clock (.internal (by decide) (by decide)) hX (fun _ _ => rfl)
    (fun _ hr => hr.writeCr (by decide) (by decide)) hstart

/-! ## The ports and the timer -/

theorem Setup.Kept.and {Y : Setup → Prop} (hX : Setup.Kept X) (hY : Setup.Kept Y) :
    Setup.Kept fun s => X s ∧ Y s :=
  ⟨fun s r h => ⟨hX.rcc s r h.1, hY.rcc s r h.2⟩, fun s h => ⟨hX.tick s h.1, hY.tick s h.2⟩⟩

theorem Setup.Kept.always : Setup.Kept fun _ => True := ⟨fun _ _ _ => trivial, fun _ _ => trivial⟩

theorem Setup.Kept.counting : Setup.Kept Setup.Counting := ⟨fun _ _ h => h, fun _ h => h⟩

theorem Setup.Kept.drives (v : Bool) : Setup.Kept (Setup.Drives v) :=
  ⟨fun _ _ h => h, fun _ h => h⟩

theorem SetupOutline.enable {β : Board} {is : List SetupStmt} {periph : Peripherals} {bit w v : Word}
    (hbit : periph.bit = some bit) (hw : w ||| bit = v) (hX : Setup.Kept X)
    (h : SetupOutline β is (knownPorts v) X Setup.Room) :
    SetupOutline β (.enable periph :: is) (knownPorts w) X Setup.Room := by
  refine SetupOutline.clock (f := fun r => { r with apb2en := r.apb2en ||| bit }) (.at72 w) hX
    (fun s _ => ?_) (fun r hr => ?_) h
  · show (lnPeripheralsEnable periph s.rcc).map _ = _
    rw [lnPeripheralsEnable, hbit]
    rfl
  · rw [← hw]
    exact hr.enable

theorem ports_outline {β : Board} {is : List SetupStmt} (hX : Setup.Kept X)
    (h : SetupOutline β is knownEnd X Setup.Room) :
    SetupOutline β ([.enable .pGPIOA, .enable .pGPIOB, .enable .pGPIOC, .enable .pAF] ++ is) known72 X
      Setup.Room :=
  .enable (w := 0) (v := 0x4) rfl (by decide) hX <|
  .enable (v := 0xC) rfl (by decide) hX <|
  .enable (v := 0x1C) rfl (by decide) hX <|
  .enable rfl (by decide) hX h

/-- A statement that changes no more than registers of the timer and of the USB. -/
theorem SetupOutline.register {β : Board} {i : SetupStmt} {is : List SetupStmt}
    {X' : Setup → Prop} (hX : Setup.Kept X)
    (hexec : ∀ s, ∃ s', Setup.exec i s = some s' ∧ s'.rcc = s.rcc ∧ s'.board = s.board ∧
      s'.delay = s.delay ∧ s'.ticks = s.ticks ∧ (X s → X' s'))
    (h : SetupOutline β is knownEnd X' Setup.Room) :
    SetupOutline β (i :: is) knownEnd X Setup.Room := by
  refine SetupOutline.cons (.at72 _) hX (fun _ hroom => hroom) (fun s hs => ?_) h
  obtain ⟨s', hs', hrcc, hboard, hdelay, hticks, hholds⟩ := hexec s
  refine ⟨s', hs', ⟨hrcc ▸ hs.known, ?_, hboard ▸ hs.others, hholds hs.holds⟩, fun hroom => ?_⟩
  · rw [hdelay, hticks, hs.counts]
  · show s'.ticks + 101 < 2 ^ 32
    rw [hticks]
    exact hroom

theorem timer_outline {β : Board} {is : List SetupStmt}
    (h : SetupOutline β is knownEnd Setup.Counting Setup.Room) :
    SetupOutline β ([.sysTickCtrl 0, .sysTickCurrent 0,
      .sysTickLoad (BitVec.ofNat 32 (configSysTickClockHz / configTickRateHz) - 1), .sysTickCtrl 7,
      .usbCntr 2] ++ is) knownEnd (fun _ => True) Setup.Room := by
  have hkept : Setup.Kept fun s => s.sysTickLoad = 71999 := ⟨fun _ _ h => h, fun _ h => h⟩
  have hkept' : Setup.Kept fun s => s.sysTickLoad = 71999 ∧ s.sysTickCtrl = 7 :=
    ⟨fun _ _ h => h, fun _ h => h⟩
  have hcntr : SetupOutline β (.usbCntr 2 :: is) knownEnd
      (fun s => s.sysTickLoad = 71999 ∧ s.sysTickCtrl = 7) Setup.Room :=
    .register hkept' (fun _ => ⟨_, rfl, rfl, rfl, rfl, rfl, fun hs => ⟨hs.1, hs.2, rfl⟩⟩) h
  have hctrl : SetupOutline β (.sysTickCtrl 7 :: .usbCntr 2 :: is) knownEnd
      (fun s => s.sysTickLoad = 71999) Setup.Room :=
    .register hkept (fun _ => ⟨_, rfl, rfl, rfl, rfl, rfl, fun hs => ⟨hs, rfl⟩⟩) hcntr
  have hload : SetupOutline β (.sysTickLoad (BitVec.ofNat 32
      (configSysTickClockHz / configTickRateHz) - 1) :: .sysTickCtrl 7 :: .usbCntr 2 :: is) knownEnd
      (fun _ => True) Setup.Room :=
    .register .always (fun _ => ⟨_, rfl, rfl, rfl, rfl, rfl, fun _ => (by decide :
      BitVec.ofNat 32 (configSysTickClockHz / configTickRateHz) - 1 = (71999 : Word))⟩) hctrl
  have hcurrent : SetupOutline β (.sysTickCurrent 0 :: .sysTickLoad (BitVec.ofNat 32
      (configSysTickClockHz / configTickRateHz) - 1) :: .sysTickCtrl 7 :: .usbCntr 2 :: is) knownEnd
      (fun _ => True) Setup.Room :=
    .register .always (fun _ => ⟨_, rfl, rfl, rfl, rfl, rfl, fun _ => trivial⟩) hload
  exact .register .always (fun _ => ⟨_, rfl, rfl, rfl, rfl, rfl, fun _ => trivial⟩) hcurrent

/-! ## D+ -/

/-- D+ is driven low, and the delay is on. -/
def Setup.Dragging (s : Setup) : Prop := (s.Counting ∧ s.Drives false) ∧ s.Pulling

theorem Setup.Kept.dragging : Setup.Kept Setup.Dragging := by
  have hkept := Setup.Kept.counting.and (.drives false)
  exact ⟨fun s r h => ⟨hkept.rcc s r h.1, h.2⟩, fun s h => ⟨hkept.tick s h.1, h.2.ticked h.1.2⟩⟩

theorem XDelay.body_eq (d : XDelay) : d.body = { d with returned := d.body.returned } := by
  unfold XDelay.body
  split <;> rfl

/-- Once the loop can be left, D+ was low long enough. -/
theorem Setup.Pulling.pulled (h : s.Pulling) (hcounts : s.delay.sysTick = BitVec.ofNat 32 s.ticks)
    (hleft : s.delay.body.returned = true) : s.Pulled := by
  obtain ⟨hreturned, start, n, hticks, hn, htgt⟩ := h
  intro hroom
  -- the target is `start + 100`, and the loop is left only past it
  have hpast : s.delay.tgt < s.delay.sysTick := by
    by_contra hnot
    rw [XDelay.body, if_neg hnot, hreturned] at hleft
    cases hleft
  rw [htgt, hcounts, BitVec.lt_def, BitVec.toNat_ofNat, BitVec.toNat_ofNat,
    Nat.mod_eq_of_lt (by omega), Nat.mod_eq_of_lt (by omega)] at hpast
  omega

/-- The ticks alone lead past the target. -/
theorem Setup.after_ticks (m : Nat) (h : s.sysTickCtrl = 7) :
    let τ := setupCore.after (List.replicate m .tick) s
    τ.ticks = s.ticks + m ∧ τ.delay.tgt = s.delay.tgt := by
  induction m generalizing s with
  | zero => exact ⟨rfl, rfl⟩
  | succ m ih =>
      have htick : Setup.event .tick s = s.ticked := if_pos (by rw [h]; decide)
      have hτ : setupCore.after (List.replicate (m + 1) .tick) s =
          setupCore.after (List.replicate m .tick) s.ticked := by
        rw [List.replicate_succ, Core.after, List.foldl_cons]
        exact congrArg (List.foldl _ · _) htick
      obtain ⟨hticks, htgt⟩ := ih (s := s.ticked) h
      rw [hτ]
      refine ⟨hticks.trans ?_, htgt⟩
      show s.ticks + 1 + m = s.ticks + (m + 1)
      omega

theorem delayLoop_outline {β : Board} {is : List SetupStmt}
    (h : SetupOutline β is knownEnd (fun s => (s.Counting ∧ s.Drives false) ∧ s.Pulled) fun _ => True) :
    SetupOutline β (.delayLoop :: is) knownEnd Setup.Dragging Setup.Room := by
  have hstable := stable_point (β := β) (.at72 0x1D) Setup.Kept.dragging
  refine Core.Outline.cons hstable (fun s hs => (Known.Good.at72 0x1D).safe _ hs.known)
    (fun _ hroom => hroom) ?_ ?_ h
  · intro s s' hs he
    have he' : (if s.delay.body.returned then some { s with delay := s.delay.body } else none) = some s' :=
      he
    split at he'
    · next hleft =>
      obtain rfl := Option.some.inj he'
      refine ⟨hs.known, ?_, hs.others, hs.holds.1, hs.holds.2.pulled hs.counts hleft⟩
      show s.delay.body.sysTick = _
      rw [XDelay.body_eq]
      exact hs.counts
    · cases he'
  · intro s hs hroom
    obtain ⟨-, start, n, hticks, -, htgt⟩ := hs.holds.2
    -- as many ticks as are missing, and no other events
    let m := start + 101 - s.ticks
    let τ := setupCore.after (List.replicate m .tick) s
    have hτ : τ.Point β knownEnd Setup.Dragging := Core.Outline.after_holds hstable _ hs
    obtain ⟨hticks', htgt'⟩ := s.after_ticks m hs.holds.1.1.2.1
    have hpast : τ.delay.tgt < τ.delay.sysTick := by
      have hroom' : s.ticks + 101 < 2 ^ 32 := hroom
      have hm : start + 100 < s.ticks + m ∧ s.ticks + m < 2 ^ 32 := by omega
      rw [hτ.counts, show τ.ticks = s.ticks + m from hticks', show τ.delay.tgt = _ from htgt', htgt,
        BitVec.lt_def, BitVec.toNat_ofNat, BitVec.toNat_ofNat, Nat.mod_eq_of_lt (by omega),
        Nat.mod_eq_of_lt hm.2]
      exact hm.1
    have hleft : τ.delay.body.returned = true := by
      rw [XDelay.body, if_pos hpast]
    exact ⟨_, _, if_pos hleft, trivial⟩

theorem drag_outline (β : Board) :
    SetupOutline β [.pinMode pa12 .lnOutput, .digitalWrite pa12 false, .delay 100, .delayLoop,
      .digitalWrite pa12 true] knownEnd Setup.Counting Setup.Room := by
  have hlow := Setup.Kept.counting.and (.drives false)
  have hend : SetupOutline β [] knownEnd Setup.Done fun _ => True :=
    .nil (stable_point (.at72 _) (Setup.Kept.counting.and ((Setup.Kept.drives true).and Setup.Pulled.kept)))
      fun s hs => (Known.Good.at72 _).safe _ hs.known
  have hrelease : SetupOutline β [.digitalWrite pa12 true] knownEnd
      (fun s => (s.Counting ∧ s.Drives false) ∧ s.Pulled) fun _ => True := by
    refine .pin (.at72 _) (hlow.and Setup.Pulled.kept) (fun _ _ => trivial) (fun _ _ _ => trivial)
      (fun _ => rfl) trivial (fun q hq => ⟨rfl, if_neg hq⟩) (by decide) ?_ hend
    intro s γ hs hconfig hlevel
    exact ⟨hs.1.1, ⟨hconfig.trans hs.1.2.1, hlevel⟩, hs.2⟩
  have hdelay : SetupOutline β [.delay 100, .delayLoop, .digitalWrite pa12 true] knownEnd
      (fun s => s.Counting ∧ s.Drives false) Setup.Room := by
    refine SetupOutline.cons (.at72 _) hlow (fun _ hroom => hroom) (fun s hs => ?_)
      (delayLoop_outline hrelease)
    refine ⟨_, rfl, ⟨hs.known, hs.counts, hs.others, hs.holds, rfl, s.ticks, 0, rfl,
      Nat.zero_le _, ?_⟩, fun hroom => hroom⟩
    show s.delay.sysTick + 100 = _
    rw [hs.counts, BitVec.ofNat_add]
    rfl
  have hpull : SetupOutline β [.digitalWrite pa12 false, .delay 100, .delayLoop,
      .digitalWrite pa12 true] knownEnd
      (fun s => s.Counting ∧ s.board.config pa12 = Board.outputConfig) Setup.Room := by
    refine .pin (.at72 _) ⟨fun s r h => ⟨Setup.Kept.counting.rcc s r h.1, h.2⟩, fun s h =>
      ⟨Setup.Kept.counting.tick s h.1, h.2⟩⟩ (fun _ hroom => hroom) (fun _ _ hroom => hroom)
      (fun _ => rfl) trivial (fun q hq => ⟨rfl, if_neg hq⟩) (by decide) ?_ hdelay
    intro s γ hs hconfig hlevel
    exact ⟨hs.1, hconfig.trans hs.2, hlevel⟩
  refine .pin (.at72 _) Setup.Kept.counting (fun _ hroom => hroom) (fun _ _ hroom => hroom)
    (fun _ => rfl) rfl (fun q hq => ⟨if_neg hq, rfl⟩) (by decide) ?_ hpull
  intro s γ hs hconfig hlevel
  exact ⟨hs, hconfig⟩

/-! ## The whole setup -/

/-- A state in which `setupForUsb` is entered after a reset. -/
structure Setup.Entry (s : Setup) : Prop where
  cr : s.rcc.cr &&& (rccCrPllon ||| rccCrPllrdy) = 0
  cfgr : s.rcc.cfgr &&& 0x40000F = 0
  sysTick : s.delay.sysTick = 0
  ticks : s.ticks = 0

theorem Setup.Entry.point (h : s.Entry) : s.Point s.board known0 fun _ => True := by
  have hmask : (0x40000F : Word) &&& rccCfgrSws = rccCfgrSws := by decide
  have hmask' : (0x40000F : Word) &&& 0x400003 = 0x400003 := by decide
  -- the clock in use is not under the mask of `known0`: it has a clause of its own
  refine ⟨⟨h.cr, (and_of_and h.cfgr hmask').trans (by decide), BitVec.and_zero, BitVec.and_zero,
    .inl ((and_of_and h.cfgr hmask).trans (by decide))⟩, ?_, fun _ _ => ⟨rfl, rfl⟩, trivial⟩
  rw [h.sysTick, h.ticks]
  rfl

theorem setupForUsb_outline (β : Board) :
    SetupOutline β setupForUsb known0 (fun _ => True) Setup.Room :=
  clockSetup_outline .always (ports_outline .always (timer_outline (drag_outline β)))

/-- What `setupForUsb` brings about: 72 MHz selected, with the internal oscillator in
use until the switch, a tick of a millisecond with the selected clock, the ports
clocked, and D+ released after it was low for more than 100 ticks; no other pin has
moved. -/
structure Setup.Ready (s₀ s : Setup) : Prop where
  clocks : s.rcc.At72
  used : s.rcc.sws = 0 ∨ s.rcc.sws = s.rcc.sw
  clocked : ∀ i < 3, s.rcc.Clocked i
  tick : s.rcc.hclk s.rcc.sw * 1000 = (s.sysTickLoad.toNat + 1) * configTickRateHz
  high : s.Drives true
  low : s.ticks + 100 < 2 ^ 32 → 100 < s.low
  others : ∀ p ≠ pa12, s.board.config p = s₀.board.config p ∧ s.board.level p = s₀.board.level p

theorem Setup.Point.ready {s₀ : Setup} (h : s.Point s₀.board knownEnd Setup.Done) :
    Setup.Ready s₀ s := by
  have hclocks : s.rcc.At72 := Rcc.at72_of_known h.known.cr h.known.cfgr h.known.acr
  refine ⟨hclocks, h.known.sws_or, fun i hi => ?_, ?_, h.holds.2.1, h.holds.2.2, h.others⟩
  · have hbit : knownEnd.apb2en.getLsbD (2 + i) = true :=
      (by decide : ∀ i < 3, knownEnd.apb2en.getLsbD (2 + i) = true) i hi
    exact (getLsbD_of_and h.known.apb2en hbit).trans hbit
  · rw [hclocks.selected, hclocks.hclk, h.holds.1.1]
    rfl

/-! ## The switch -/

/-- Once 72 MHz are selected a switch brings them into use, and no event undoes it. -/
theorem Setup.event_switched (hclocks : s.rcc.At72) {e : SetupEvent}
    (h : e = .switches ∨ s.rcc.sws = s.rcc.sw) :
    (Setup.event e s).rcc.sws = (Setup.event e s).rcc.sw := by
  -- the two fields are of CFGR, which only the switch writes
  have hkept : ∀ r : Rcc, r.cfgr = s.rcc.cfgr → s.rcc.sws = s.rcc.sw → r.sws = r.sw := by
    intro r hr hsame
    rw [Rcc.sws, Rcc.sw, hr]
    exact hsame
  cases e with
  | switches =>
      have hruns : s.rcc.Runs s.rcc.sw := hclocks.selected ▸ hclocks.runs
      show s.rcc.switches.sws = s.rcc.switches.sw
      rw [Rcc.switches, if_pos hruns]
      exact Rcc.sws_of_selection (assign_and_field (by decide) (Known.selection_and _))
        (Known.switch_and _ (by decide))
  | hseStarts => exact hkept _ s.rcc.hseStarts_cfgr (h.resolve_left (by simp))
  | pllLocks => exact hkept _ s.rcc.pllLocks_cfgr (h.resolve_left (by simp))
  | tick =>
      have htick : (Setup.event .tick s).rcc = s.rcc := by
        show (if s.sysTickCtrl &&& 3 = 3 then s.ticked else s).rcc = s.rcc
        split <;> rfl
      exact hkept _ (congrArg Rcc.cfgr htick) (h.resolve_left (by simp))

/-- Among the events after the return one is the switch: the selected clock is in use. -/
theorem Setup.Point.after_switched {s₀ : Setup} {es : List SetupEvent}
    (hpoint : s.Point s₀.board knownEnd Setup.Done)
    (h : SetupEvent.switches ∈ es ∨ s.rcc.sws = s.rcc.sw) :
    let τ := setupCore.after es s
    τ.rcc.sws = τ.rcc.sw ∧ Setup.Ready s₀ τ := by
  induction es generalizing s with
  | nil => exact ⟨h.resolve_left List.not_mem_nil, hpoint.ready⟩
  | cons e es ih =>
      have hkept := Setup.Kept.counting.and ((Setup.Kept.drives true).and Setup.Pulled.kept)
      refine ih (s := Setup.event e s) (hpoint.event (Known.Good.at72 _).steady hkept e) ?_
      have hnow : e = .switches ∨ s.rcc.sws = s.rcc.sw →
          (Setup.event e s).rcc.sws = (Setup.event e s).rcc.sw :=
        Setup.event_switched hpoint.ready.clocks
      rcases h with hmem | hsame
      · rcases List.mem_cons.mp hmem with rfl | hlater
        · exact .inr (hnow (.inl rfl))
        · exact .inl hlater
      · exact .inr (hnow (.inr hsame))

/-- **The setup.** Under every order of the statements and the events the clocks are
within their limits; when `setupForUsb` returns, what it is to bring about is there,
and once the clock has been switched after that, 72 MHz are in use and the tick is a
millisecond; and it can return as long as the counter of the ticks is not near its
end. -/
theorem setup_ready {s : Setup} (h : s.Entry) (es : List (Option SetupEvent)) :
    let c := (setupCore.system setupForUsb Setup.Entry).run ⟨setupForUsb, s⟩ es
    c.state.rcc.Safe ∧ (c.todo = [] → Setup.Ready s c.state ∧
      ∀ es', (SetupEvent.switches ∈ es' ∨ c.state.rcc.sws = c.state.rcc.sw) →
        let t := setupCore.after es' c.state
        Setup.Ready s t ∧ t.rcc.hclk t.rcc.sws = 72000 ∧
          t.rcc.hclk t.rcc.sws * 1000 = (t.sysTickLoad.toNat + 1) * configTickRateHz) ∧
      (c.state.ticks + 101 < 2 ^ 32 →
        ∃ es', ((setupCore.system setupForUsb Setup.Entry).run c es').todo = []) := by
  intro c
  obtain ⟨hsafe, hend, hfinishes⟩ := (setupForUsb_outline s.board).sound h.point Setup.Entry es
  refine ⟨hsafe, fun htodo => ⟨(hend htodo).ready, fun es' hswitch => ?_⟩, hfinishes⟩
  have hpoint : c.state.Point s.board knownEnd Setup.Done := hend htodo
  obtain ⟨hused, hready⟩ := hpoint.after_switched hswitch
  refine ⟨hready, ?_, ?_⟩
  · rw [hused, hready.clocks.selected]
    exact hready.clocks.hclk
  · rw [hused]
    exact hready.tick

/-- After a reset `setupForUsb` can return, and the switch then brings 72 MHz. -/
theorem setup_ready_reset : ∃ es,
    let s : Setup := ⟨⟨0x83, 0, 0, 0x30⟩, 0, 0, 0, 3, resetBoard, ⟨0, 0, false⟩, 0, 0⟩
    let c := (setupCore.system setupForUsb Setup.Entry).run ⟨setupForUsb, s⟩ es
    let t := setupCore.after [.switches] c.state
    c.todo = [] ∧ Setup.Ready s c.state ∧ t.rcc.hclk t.rcc.sws = 72000 := by
  let s : Setup := ⟨⟨0x83, 0, 0, 0x30⟩, 0, 0, 0, 3, resetBoard, ⟨0, 0, false⟩, 0, 0⟩
  have hentry : s.Entry := ⟨by decide, by decide, rfl, rfl⟩
  obtain ⟨-, -, hreturns⟩ := setup_ready hentry []
  obtain ⟨es, hend⟩ := hreturns (by decide)
  obtain ⟨hready, hswitch⟩ := (setup_ready hentry es).2.1 hend
  exact ⟨es, hend, hready, (hswitch [.switches] (.inl List.mem_cons_self)).2.1⟩

end LnDso
