import LnDso.Machine.Delay

/-!
# How long a delay lasts

`xDelay` compares `sysTick` with a target that is computed modulo 2^32. As long as
the target is below 2^32 - 1 the loop ends on the first read after more than `ms`
ticks; the target 2^32 - 1 is never passed, and one that has wrapped is behind the
counter from the start.
-/

namespace LnDso

open Lib

variable {start : Word} {ms : Int} {s : Schedule} {k n t : Nat}

/-- The state before turn `n`. -/
def XDelay.before (start : Word) (ms : Int) (s : Schedule) (n : Nat) : XDelay :=
  delayLoop.before (.enter start ms) s.turn n

/-- The loop returns on turn `n`. -/
def ReturnsAt (start : Word) (ms : Int) (s : Schedule) (n : Nat) : Prop :=
  (XDelay.before start ms s n).returned = false ∧
    (XDelay.before start ms s (n + 1)).returned = true

/-- The test of the loop once `t` ticks have gone by. -/
def Exits (start : Word) (ms : Int) (t : Nat) : Prop :=
  start + BitVec.ofInt 32 ms < start + BitVec.ofNat 32 t

/-! ## The loop under a schedule -/

theorem before_succ (start : Word) (ms : Int) (s : Schedule) (n : Nat) :
    XDelay.before start ms s (n + 1) = (XDelay.before start ms s n).step (s.turn n) :=
  delayLoop.before_succ _ _ n

/-- The counter has moved by the ticks, the target not at all. -/
theorem before_fields (start : Word) (ms : Int) (s : Schedule) (n : Nat) :
    (XDelay.before start ms s n).sysTick = start + BitVec.ofNat 32 (s.elapsed n) ∧
      (XDelay.before start ms s n).tgt = start + BitVec.ofInt 32 ms := by
  induction n with
  | zero => exact ⟨(BitVec.add_zero start).symm, rfl⟩
  | succ n ih =>
      rw [before_succ, Schedule.elapsed_succ]
      cases hturn : s.turn n with
      | tick =>
          rw [XDelay.step_tick, if_pos rfl, BitVec.ofNat_add, ← BitVec.add_assoc, ← ih.1]
          exact ⟨rfl, ih.2⟩
      | read =>
          rw [XDelay.step_read, if_neg (by simp), Nat.add_zero]
          exact ih

/-- The loop has returned if some read so far passed the test. -/
theorem before_returned (start : Word) (ms : Int) (s : Schedule) (n : Nat) :
    (XDelay.before start ms s n).returned = true ↔
      ∃ m < n, s.turn m = .read ∧ Exits start ms (s.elapsed m) := by
  induction n with
  | zero => simp [XDelay.before, XDelay.enter]
  | succ n ih =>
      rw [before_succ, Nat.exists_lt_succ_right, ← ih]
      cases hturn : s.turn n with
      | tick =>
          rw [XDelay.step_tick]
          simp
      | read =>
          obtain ⟨htick, htgt⟩ := before_fields start ms s n
          rw [XDelay.step_read, htick, htgt]
          simp [Exits]

/-- So it returns on the first one that does. -/
theorem returnsAt_iff : ReturnsAt start ms s n ↔ s.FirstRead (Exits start ms) n := by
  have hnot : (XDelay.before start ms s n).returned = false ↔
      ∀ m < n, s.turn m = .read → ¬ Exits start ms (s.elapsed m) := by
    rw [← Bool.not_eq_true, before_returned]
    simp
  rw [ReturnsAt, hnot, before_returned, Nat.exists_lt_succ_right]
  constructor
  · rintro ⟨hfirst, hearlier | hnow⟩
    · obtain ⟨m, hm, hread, hexits⟩ := hearlier
      exact absurd hexits (hfirst m hm hread)
    · exact ⟨hnow.1, hnow.2, hfirst⟩
  · intro h
    exact ⟨h.first, .inr ⟨h.read, h.holds⟩⟩

/-! ## The test -/

theorem exits_iff (k : Nat) : Exits start k t ↔
    (start.toNat + k) % 2 ^ 32 < (start.toNat + t) % 2 ^ 32 := by
  rw [Exits, BitVec.ofInt_natCast, BitVec.lt_def, BitVec.toNat_add, BitVec.toNat_add,
    BitVec.toNat_ofNat, BitVec.toNat_ofNat, Nat.add_mod_mod, Nat.add_mod_mod]

/-- A target below 2^32 - 1 is passed by the first count above `k`. -/
theorem exits_of_room (h : start.toNat + k ≤ 2 ^ 32 - 2) :
    Exits start k (k + 1) ∧ ∀ t ≤ k, ¬ Exits start k t := by
  refine ⟨?_, fun t ht => ?_⟩
  · rw [exits_iff]
    omega
  · rw [exits_iff]
    omega

/-- From 2^32 - 1 the counter wraps with the first tick, behind a target that has
wrapped too. -/
theorem exits_of_last (hstart : start.toNat = 2 ^ 32 - 1) (hpos : 1 ≤ k) (hk : k < 2 ^ 31) :
    Exits start k (k + 1) ∧ ∀ t, 1 ≤ t → t ≤ k → ¬ Exits start k t := by
  refine ⟨?_, fun t ht hle => ?_⟩
  · rw [exits_iff]
    omega
  · rw [exits_iff]
    omega

/-- Any other wrapped target is behind the counter from the start. -/
theorem exits_of_wrapped (h : 2 ^ 32 ≤ start.toNat + k) (hk : k < 2 ^ 31) :
    Exits start k 0 ∧ (start.toNat ≠ 2 ^ 32 - 1 → Exits start k 1) := by
  have hlt := start.isLt
  refine ⟨?_, fun hne => ?_⟩
  · rw [exits_iff]
    omega
  · rw [exits_iff]
    omega

/-- The target 2^32 - 1 is passed by no count. -/
theorem not_exits_of_top (h : start.toNat + k = 2 ^ 32 - 1) (t : Nat) : ¬ Exits start k t := by
  rw [exits_iff]
  omega

/-- No count seen up to `k` passes the test, and the next one does. -/
theorem exits_exact (hk : k < 2 ^ 31) :
    (Exits start k (k + 1) ∧ ∀ t ≤ k, s.Sees t → ¬ Exits start k t) ↔
      start.toNat + k ≤ 2 ^ 32 - 2 ∨ start.toNat = 2 ^ 32 - 1 ∧ 1 ≤ k ∧ s.turn 0 = .tick := by
  constructor
  · rintro ⟨hnext, hnone⟩
    by_cases hroom : start.toNat + k ≤ 2 ^ 32 - 2
    · exact .inl hroom
    · have htop : start.toNat + k ≠ 2 ^ 32 - 1 := fun htop => not_exits_of_top htop _ hnext
      have hwrapped : 2 ^ 32 ≤ start.toNat + k := by omega
      obtain ⟨hzero, hone⟩ := exits_of_wrapped hwrapped hk
      have hpos : 1 ≤ k := by omega
      refine .inr ⟨?_, hpos, ?_⟩
      · by_contra hne
        exact hnone 1 hpos (s.sees_succ 0) (hone hne)
      · cases h0 : s.turn 0 with
        | tick => rfl
        | read => exact absurd hzero (hnone 0 (Nat.zero_le k) (Schedule.sees_zero.mpr h0))
  · rintro (hroom | ⟨hstart, hpos, h0⟩)
    · obtain ⟨hnext, hnone⟩ := exits_of_room hroom
      exact ⟨hnext, fun t ht _ => hnone t ht⟩
    · obtain ⟨hnext, hnone⟩ := exits_of_last hstart hpos hk
      refine ⟨hnext, fun t ht hsees => hnone t ?_ ht⟩
      rcases Nat.eq_zero_or_pos t with rfl | hpos'
      · rw [Schedule.sees_zero, h0] at hsees
        cases hsees
      · exact hpos'

/-! ## The delay -/

/-- **How long a delay lasts.** `xDelay(ms)` returns, and on the first read after
more than `ms` ticks, exactly if its target is below 2^32 - 1; or if it starts at
2^32 - 1 with `ms` positive and the tick comes before the first read. -/
theorem xDelay_exact_iff (start : Word) (s : Schedule) (h0 : 0 ≤ ms) (hlt : ms < 2 ^ 31) :
    (∃ n, ReturnsAt start ms s n ∧ s.FirstRead (fun t => ms < t) n) ↔
      start.toNat + ms ≤ 2 ^ 32 - 2 ∨
        start.toNat = 2 ^ 32 - 1 ∧ 1 ≤ ms ∧ s.turn 0 = .tick := by
  obtain ⟨k, rfl⟩ := Int.eq_ofNat_of_zero_le h0
  have hk : k < 2 ^ 31 := Int.ofNat_lt.mp hlt
  have hexact : (Exits start k (k + 1) ∧ ∀ t ≤ k, s.Sees t → ¬ Exits start k t) ↔
      start.toNat + k ≤ 2 ^ 32 - 2 ∨ start.toNat = 2 ^ 32 - 1 ∧ 1 ≤ k ∧ s.turn 0 = .tick :=
    exits_exact hk
  rw [← Schedule.firstRead_lt_iff] at hexact
  have hpast : (fun t : Nat => (k : Int) < t) = (k < ·) := funext fun _ => propext Int.ofNat_lt
  have hroom : (start.toNat : Int) + k ≤ 2 ^ 32 - 2 ↔ start.toNat + k ≤ 2 ^ 32 - 2 := by omega
  have hpos : (1 : Int) ≤ k ↔ 1 ≤ k := by omega
  simp only [returnsAt_iff, hpast, hroom, hpos]
  exact hexact

/-- A delay of 100 from 0. -/
theorem xDelay_exact_boot :
    ∃ n, ReturnsAt 0 100 .alternate n ∧ Schedule.alternate.FirstRead (fun t => (100 : Int) < t) n :=
  (xDelay_exact_iff 0 .alternate (by decide) (by decide)).mpr (.inl (by decide))

/-- From 2^32 - 16 a delay of 100 is over at the first read, before the first tick. -/
theorem xDelay_returns_early :
    ReturnsAt 0xFFFFFFF0 100 .alternate 0 ∧ Schedule.alternate.elapsed 0 = 0 ∧
      ¬ ∃ n, ReturnsAt 0xFFFFFFF0 100 .alternate n ∧
        Schedule.alternate.FirstRead (fun t => (100 : Int) < t) n := by
  have hfirst : ReturnsAt 0xFFFFFFF0 100 .alternate 0 := ⟨rfl, by decide⟩
  refine ⟨hfirst, rfl, ?_⟩
  rintro ⟨n, hreturns, hlate⟩
  obtain rfl : 0 = n := (returnsAt_iff.mp hfirst).unique (returnsAt_iff.mp hreturns)
  exact absurd hlate.holds (by decide)

end LnDso
