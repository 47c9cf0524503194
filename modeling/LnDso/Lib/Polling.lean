import Mathlib.Data.List.Induction
import Mathlib.Data.Nat.Nth

/-!
# A loop that polls a counter

An interrupt advances a counter, a loop reads it. A schedule is an order of ticks
and reads in which the ticks go on and none of them is missed; what such a loop
waits for is a matter of the counts it sees (`Schedule.firstRead_lt_iff`).
-/

namespace Lib

/-- What comes next: the interrupt, or a read. -/
inductive Turn
  | tick
  | read
deriving DecidableEq

/-- An order of ticks and reads: the ticks go on, and between two of them there is a read. -/
structure Schedule where
  turn : Nat → Turn
  ticks : ∀ n, ∃ m, n < m ∧ turn m = .tick
  reads : ∀ i j, i < j → turn i = .tick → turn j = .tick → ∃ k, i < k ∧ k < j ∧ turn k = .read

namespace Schedule

variable {s : Schedule} {P : Nat → Prop} {m n t : Nat}

/-- The ticks before turn `n`. -/
def elapsed (s : Schedule) (n : Nat) : Nat := Nat.count (fun k => s.turn k = .tick) n

@[simp] theorem elapsed_zero : s.elapsed 0 = 0 := Nat.count_zero _

theorem elapsed_succ (s : Schedule) (n : Nat) :
    s.elapsed (n + 1) = s.elapsed n + if s.turn n = .tick then 1 else 0 :=
  Nat.count_succ _ n

theorem elapsed_mono (h : m ≤ n) : s.elapsed m ≤ s.elapsed n := Nat.count_monotone _ h

theorem lt_of_elapsed_lt (h : s.elapsed m < s.elapsed n) : m < n := Nat.lt_of_count_lt_count h

/-- Some read finds the count at `t`. -/
def Sees (s : Schedule) (t : Nat) : Prop := ∃ n, s.turn n = .read ∧ s.elapsed n = t

/-- Turn `n` is the first read that finds a count in `P`. -/
structure FirstRead (s : Schedule) (P : Nat → Prop) (n : Nat) : Prop where
  read : s.turn n = .read
  holds : P (s.elapsed n)
  first : ∀ m < n, s.turn m = .read → ¬ P (s.elapsed m)

/-- There is only one first read. -/
theorem FirstRead.unique (h : s.FirstRead P m) (h' : s.FirstRead P n) : m = n := by
  rcases Nat.lt_trichotomy m n with hlt | heq | hgt
  · exact absurd h.holds (h'.first m hlt h.read)
  · exact heq
  · exact absurd h'.holds (h.first n hgt h'.read)

/-- No count after a tick is missed. -/
theorem sees_succ (s : Schedule) (t : Nat) : s.Sees (t + 1) := by
  let p : Nat → Prop := fun k => s.turn k = .tick
  have hinf : (Set.ofPred p).Infinite := Set.infinite_of_forall_exists_gt fun n => by
    obtain ⟨m, hm, htick⟩ := s.ticks n
    exact ⟨m, htick, hm⟩
  -- the ticks that take the count to t + 1, and past it
  have hi : s.turn (Nat.nth p t) = .tick := Nat.nth_mem_of_infinite hinf t
  have hj : s.turn (Nat.nth p (t + 1)) = .tick := Nat.nth_mem_of_infinite hinf (t + 1)
  obtain ⟨k, hik, hkj, hread⟩ :=
    s.reads _ _ (Nat.nth_strictMono hinf (Nat.lt_succ_self t)) hi hj
  refine ⟨k, hread, Nat.le_antisymm ?_ ?_⟩
  · have hle := s.elapsed_mono (Nat.le_of_lt hkj)
    rwa [show s.elapsed (Nat.nth p (t + 1)) = t + 1 from Nat.count_nth_of_infinite hinf _] at hle
  · have hle := s.elapsed_mono (Nat.succ_le_of_lt hik)
    rwa [elapsed_succ, if_pos hi,
      show s.elapsed (Nat.nth p t) = t from Nat.count_nth_of_infinite hinf _] at hle

/-- The count at the start is seen unless a tick comes first. -/
theorem sees_zero : s.Sees 0 ↔ s.turn 0 = .read := by
  constructor
  · rintro ⟨n, hread, hzero⟩
    cases n with
    | zero => exact hread
    | succ n =>
        have hle := s.elapsed_mono (Nat.succ_le_succ (Nat.zero_le n))
        rw [hzero, elapsed_succ, elapsed_zero] at hle
        cases h0 : s.turn 0 with
        | read => rfl
        | tick =>
            rw [if_pos h0] at hle
            exact absurd hle (by decide)
  · intro hread
    exact ⟨0, hread, elapsed_zero⟩

/-- The first read that finds a count in `P` is the first one after more than `t`
ticks, exactly if `t + 1` is in `P` and no count seen up to `t` is. -/
theorem firstRead_lt_iff :
    (∃ n, s.FirstRead P n ∧ s.FirstRead (t < ·) n) ↔ P (t + 1) ∧ ∀ k ≤ t, s.Sees k → ¬ P k := by
  constructor
  · rintro ⟨n, hP, hlt⟩
    have hcount : s.elapsed n = t + 1 := by
      obtain ⟨m, hread, hm⟩ := s.sees_succ t
      have hle : n ≤ m := Nat.le_of_not_lt fun hmn =>
        hlt.first m hmn hread (by rw [hm]; exact Nat.lt_succ_self t)
      have hmono := s.elapsed_mono hle
      rw [hm] at hmono
      exact Nat.le_antisymm hmono hlt.holds
    refine ⟨hcount ▸ hP.holds, ?_⟩
    rintro k hk ⟨m, hread, rfl⟩
    exact hP.first m (s.lt_of_elapsed_lt (Nat.lt_of_le_of_lt hk hlt.holds)) hread
  · rintro ⟨hnext, hnone⟩
    have hsees := s.sees_succ t
    obtain ⟨hread, hcount⟩ := Nat.find_spec hsees
    have hbefore : ∀ m < Nat.find hsees, s.turn m = .read → s.elapsed m ≤ t := by
      intro m hm hr
      have hle := s.elapsed_mono (Nat.le_of_lt hm)
      rw [hcount] at hle
      exact Nat.le_of_lt_succ (Nat.lt_of_le_of_ne hle fun heq => Nat.find_min hsees hm ⟨hr, heq⟩)
    refine ⟨Nat.find hsees, ⟨hread, hcount.symm ▸ hnext, fun m hm hr => ?_⟩,
      ⟨hread, hcount.symm ▸ Nat.lt_succ_self t, fun m hm hr => ?_⟩⟩
    · exact hnone _ (hbefore m hm hr) ⟨m, hr, rfl⟩
    · exact Nat.not_lt.mpr (hbefore m hm hr)

/-- A read and a tick by turns. -/
def alternate : Schedule where
  turn n := if n % 2 = 0 then .read else .tick
  ticks n := ⟨2 * n + 1, by omega, if_neg (by omega)⟩
  reads i j hij hi hj := by
    have hodd : i % 2 = 1 := by
      by_contra heven
      rw [if_pos (by omega)] at hi
      cases hi
    have hodd' : j % 2 = 1 := by
      by_contra heven
      rw [if_pos (by omega)] at hj
      cases hj
    exact ⟨i + 1, by omega, by omega, if_pos (by omega)⟩

end Schedule

/-! ## Every so often -/

/-- What has been done and how much time has passed, for something done once more
whenever a turn of a loop finds more than a further `period` gone. -/
structure Pace where
  elapsed : Nat
  done : Nat

namespace Pace

variable {period : Nat} {p : Pace}

/-- A turn, `gap` after the last one. -/
def turn (period gap : Nat) (p : Pace) : Pace :=
  { elapsed := p.elapsed + gap
    done := if period * (p.done + 1) < p.elapsed + gap then p.done + 1 else p.done }

def run (period : Nat) (gaps : List Nat) : Pace := gaps.foldl (fun p gap => p.turn period gap) ⟨0, 0⟩

theorem run_concat (period : Nat) (gaps : List Nat) (gap : Nat) :
    run period (gaps ++ [gap]) = (run period gaps).turn period gap := List.foldl_append

@[simp] theorem run_elapsed (period : Nat) (gaps : List Nat) :
    (run period gaps).elapsed = gaps.sum := by
  induction gaps using List.reverseRecOn with
  | nil => rfl
  | append_singleton gaps gap ih =>
      rw [run_concat, turn, ih, List.sum_append, List.sum_singleton]

/-- Nothing is done early. -/
theorem run_early (period : Nat) (gaps : List Nat) :
    (run period gaps).done = 0 ∨ period * (run period gaps).done < gaps.sum := by
  induction gaps using List.reverseRecOn with
  | nil => exact .inl rfl
  | append_singleton gaps gap ih =>
      rw [run_concat, turn, run_elapsed, List.sum_append, List.sum_singleton]
      dsimp only
      split
      · next hpast => exact .inr hpast
      · rcases ih with hnone | hlt
        · exact .inl hnone
        · exact .inr (Nat.lt_of_lt_of_le hlt (Nat.le_add_right _ _))

/-- Nothing is late in a loop whose turns take a period at most. -/
theorem run_late {gaps : List Nat} (h : ∀ gap ∈ gaps, gap ≤ period) :
    gaps.sum ≤ period * ((run period gaps).done + 1) := by
  induction gaps using List.reverseRecOn with
  | nil => exact Nat.zero_le _
  | append_singleton gaps gap ih =>
      have hbefore := ih fun g hg => h g (List.mem_append_left _ hg)
      have hgap := h gap (List.mem_append_right _ List.mem_cons_self)
      rw [run_concat, turn, run_elapsed, List.sum_append, List.sum_singleton]
      dsimp only
      split
      · rw [Nat.mul_succ]
        omega
      · next hnot => exact Nat.not_lt.mp hnot

/-- It has been done at most once a period. -/
theorem run_le (hperiod : 0 < period) (gaps : List Nat) :
    (run period gaps).done ≤ (gaps.sum - 1) / period := by
  rw [Nat.le_div_iff_mul_le hperiod, Nat.mul_comm]
  rcases run_early period gaps with hnone | hlt
  · rw [hnone]
    exact Nat.zero_le _
  · omega

/-- In such a loop it is done once a period. -/
theorem run_eq (hperiod : 0 < period) {gaps : List Nat} (h : ∀ gap ∈ gaps, gap ≤ period) :
    (run period gaps).done = (gaps.sum - 1) / period := by
  refine Nat.le_antisymm (run_le hperiod gaps) (Nat.lt_succ_iff.mp ?_)
  have hlate := run_late h
  rw [Nat.div_lt_iff_lt_mul hperiod, Nat.mul_comm]
  have hpos : 0 < period * ((run period gaps).done + 1) := Nat.mul_pos hperiod (Nat.succ_pos _)
  rw [Nat.succ_eq_add_one]
  omega

end Pace

end Lib
