import Mathlib.Data.List.Basic

/-!
# The last write wins

A write stores values at some keys of a store and leaves the others alone.
After a list of writes a key holds what the last write that hits it stored.
-/

namespace Lib

/-- A write: the value it stores at a key, if it hits the key. -/
abbrev Write (K V : Type) := K → Option V

namespace Write

variable {K V : Type}

/-- The store after a write. -/
def apply (m : K → V) (w : Write K V) : K → V := fun k => (w k).getD (m k)

/-- The store after a list of writes, the first one first. -/
def applyAll (m : K → V) (ws : List (Write K V)) : K → V := ws.foldl apply m

@[simp] theorem applyAll_nil (m : K → V) : applyAll m [] = m := rfl

theorem applyAll_cons (m : K → V) (w : Write K V) (ws : List (Write K V)) :
    applyAll m (w :: ws) = applyAll (apply m w) ws := rfl

theorem applyAll_append (m : K → V) (ws ws' : List (Write K V)) :
    applyAll m (ws ++ ws') = applyAll (applyAll m ws) ws' :=
  List.foldl_append

theorem apply_hit {m : K → V} {w : Write K V} {k : K} {v : V} (h : w k = some v) :
    apply m w k = v := by
  rw [apply, h, Option.getD_some]

theorem apply_miss {m : K → V} {w : Write K V} {k : K} (h : w k = none) : apply m w k = m k := by
  rw [apply, h, Option.getD_none]

/-- Writes act on each key by itself. -/
theorem applyAll_congr {m m' : K → V} {k : K} (h : m k = m' k) (ws : List (Write K V)) :
    applyAll m ws k = applyAll m' ws k := by
  induction ws generalizing m m' with
  | nil => exact h
  | cons w ws ih =>
      refine ih ?_
      rw [apply, apply, h]

/-- A key no write hits keeps its value. -/
theorem applyAll_other {m : K → V} {ws : List (Write K V)} {k : K} (h : ∀ w ∈ ws, w k = none) :
    applyAll m ws k = m k := by
  induction ws generalizing m with
  | nil => rfl
  | cons w ws ih =>
      rw [applyAll_cons, ih fun w' hw' => h w' (List.mem_cons_of_mem _ hw')]
      exact apply_miss (h w List.mem_cons_self)

/-- A key holds what the last write that hits it stored. -/
theorem applyAll_last {m : K → V} {l r : List (Write K V)} {w : Write K V} {k : K} {v : V}
    (hw : w k = some v) (hr : ∀ w' ∈ r, w' k = none) : applyAll m (l ++ w :: r) k = v := by
  rw [applyAll_append, applyAll_cons, applyAll_other hr]
  exact apply_hit hw

/-- One key, one value. -/
def one [DecidableEq K] (k : K) (v : V) : Write K V := fun k' => if k' = k then some v else none

theorem apply_one [DecidableEq K] (m : K → V) (k : K) (v : V) (k' : K) :
    apply m (one k v) k' = if k' = k then v else m k' := by
  dsimp only [apply, one]
  split <;> rfl

/-- The same value at several keys, one after the other. -/
theorem applyAll_ones [DecidableEq K] (m : K → V) (ks : List K) (v : V) (k : K) :
    applyAll m (ks.map fun k' => one k' v) k = if k ∈ ks then v else m k := by
  induction ks generalizing m with
  | nil => rfl
  | cons k' ks ih =>
      rw [List.map_cons, applyAll_cons, ih, apply_one]
      by_cases htail : k ∈ ks
      · rw [if_pos htail, if_pos (List.mem_cons_of_mem _ htail)]
      · by_cases hhead : k = k'
        · simp [hhead]
        · rw [if_neg htail, if_neg hhead, if_neg (by simp [hhead, htail])]

end Write

end Lib
