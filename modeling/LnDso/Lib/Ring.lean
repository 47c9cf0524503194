import Mathlib.Data.List.Induction
import Mathlib.Logic.Function.Basic

/-!
# Writing round a ring

Values stored one after the other in the cells of a ring of `size` cells, from
cell 0 on: past the last cell the writing goes on at the first. A cell holds
the last value that came to it.
-/

namespace Lib

namespace Ring

variable {α : Type} {size : Nat} {m : Nat → α} {ws : List α} {c i : Nat}

/-- The cells after the values `ws`. -/
def fill (size : Nat) (ws : List α) (m : Nat → α) : Nat → α :=
  ws.zipIdx.foldl (fun m w => Function.update m (w.2 % size) w.1) m

@[simp] theorem fill_nil : fill size [] m = m := rfl

theorem fill_concat (ws : List α) (v : α) :
    fill size (ws ++ [v]) m = Function.update (fill size ws m) (ws.length % size) v := by
  rw [fill, List.zipIdx_append, List.foldl_append, Nat.zero_add]
  rfl

/-- A cell no value comes to keeps what it held. -/
theorem fill_other (h : ∀ j < ws.length, j % size ≠ c) : fill size ws m c = m c := by
  induction ws using List.reverseRecOn with
  | nil => rfl
  | append_singleton ws v ih =>
      rw [List.length_append, List.length_singleton] at h
      rw [fill_concat, Function.update_of_ne (h ws.length (by omega)).symm]
      exact ih fun j hj => h j (by omega)

/-- A cell holds the last value that came to it. -/
theorem fill_last (hi : i < ws.length) (hc : i % size = c)
    (hlast : ∀ j, i < j → j < ws.length → j % size ≠ c) : fill size ws m c = ws[i] := by
  induction ws using List.reverseRecOn with
  | nil => exact absurd hi (Nat.not_lt_zero i)
  | append_singleton ws v ih =>
      rw [List.length_append, List.length_singleton] at hi hlast
      rw [fill_concat]
      by_cases heq : i = ws.length
      · subst heq
        rw [hc, Function.update_self, List.getElem_concat_length rfl]
      · have hlt : i < ws.length := by omega
        rw [Function.update_of_ne (hlast ws.length hlt (by omega)).symm,
          List.getElem_append_left hlt]
        exact ih hlt fun j hij hj => hlast j hij (by omega)

end Ring

end Lib
