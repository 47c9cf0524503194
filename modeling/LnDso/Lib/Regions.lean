import Mathlib.Algebra.GroupWithZero.Nat
import Mathlib.Data.List.Basic

/-!
# Regions handed out one after the other

An allocator that only moves its top up: each part takes a step of the room and
may use more or less than it. The regions are apart exactly when every part but
the last uses no more than its step.
-/

namespace Lib

/-- `len` bytes from `addr` on. -/
structure Region where
  addr : Nat
  len : Nat
deriving DecidableEq

/-- No byte in common, of regions that are not empty. -/
def Region.Apart (r s : Region) : Prop := r.addr + r.len ≤ s.addr ∨ s.addr + s.len ≤ r.addr

instance (r s : Region) : Decidable (r.Apart s) := inferInstanceAs (Decidable (_ ∨ _))

/-- A part of the room: what the allocator moves up by, and what is used. -/
structure Part where
  step : Nat
  len : Nat
deriving DecidableEq

/-- The regions of some parts, from `top` on. -/
def stack : (top : Nat) → List Part → List Region
  | _, [] => []
  | top, p :: ps => ⟨top, p.len⟩ :: stack (top + p.step) ps

variable {top : Nat} {p : Part} {ps qs : List Part}

theorem stack_append :
    stack top (ps ++ qs) = stack top ps ++ stack (top + (ps.map Part.step).sum) qs := by
  induction ps generalizing top with
  | nil => rfl
  | cons p ps ih =>
      rw [List.cons_append, stack, ih, stack, List.map_cons, List.sum_cons, Nat.add_assoc]
      rfl

theorem stack_above {r : Region} (h : r ∈ stack top ps) : top ≤ r.addr := by
  induction ps generalizing top with
  | nil => cases h
  | cons p ps ih =>
      rcases List.mem_cons.mp h with rfl | hrest
      · exact Nat.le_refl top
      · exact Nat.le_trans (Nat.le_add_right top p.step) (ih hrest)

theorem stack_apart_iff (hlen : ∀ p ∈ ps, 0 < p.len) :
    (stack top ps).Pairwise Region.Apart ↔ ∀ p ∈ ps.dropLast, p.len ≤ p.step := by
  induction ps generalizing top with
  | nil => simp [stack]
  | cons p ps ih =>
      have hrest := @ih (top + p.step) fun q hq => hlen q (List.mem_cons_of_mem p hq)
      cases ps with
      | nil => simp [stack]
      | cons q ps =>
          rw [stack, List.pairwise_cons, hrest, List.dropLast_cons_cons]
          constructor
          · rintro ⟨hhead, htail⟩ r hr
            rcases List.mem_cons.mp hr with rfl | hr
            · have hnext := hhead ⟨top + r.step, q.len⟩ (List.mem_cons_self ..)
              have hpos := hlen q (List.mem_cons_of_mem r (List.mem_cons_self ..))
              simp only [Region.Apart] at hnext
              omega
            · exact htail r hr
          · intro hall
            refine ⟨fun r hr => ?_, fun r hr => hall r (List.mem_cons_of_mem p hr)⟩
            have habove := stack_above hr
            have hp := hall p (List.mem_cons_self ..)
            exact .inl (by simp only; omega)

end Lib
