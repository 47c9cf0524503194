import Mathlib.Data.BitVec
import Mathlib.Data.Fintype.EquivFin

/-!
# Mixing

A hash folds its input into a state. Where a step loses neither the state nor
the input, two inputs that differ in one place have different hashes. The
machine operations such steps are made of lose nothing: multiplication by a
number with an inverse, rotation, and exclusive or with the word shifted right.
-/

namespace Lib

/-- The step loses neither the state nor the input. -/
structure Mixing {S A : Type} (step : S → A → S) : Prop where
  state : ∀ a, Function.Injective fun s => step s a
  input : ∀ s, Function.Injective (step s)

namespace Mixing

variable {S A : Type} {step : S → A → S}

/-- A fold loses nothing of the state it starts with. -/
theorem foldl_state (h : Mixing step) (xs : List A) :
    Function.Injective fun s => xs.foldl step s := by
  induction xs with
  | nil => exact fun _ _ hs => hs
  | cons a xs ih => exact fun _ _ hs => h.state a (ih hs)

/-- A fold keeps two inputs apart that differ in one place. -/
theorem foldl_differ (h : Mixing step) {xs ys : List A} {i : Nat} (hlen : xs.length = ys.length)
    (hother : ∀ j, j ≠ i → xs[j]? = ys[j]?) (hne : xs[i]? ≠ ys[i]?) (s : S) :
    xs.foldl step s ≠ ys.foldl step s := by
  induction xs generalizing ys i s with
  | nil =>
      obtain rfl := List.length_eq_zero_iff.mp hlen.symm
      exact absurd rfl hne
  | cons x xs ih =>
      cases ys with
      | nil => exact absurd hlen (Nat.succ_ne_zero _)
      | cons y ys =>
          cases i with
          | zero =>
              -- here they differ: the input is kept apart, and the fold loses no state
              have hrest : xs = ys := List.ext_getElem? fun j => hother (j + 1) (Nat.succ_ne_zero j)
              have hxy : x ≠ y := fun heq => hne (congrArg some heq)
              subst hrest
              exact fun heq => hxy (h.input s (h.foldl_state xs heq))
          | succ i =>
              have hxy : x = y := Option.some.inj (hother 0 (Nat.succ_ne_zero i).symm)
              subst hxy
              exact ih (Nat.succ.inj hlen) (fun j hj => hother (j + 1) fun heq => hj (Nat.succ.inj heq))
                hne (step s x)

end Mixing

/-! ## Operations that lose nothing -/

section Word

variable {w : Nat}

theorem mul_injective {c d : BitVec w} (h : c * d = 1) : Function.Injective fun x => x * c := by
  intro x y hxy
  have hxy : x * c = y * c := hxy
  calc
    x = x * c * d := by rw [mul_assoc, h, mul_one]
    _ = y * c * d := by rw [hxy]
    _ = y := by rw [mul_assoc, h, mul_one]

theorem rotateLeft_injective {r : Nat} (hr : r < w) :
    Function.Injective fun x : BitVec w => x.rotateLeft r := by
  intro x y hxy
  have hbit : ∀ i (hi : i < w), (x.rotateLeft r)[i] = (y.rotateLeft r)[i] := by
    intro i hi
    have hxy : x.rotateLeft r = y.rotateLeft r := hxy
    rw [hxy]
  apply BitVec.eq_of_getElem_eq
  intro i hi
  by_cases hwrap : i + r < w
  · have h := hbit (i + r) hwrap
    simpa [Nat.mod_eq_of_lt hr, show ¬ i + r < r by omega] using h
  · have h := hbit (i + r - w) (by omega)
    have hidx : w - r + (i + r - w) = i := by omega
    simpa [Nat.mod_eq_of_lt hr, show i + r - w < r by omega, hidx] using h

/-- What is shifted away on the right stands on the left: equal results differ
by a word that is its own shift. -/
theorem xorShift_injective {s : Nat} (hs : 0 < s) :
    Function.Injective fun x : BitVec w => x ^^^ (x >>> s) := by
  intro x y hxy
  have hxy : x ^^^ (x >>> s) = y ^^^ (y >>> s) := hxy
  -- the difference is its own shift, and only 0 is as small as its quotient
  have hself : (x ^^^ y) ^^^ ((x ^^^ y) >>> s) = 0 := by
    rw [BitVec.ushiftRight_xor_distrib]
    calc
      x ^^^ y ^^^ (x >>> s ^^^ y >>> s) = (x ^^^ x >>> s) ^^^ (y ^^^ y >>> s) := by ac_rfl
      _ = 0 := by rw [hxy, BitVec.xor_self]; rfl
  have hnat := congrArg BitVec.toNat (BitVec.xor_eq_zero_iff.mp hself)
  rw [BitVec.toNat_ushiftRight, Nat.shiftRight_eq_div_pow] at hnat
  have hpow : 1 < 2 ^ s := Nat.one_lt_two_pow (by omega)
  have hzero : (x ^^^ y).toNat = 0 := by
    by_contra hne
    exact absurd hnat (Nat.ne_of_gt (Nat.div_lt_self (Nat.pos_of_ne_zero hne) hpow))
  exact BitVec.xor_eq_zero_iff.mp (BitVec.eq_of_toNat_eq hzero)

/-- On the words of one width nothing lost means everything reached. -/
theorem bijective_of_injective {f : BitVec w → BitVec w} (h : Function.Injective f) :
    Function.Bijective f := by
  have : Finite (BitVec w) := Finite.of_injective BitVec.toFin fun x y hxy => BitVec.toFin_inj.mp hxy
  exact h.bijective_of_finite

end Word

end Lib
