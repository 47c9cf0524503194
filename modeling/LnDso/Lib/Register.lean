import Mathlib.Tactic.Common

/-!
# Registers

A register with bits that only the hardware writes, and what is known of a register
under a mask: code that clears some bits and sets others changes it in one way.
-/

namespace Lib

namespace Register

variable {w : Nat} {x k b c m ro : BitVec w}

/-- Bits cleared outside of `k`, then the bits `b` set. -/
def assign (k b x : BitVec w) : BitVec w := (x &&& k) ||| b

/-- A write to a register whose bits `ro` the hardware keeps. -/
def write (ro old v : BitVec w) : BitVec w := (v &&& ~~~ro) ||| (old &&& ro)

/-- Reading a register, changing it and writing it back changes what the hardware
does not keep. -/
theorem write_assign (ro k b x : BitVec w) :
    write ro x (assign k b x) = assign (k ||| ro) (b &&& ~~~ro) x := by
  apply BitVec.eq_of_getLsbD_eq
  intro i hi
  simp only [write, assign, BitVec.getLsbD_or, BitVec.getLsbD_and, BitVec.getLsbD_not]
  cases x.getLsbD i <;> cases k.getLsbD i <;> cases b.getLsbD i <;> cases ro.getLsbD i <;> simp [hi]

/-- A change makes known the bits it clears or sets, besides those known before it. -/
theorem assign_known (h : x &&& m = c) :
    assign k b x &&& (m ||| b ||| ~~~k) = (c &&& k) ||| b := by
  rw [← h, assign]
  apply BitVec.eq_of_getLsbD_eq
  intro i hi
  simp only [BitVec.getLsbD_or, BitVec.getLsbD_and, BitVec.getLsbD_not]
  cases x.getLsbD i <;> cases k.getLsbD i <;> cases b.getLsbD i <;> cases m.getLsbD i <;> simp [hi]

/-- What is known under a mask is known under a smaller one. -/
theorem and_of_and {m' : BitVec w} (h : x &&& m = c) (hsub : m &&& m' = m') : x &&& m' = c &&& m' := by
  rw [← h, BitVec.and_assoc, hsub]

/-- What a change makes of what is known, under the mask `m'`. -/
theorem assign_and {m' c' : BitVec w} (h : x &&& m = c) (hsub : (m ||| b ||| ~~~k) &&& m' = m')
    (hc : ((c &&& k) ||| b) &&& m' = c') : assign k b x &&& m' = c' :=
  (and_of_and (assign_known h) hsub).trans hc

/-- A change of other bits. -/
theorem assign_and_of_disjoint (hk : ~~~k &&& m = 0) (hb : b &&& m = 0) :
    assign k b x &&& m = x &&& m := by
  have hbits : ∀ i, m.getLsbD i = true → k.getLsbD i = true ∧ b.getLsbD i = false := by
    intro i hi
    have hkeep := congrArg (BitVec.getLsbD · i) hk
    have hset := congrArg (BitVec.getLsbD · i) hb
    simp only [BitVec.getLsbD_and, BitVec.getLsbD_not, hi, Bool.and_true] at hkeep hset
    have hlt : i < w := BitVec.lt_of_getLsbD hi
    simp only [hlt, decide_true, Bool.true_and] at hkeep
    exact ⟨by simpa using hkeep, by simpa using hset⟩
  apply BitVec.eq_of_getLsbD_eq
  intro i hi
  simp only [assign, BitVec.getLsbD_or, BitVec.getLsbD_and]
  cases hm : m.getLsbD i with
  | false => simp
  | true => simp [hbits i hm]

/-- A field that is replaced. -/
theorem assign_and_field (hk : k &&& m = 0) (hb : b &&& m = b) : assign k b x &&& m = b := by
  rw [assign, show (x &&& k ||| b) &&& m = (x &&& (k &&& m)) ||| (b &&& m) from ?_, hk, hb]
  · simp
  apply BitVec.eq_of_getLsbD_eq
  intro i hi
  simp only [BitVec.getLsbD_or, BitVec.getLsbD_and]
  cases x.getLsbD i <;> cases k.getLsbD i <;> cases b.getLsbD i <;> cases m.getLsbD i <;> rfl

/-- Bits that are set under a mask under which they are set already. -/
theorem or_and (h : x &&& m = c) (hc : (c ||| b) &&& m = c) : (x ||| b) &&& m = c := by
  rw [← h] at hc ⊢
  rw [← hc]
  apply BitVec.eq_of_getLsbD_eq
  intro i hi
  simp only [BitVec.getLsbD_or, BitVec.getLsbD_and]
  cases x.getLsbD i <;> cases m.getLsbD i <;> cases b.getLsbD i <;> rfl

theorem or_and_self (x b : BitVec w) : (x ||| b) &&& b = b := by
  apply BitVec.eq_of_getLsbD_eq
  intro i hi
  simp only [BitVec.getLsbD_or, BitVec.getLsbD_and]
  cases x.getLsbD i <;> cases b.getLsbD i <;> rfl

/-- What is known under a mask gives the fields under it. -/
theorem extract_of_and (h : x &&& m = c) {i n : Nat} (hm : m.extractLsb' i n = BitVec.allOnes n) :
    x.extractLsb' i n = c.extractLsb' i n := by
  rw [← h, BitVec.extractLsb'_and, hm, BitVec.and_allOnes]

theorem getLsbD_of_and (h : x &&& m = c) {i : Nat} (hm : m.getLsbD i = true) :
    x.getLsbD i = c.getLsbD i := by
  rw [← h, BitVec.getLsbD_and, hm, Bool.and_true]

end Register

end Lib
