import LnDso.Lib.Mem

/-!
# NOR flash cells

Byte cells that a page erase sets to `0xff` and a half-word program changes:
an erased half-word takes the programmed value, and what becomes of one that is
not erased is up to the part (`re`). The rules say what a page erase followed
by a run of half-word programs leaves, and what it does not touch.
-/

namespace Lib.Nor

variable {w : Nat}

/-- Cells over a flat address space that wraps around. -/
abbrev Cells (w : Nat) := BitVec w → Byte

/-- Erase the page of `P` bytes that contains `a`. -/
def erasePage (P : Nat) (m : Cells w) (a : BitVec w) : Cells w :=
  fun b => if b.toNat / P = a.toNat / P then 0xff#8 else m b

/-- The `n` cells from `a` on are erased. -/
def Blank (m : Cells w) (a : BitVec w) (n : Nat) : Prop :=
  ∀ i < n, m (a + BitVec.ofNat w i) = 0xff#8

/-- The half-word at `a`. -/
def half (m : Cells w) (a : BitVec w) : Half := Half.ofBytes (m a) (m (a + 1#w))

/-- Program the half-word at `a`. -/
def programHalf (re : Half → Half → Half) (m : Cells w) (a : BitVec w) (v : Half) : Cells w :=
  let new := if half m a = 0xffff#16 then v else re (half m a) v
  Function.update (Function.update m a (Half.lo new)) (a + 1#w) (Half.hi new)

/-- Program `n` consecutive half-words of `data`, from the one numbered `i` on;
number `i` goes to `a + 2 * i`. -/
def programHalves (re : Half → Half → Half) (data : Nat → Half) (a : BitVec w) :
    (n i : Nat) → Cells w → Cells w
  | 0, _, m => m
  | n + 1, i, m =>
      programHalves re data a n (i + 1) (programHalf re m (a + BitVec.ofNat w (2 * i)) (data i))

theorem add_ofNat_inj (a : BitVec w) {j k : Nat} (hj : j < 2 ^ w) (hk : k < 2 ^ w)
    (h : a + BitVec.ofNat w j = a + BitVec.ofNat w k) : j = k := by
  have h' := congrArg BitVec.toNat (BitVec.add_right_inj a |>.mp h)
  rwa [BitVec.toNat_ofNat, BitVec.toNat_ofNat, Nat.mod_eq_of_lt hj, Nat.mod_eq_of_lt hk] at h'

theorem add_ofNat_succ (a : BitVec w) (j : Nat) :
    a + BitVec.ofNat w j + 1#w = a + BitVec.ofNat w (j + 1) := by
  rw [BitVec.ofNat_add, BitVec.add_assoc]

theorem erasePage_same {P : Nat} {m : Cells w} {a b : BitVec w}
    (h : b.toNat / P = a.toNat / P) : erasePage P m a b = 0xff#8 := if_pos h

theorem erasePage_other {P : Nat} {m : Cells w} {a b : BitVec w}
    (h : b.toNat / P ≠ a.toNat / P) : erasePage P m a b = m b := if_neg h

theorem programHalf_other (re : Half → Half → Half) (m : Cells w) {a b : BitVec w} (v : Half)
    (h0 : b ≠ a) (h1 : b ≠ a + 1#w) : programHalf re m a v b = m b := by
  rw [programHalf, Function.update_of_ne h1, Function.update_of_ne h0]

theorem programHalf_lo {re : Half → Half → Half} {m : Cells w} {a : BitVec w} {v : Half}
    (hne : a ≠ a + 1#w) (h : half m a = 0xffff#16) : programHalf re m a v a = Half.lo v := by
  rw [programHalf, Function.update_of_ne hne, Function.update_self, if_pos h]

theorem programHalf_hi {re : Half → Half → Half} {m : Cells w} {a : BitVec w} {v : Half}
    (h : half m a = 0xffff#16) : programHalf re m a v (a + 1#w) = Half.hi v := by
  rw [programHalf, Function.update_self, if_pos h]

/-- A run of programs leaves every cell outside its range alone. -/
theorem programHalves_other (re : Half → Half → Half) (data : Nat → Half) (a : BitVec w)
    (n i : Nat) (m : Cells w) {b : BitVec w}
    (h : ∀ j, 2 * i ≤ j → j < 2 * (i + n) → b ≠ a + BitVec.ofNat w j) :
    programHalves re data a n i m b = m b := by
  induction n generalizing i m with
  | zero => rfl
  | succ n ih =>
      rw [programHalves, ih (i + 1) _ fun j hj hj' => h j (by omega) (by omega)]
      refine programHalf_other re m _ (h _ (by omega) (by omega)) ?_
      rw [add_ofNat_succ]
      exact h _ (by omega) (by omega)

/-- A run of programs reads its own half-words only. -/
theorem programHalves_congr {re : Half → Half → Half} {data data' : Nat → Half} {a : BitVec w}
    {n i : Nat} {m : Cells w} (h : ∀ k, i ≤ k → k < i + n → data k = data' k) :
    programHalves re data a n i m = programHalves re data' a n i m := by
  induction n generalizing i m with
  | zero => rfl
  | succ n ih =>
      rw [programHalves, programHalves, h i (by omega) (by omega)]
      exact ih fun k hk hk' => h k (by omega) (by omega)

/-- The half-word programmed at byte offset `j` of a run over `data`. -/
def dataByte (data : Nat → Half) (j : Nat) : Byte :=
  if j % 2 = 0 then Half.lo (data (j / 2)) else Half.hi (data (j / 2))

/-- The half-words of a byte memory store its bytes. -/
theorem dataByte_halves (m : Mem) (j : Nat) : dataByte m.halves j = m j := by
  unfold dataByte Mem.halves
  split
  · next heven => rw [Half.lo_ofBytes, show 2 * (j / 2) = j by omega]
  · next hodd => rw [Half.hi_ofBytes, show 2 * (j / 2) + 1 = j by omega]

/-- A run of programs over erased cells stores the data. -/
theorem programHalves_blank (re : Half → Half → Half) (data : Nat → Half) (a : BitVec w)
    (n i : Nat) (m : Cells w) (hw : 2 * (i + n) ≤ 2 ^ w)
    (hb : ∀ j, 2 * i ≤ j → j < 2 * (i + n) → m (a + BitVec.ofNat w j) = 0xff#8)
    {j : Nat} (hj : 2 * i ≤ j) (hj' : j < 2 * (i + n)) :
    programHalves re data a n i m (a + BitVec.ofNat w j) = dataByte data j := by
  induction n generalizing i m with
  | zero => omega
  | succ n ih =>
      have hhalf : half m (a + BitVec.ofNat w (2 * i)) = 0xffff#16 := by
        rw [half, add_ofNat_succ, hb _ (by omega) (by omega), hb _ (by omega) (by omega)]
        rfl
      rw [programHalves]
      by_cases hlow : j < 2 * (i + 1)
      · -- this half-word: later programs leave it alone
        rw [programHalves_other]
        · rcases (show j = 2 * i ∨ j = 2 * i + 1 by omega) with rfl | rfl
          · rw [programHalf_lo _ hhalf, dataByte, if_pos (by omega),
              show 2 * i / 2 = i by omega]
            intro heq
            rw [add_ofNat_succ] at heq
            exact absurd (add_ofNat_inj a (by omega) (by omega) heq) (by omega)
          · rw [← add_ofNat_succ, programHalf_hi hhalf, dataByte, if_neg (by omega),
              show (2 * i + 1) / 2 = i by omega]
        · intro k hk hk' heq
          exact absurd (add_ofNat_inj a (by omega) (by omega) heq) (by omega)
      · refine ih (i + 1) _ (by omega) (fun k hk hk' => ?_) (by omega) (by omega)
        rw [programHalf_other, hb k (by omega) (by omega)]
        · intro heq
          exact absurd (add_ofNat_inj a (by omega) (by omega) heq) (by omega)
        · rw [add_ofNat_succ]
          intro heq
          exact absurd (add_ofNat_inj a (by omega) (by omega) heq) (by omega)

/-! ## What a store needs -/

/-- A half-word that holds `old` takes the program of `v`: it is erased, or the
part leaves `v` in it. -/
def Takes (re : Half → Half → Half) (old v : Half) : Prop := old = 0xffff#16 ∨ re old v = v

theorem half_eq_iff {m : Cells w} {a : BitVec w} {v : Half} :
    half m a = v ↔ m a = Half.lo v ∧ m (a + 1#w) = Half.hi v := by
  constructor
  · rintro rfl
    simp [half]
  · rintro ⟨hlo, hhi⟩
    rw [half, hlo, hhi, Half.ofBytes_lo_hi]

theorem half_programHalf {re : Half → Half → Half} {m : Cells w} {a : BitVec w} {v : Half}
    (hne : a ≠ a + 1#w) : half (programHalf re m a v) a = v ↔ Takes re (half m a) v := by
  have hnew : half (programHalf re m a v) a =
      if half m a = 0xffff#16 then v else re (half m a) v := by
    refine half_eq_iff.mpr ⟨?_, ?_⟩
    · rw [programHalf, Function.update_of_ne hne, Function.update_self]
    · rw [programHalf, Function.update_self]
  rw [hnew, Takes]
  split
  · next herased => simp [herased]
  · next hold => simp [hold]

theorem half_congr {m m' : Cells w} {a : BitVec w} (h0 : m' a = m a)
    (h1 : m' (a + 1#w) = m (a + 1#w)) : half m' a = half m a := by
  rw [half, half, h0, h1]

/-- A run of programs stores a half-word where the half-word before takes it. -/
theorem half_programHalves (re : Half → Half → Half) (data : Nat → Half) (a : BitVec w)
    (n i : Nat) (m : Cells w) (hw : 2 * (i + n) ≤ 2 ^ w) {k : Nat} (hk : i ≤ k) (hk' : k < i + n) :
    half (programHalves re data a n i m) (a + BitVec.ofNat w (2 * k)) = data k ↔
      Takes re (half m (a + BitVec.ofNat w (2 * k))) (data k) := by
  -- offsets below the bound are different addresses
  have hne : ∀ {p q : Nat}, p < 2 ^ w → q < 2 ^ w → p ≠ q →
      a + BitVec.ofNat w p ≠ a + BitVec.ofNat w q :=
    fun hp hq hpq heq => hpq (add_ofNat_inj a hp hq heq)
  induction n generalizing i m with
  | zero => omega
  | succ n ih =>
      rw [programHalves]
      rcases Nat.eq_or_lt_of_le hk with rfl | hlt
      · -- later programs leave this half-word alone
        rw [half_congr (m := programHalf re m (a + BitVec.ofNat w (2 * i)) (data i))]
        · refine half_programHalf ?_
          rw [add_ofNat_succ]
          exact hne (by omega) (by omega) (by omega)
        · refine programHalves_other re data a n (i + 1) _ fun j hj hj' => ?_
          exact hne (by omega) (by omega) (by omega)
        · rw [add_ofNat_succ]
          refine programHalves_other re data a n (i + 1) _ fun j hj hj' => ?_
          exact hne (by omega) (by omega) (by omega)
      · refine (ih (i + 1) _ (by omega) hlt (by omega)).trans ?_
        rw [half_congr (m := m)]
        · refine programHalf_other re m _ (hne (by omega) (by omega) (by omega)) ?_
          rw [add_ofNat_succ]
          exact hne (by omega) (by omega) (by omega)
        · rw [add_ofNat_succ]
          refine programHalf_other re m _ (hne (by omega) (by omega) (by omega)) ?_
          rw [add_ofNat_succ]
          exact hne (by omega) (by omega) (by omega)

/-- A run of programs stores the data, byte for byte, exactly where every
half-word takes its program. -/
theorem programHalves_exact (re : Half → Half → Half) (data : Nat → Half) (a : BitVec w) (n : Nat)
    (m : Cells w) (hw : 2 * n ≤ 2 ^ w) :
    (∀ j < 2 * n, programHalves re data a n 0 m (a + BitVec.ofNat w j) = dataByte data j) ↔
      ∀ k < n, Takes re (half m (a + BitVec.ofNat w (2 * k))) (data k) := by
  have hhalf : ∀ k < n, half (programHalves re data a n 0 m) (a + BitVec.ofNat w (2 * k)) = data k ↔
      Takes re (half m (a + BitVec.ofNat w (2 * k))) (data k) := fun k hk =>
    half_programHalves re data a n 0 m (by omega) (Nat.zero_le k) (by omega)
  have hlo : ∀ k, dataByte data (2 * k) = Half.lo (data k) := fun k => by
    rw [dataByte, if_pos (by omega), show 2 * k / 2 = k by omega]
  have hhi : ∀ k, dataByte data (2 * k + 1) = Half.hi (data k) := fun k => by
    rw [dataByte, if_neg (by omega), show (2 * k + 1) / 2 = k by omega]
  constructor
  · intro h k hk
    refine (hhalf k hk).mp (half_eq_iff.mpr ⟨?_, ?_⟩)
    · rw [h (2 * k) (by omega), hlo]
    · rw [add_ofNat_succ, h (2 * k + 1) (by omega), hhi]
  · intro h j hj
    obtain ⟨hl, hh⟩ := half_eq_iff.mp ((hhalf (j / 2) (by omega)).mpr (h (j / 2) (by omega)))
    rw [add_ofNat_succ] at hh
    rcases Nat.mod_two_eq_zero_or_one j with heven | hodd
    · rw [show j = 2 * (j / 2) by omega, hl, hlo]
    · rw [show j = 2 * (j / 2) + 1 by omega, hh, hhi]

/-! ## Pages erased on demand -/

instance (m : Cells w) (a : BitVec w) (n : Nat) : Decidable (Blank m a n) :=
  inferInstanceAs (Decidable (∀ i < n, m (a + BitVec.ofNat w i) = 0xff#8))

/-- Erase the page that contains `a`, unless the `P` cells from `a` on are erased. -/
def ensureErased (P : Nat) (m : Cells w) (a : BitVec w) : Cells w :=
  if Blank m a P then m else erasePage P m a

/-- The cells with those from `lo` up to `hi` erased. -/
def eraseRange (lo hi : Nat) (m : Cells w) : Cells w :=
  fun b => if lo ≤ b.toNat ∧ b.toNat < hi then 0xff#8 else m b

/-- What is erased stays so. -/
theorem ensureErased_erased {P : Nat} {m : Cells w} {a b : BitVec w} (h : m b = 0xff#8) :
    ensureErased P m a b = 0xff#8 := by
  unfold ensureErased
  split
  · exact h
  · by_cases hpage : b.toNat / P = a.toNat / P
    · exact erasePage_same hpage
    · rw [erasePage_other hpage, h]

/-- On a whole page it makes no difference whether the page was blank. -/
theorem ensureErased_page {P : Nat} (hpos : 0 < P) (m : Cells w) {a : BitVec w}
    (ha : a.toNat % P = 0) :
    ensureErased P m a = eraseRange a.toNat (a.toNat + P) m := by
  funext b
  have hb := b.isLt
  obtain ⟨k, hk⟩ := Nat.dvd_of_mod_eq_zero ha
  by_cases hin : a.toNat ≤ b.toNat ∧ b.toNat < a.toNat + P
  · rw [eraseRange, if_pos hin, ensureErased]
    split
    · next hblank =>
      have hadd : a + BitVec.ofNat w (b.toNat - a.toNat) = b := by
        apply BitVec.eq_of_toNat_eq
        rw [BitVec.toNat_add, BitVec.toNat_ofNat, Nat.mod_eq_of_lt (a := b.toNat - a.toNat) (by omega),
          Nat.add_sub_cancel' hin.1, Nat.mod_eq_of_lt hb]
      rw [← hadd]
      exact hblank _ (by omega)
    · refine erasePage_same ?_
      rw [hk, Nat.mul_div_cancel_left k hpos, Nat.div_eq_of_lt_le]
      · rw [Nat.mul_comm]
        omega
      · rw [Nat.mul_comm, Nat.mul_succ]
        omega
  · rw [eraseRange, if_neg hin, ensureErased]
    split
    · rfl
    · refine erasePage_other fun hsame => hin ?_
      rw [hk, Nat.mul_div_cancel_left k hpos] at hsame
      have hlo := Nat.div_mul_le_self b.toNat P
      have hhi := Nat.lt_div_mul_add (a := b.toNat) hpos
      rw [hsame, Nat.mul_comm] at hlo hhi
      omega

theorem eraseRange_append {lo mid hi : Nat} (h : lo ≤ mid) (h' : mid ≤ hi) (m : Cells w) :
    eraseRange mid hi (eraseRange lo mid m) = eraseRange lo hi m := by
  funext b
  simp only [eraseRange]
  split
  · rw [if_pos (by omega)]
  · split
    · rw [if_pos (by omega)]
    · rw [if_neg (by omega)]

theorem eraseRange_empty {lo hi : Nat} (h : hi ≤ lo) (m : Cells w) : eraseRange lo hi m = m := by
  funext b
  exact if_neg (by omega)

/-- What differs only inside the range is the same once the range is erased. -/
theorem eraseRange_congr {lo hi : Nat} {m m' : Cells w}
    (h : ∀ b, ¬ (lo ≤ b.toNat ∧ b.toNat < hi) → m' b = m b) :
    eraseRange lo hi m' = eraseRange lo hi m := by
  funext b
  simp only [eraseRange]
  split
  · rfl
  · next hout => exact h b hout

end Lib.Nor
