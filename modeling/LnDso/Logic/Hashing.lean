import LnDso.Lib.Mixing
import LnDso.Machine.Xxhash

/-!
# The hash as folds

`XXH32` folds the words of its input into four accumulators, those behind the
last whole stripe into the merged accumulator, and the last bytes after them.
No step loses anything, so two inputs that differ in one word, or in one byte,
have different hashes.
-/

namespace LnDso

open Lib Function

/-! ## The steps -/

theorem xxhPrime32_1_mul : xxhPrime32_1 * 244002641 = 1 := by decide
theorem xxhPrime32_2_mul : xxhPrime32_2 * 3066638151 = 1 := by decide
theorem xxhPrime32_3_mul : xxhPrime32_3 * 2828982549 = 1 := by decide
theorem xxhPrime32_4_mul : xxhPrime32_4 * 2701016015 = 1 := by decide
theorem xxhPrime32_5_mul : xxhPrime32_5 * 2923004241 = 1 := by decide

/-- Add a multiple of the input, rotate, multiply: nothing is lost if both
factors have an inverse. -/
theorem addRotateMul_mixing {c c' d d' : Word} (hc : c * c' = 1) (hd : d * d' = 1) {r : Nat}
    (hr : r < 32) : Mixing fun s a : Word => (s + a * c).rotateLeft r * d where
  state a := by
    intro s t h
    exact (BitVec.add_left_inj _).mp (rotateLeft_injective hr (mul_injective hd h))
  input s := by
    intro a b h
    have hadd := rotateLeft_injective hr (mul_injective hd h)
    exact mul_injective hc ((BitVec.add_right_inj s).mp hadd)

theorem xxh32Round_mixing : Mixing xxh32Round :=
  addRotateMul_mixing xxhPrime32_2_mul xxhPrime32_1_mul (by decide)

theorem xxhProcess4_mixing : Mixing xxhProcess4 :=
  addRotateMul_mixing xxhPrime32_3_mul xxhPrime32_4_mul (by decide)

theorem xxhProcess1_mixing : Mixing xxhProcess1 := by
  have hword := addRotateMul_mixing xxhPrime32_5_mul xxhPrime32_1_mul (show 11 < 32 by decide)
  refine ⟨fun b => hword.state (b.setWidth 32), fun s b b' h => ?_⟩
  have heq := congrArg BitVec.toNat (hword.input s h)
  have hb := b.isLt
  have hb' := b'.isLt
  rw [BitVec.toNat_setWidth, BitVec.toNat_setWidth, Nat.mod_eq_of_lt (by omega),
    Nat.mod_eq_of_lt (by omega)] at heq
  exact BitVec.eq_of_toNat_eq heq

theorem xxh32Avalanche_injective : Injective xxh32Avalanche := by
  intro x y h
  have h := mul_injective xxhPrime32_3_mul (xorShift_injective (s := 16) (by decide) h)
  have h := mul_injective xxhPrime32_2_mul (xorShift_injective (s := 13) (by decide) h)
  exact xorShift_injective (s := 15) (by decide) h

/-! ## The loops -/

/-- Word `k` of an input. -/
def wordAt (xs : List Byte) (k : Nat) : Word := xxhGet32bits (xs.drop (4 * k))

theorem wordAt_drop (xs : List Byte) (n k : Nat) : wordAt (xs.drop (4 * n)) k = wordAt xs (n + k) := by
  rw [wordAt, wordAt, List.drop_drop, Nat.mul_add]

/-- `n` words from word `lo` on, `step` words apart. -/
def wordsAt (xs : List Byte) (lo step n : Nat) : List Word :=
  (List.range n).map fun i => wordAt xs (lo + step * i)

theorem wordsAt_succ (xs : List Byte) (lo step n : Nat) :
    wordsAt xs lo step (n + 1) = wordAt xs lo :: wordsAt (xs.drop (4 * step)) lo step n := by
  rw [wordsAt, List.range_succ_eq_map, List.map_cons, List.map_map]
  congr 1
  apply List.map_congr_left
  intro i _
  rw [comp_apply, wordAt_drop, Nat.mul_succ]
  congr 1
  omega

/-- The stripe loop folds each accumulator over its own words. -/
theorem stripes_eq (v : Lanes) (xs : List Byte) :
    v.stripes xs = (fun j : Fin 4 => (wordsAt xs j 4 (xs.length / 16)).foldl xxh32Round (v j),
      xs.drop (16 * (xs.length / 16))) := by
  induction v, xs using Lanes.stripes.induct with
  | case1 v xs h ih =>
      have hdiv : xs.length / 16 = (xs.drop 16).length / 16 + 1 := by
        rw [List.length_drop]
        omega
      rw [Lanes.stripes, if_pos h, ih, hdiv, List.drop_drop]
      refine Prod.ext ?_ ?_
      · funext j
        dsimp only
        rw [wordsAt_succ]
        rfl
      · dsimp only
        congr 1
        omega
  | case2 v xs h =>
      have hdiv : xs.length / 16 = 0 := by omega
      rw [Lanes.stripes, if_neg h, hdiv]
      rfl

/-- The loops of the finalisation fold the words, then the bytes left. -/
theorem xxh32FinalizeLoop_eq (hash : Word) (xs : List Byte) :
    xxh32FinalizeLoop hash xs = (xs.drop (4 * (xs.length / 4))).foldl xxhProcess1
      ((wordsAt xs 0 1 (xs.length / 4)).foldl xxhProcess4 hash) := by
  induction hash, xs using xxh32FinalizeLoop.induct with
  | case1 hash xs h ih =>
      have hdiv : xs.length / 4 = (xs.drop 4).length / 4 + 1 := by
        rw [List.length_drop]
        omega
      rw [xxh32FinalizeLoop, if_pos h, ih, hdiv, wordsAt_succ, List.drop_drop]
      congr 1
      congr 1
      omega
  | case2 hash xs h =>
      have hdiv : xs.length / 4 = 0 := by omega
      rw [xxh32FinalizeLoop, if_neg h, hdiv]
      rfl

/-- The accumulator in front of the words that make no stripe. -/
def merged (xs : List Byte) (seed : Word) : Word :=
  if 16 ≤ xs.length then
    Lanes.merge fun j : Fin 4 => (wordsAt xs j 4 (xs.length / 16)).foldl xxh32Round (Lanes.init seed j)
  else seed + xxhPrime32_5

/-- `XXH32` as folds over words and bytes. -/
theorem xxh32_eq {xs : List Byte} {len : Word} (hlen : xs.length = len.toNat) (seed : Word) :
    xxh32 xs len seed = xxh32Avalanche
      ((xs.drop (4 * (xs.length / 4))).foldl xxhProcess1
        ((wordsAt xs (4 * (xs.length / 16)) 1 (xs.length % 16 / 4)).foldl xxhProcess4
          (merged xs seed + len))) := by
  let rest := xs.drop (16 * (xs.length / 16))
  have hmask : (len &&& 15 &&& 15).toNat = xs.length % 16 := by
    rw [BitVec.and_assoc, BitVec.toNat_and, hlen]
    exact Nat.and_two_pow_sub_one_eq_mod _ 4
  have hrest : rest.length = xs.length % 16 := by
    rw [List.length_drop]
    omega
  have htail : rest.drop (4 * (xs.length % 16 / 4)) = xs.drop (4 * (xs.length / 4)) := by
    rw [List.drop_drop]
    congr 1
    omega
  have hwords : wordsAt rest 0 1 (xs.length % 16 / 4) =
      wordsAt xs (4 * (xs.length / 16)) 1 (xs.length % 16 / 4) := by
    apply List.map_congr_left
    intro i _
    have hdrop := wordAt_drop xs (4 * (xs.length / 16)) (0 + 1 * i)
    rw [← Nat.mul_assoc] at hdrop
    rw [hdrop]
    congr 1
    omega
  have hfinal : ∀ hash, xxh32Finalize hash rest (len &&& 15) = xxh32Avalanche
      ((xs.drop (4 * (xs.length / 4))).foldl xxhProcess1
        ((wordsAt xs (4 * (xs.length / 16)) 1 (xs.length % 16 / 4)).foldl xxhProcess4 hash)) := by
    intro hash
    rw [xxh32Finalize, hmask, ← hrest, List.take_length, xxh32FinalizeLoop_eq, hrest, htail, hwords]
  rw [← hfinal, merged, xxh32]
  by_cases hlong : 16 ≤ xs.length
  · have hge : 16 ≤ len := by
      rw [BitVec.le_def, ← hlen]
      exact hlong
    rw [if_pos hge, if_pos hlong, stripes_eq]
  · have hlt : ¬ 16 ≤ len := by
      rw [BitVec.le_def, ← hlen]
      exact hlong
    have hzero : xs.length / 16 = 0 := by omega
    rw [if_neg hlt, if_neg hlong]
    show xxh32Finalize _ (xs.drop 0) _ = _
    simp only [rest, hzero, Nat.mul_zero]

/-! ## Inputs that differ in one place -/

variable {xs ys : List Byte} {len : Word}

/-- The inputs agree outside of word `k`. -/
def AgreeOffWord (k : Nat) (xs ys : List Byte) : Prop := ∀ i, i / 4 ≠ k → xs[i]? = ys[i]?

/-- The inputs agree outside of byte `p`. -/
def AgreeOffByte (p : Nat) (xs ys : List Byte) : Prop := ∀ i, i ≠ p → xs[i]? = ys[i]?

theorem wordAt_eq (xs : List Byte) (k : Nat) : wordAt xs k = Word.ofBytes (xs[4 * k]?.getD 0)
    (xs[4 * k + 1]?.getD 0) (xs[4 * k + 2]?.getD 0) (xs[4 * k + 3]?.getD 0) := by
  simp only [wordAt, xxhGet32bits, List.getD_eq_getElem?_getD, List.getElem?_drop, Nat.add_zero]

theorem AgreeOffWord.wordAt {k j : Nat} (h : AgreeOffWord k xs ys) (hj : j ≠ k) :
    wordAt xs j = wordAt ys j := by
  rw [wordAt_eq, wordAt_eq, h (4 * j) (by omega), h (4 * j + 1) (by omega), h (4 * j + 2) (by omega),
    h (4 * j + 3) (by omega)]

/-- Two different inputs differ in the only word they may differ in. -/
theorem AgreeOffWord.wordAt_ne {k : Nat} (h : AgreeOffWord k xs ys) (hlen : xs.length = ys.length)
    (hne : xs ≠ ys) : LnDso.wordAt xs k ≠ LnDso.wordAt ys k := by
  intro heq
  rw [wordAt_eq, wordAt_eq] at heq
  have hbytes := congrArg (fun w => [Word.byte w 0, Word.byte w 1, Word.byte w 2, Word.byte w 3]) heq
  simp only [Word.bytes_ofBytes] at hbytes
  simp only [List.cons.injEq, and_true] at hbytes
  obtain ⟨h0, h1, h2, h3⟩ := hbytes
  have hbyte : ∀ j < 4, xs[4 * k + j]?.getD 0 = ys[4 * k + j]?.getD 0 := by
    intro j hj
    obtain rfl | rfl | rfl | rfl : j = 0 ∨ j = 1 ∨ j = 2 ∨ j = 3 := by omega
    · exact h0
    · exact h1
    · exact h2
    · exact h3
  refine hne (List.ext_getElem hlen fun i hi hi' => ?_)
  by_cases hword : i / 4 = k
  · have hi4 := hbyte (i - 4 * k) (by omega)
    rw [show 4 * k + (i - 4 * k) = i by omega, List.getElem?_eq_getElem hi,
      List.getElem?_eq_getElem hi'] at hi4
    exact hi4
  · have hi4 := h i hword
    rw [List.getElem?_eq_getElem hi, List.getElem?_eq_getElem hi'] at hi4
    exact Option.some.inj hi4

/-- Words that do not include word `k` are those of the other input. -/
theorem AgreeOffWord.wordsAt {k lo step n : Nat} (h : AgreeOffWord k xs ys)
    (hk : ∀ i < n, lo + step * i ≠ k) : wordsAt xs lo step n = wordsAt ys lo step n := by
  apply List.map_congr_left
  intro i hi
  exact h.wordAt (hk i (List.mem_range.mp hi))

/-- The accumulators see no word behind the stripes. -/
theorem AgreeOffWord.merged_eq {k : Nat} (h : AgreeOffWord k xs ys) (hlen : xs.length = ys.length)
    (hk : 4 * (xs.length / 16) ≤ k) (seed : Word) : merged xs seed = merged ys seed := by
  rw [merged, merged, ← hlen]
  split
  · congr 1
    funext j
    have hj := j.isLt
    rw [h.wordsAt fun i hi => by omega]
  · rfl

/-- A fold over words that include word `k` once keeps the inputs apart. -/
theorem AgreeOffWord.fold_ne {k lo step n i : Nat} (h : AgreeOffWord k xs ys)
    (hlen : xs.length = ys.length) (hne : xs ≠ ys) (hstep : 0 < step) (hi : i < n)
    (hki : lo + step * i = k) {f : Word → Word → Word} (hf : Mixing f) (s : Word) :
    (LnDso.wordsAt xs lo step n).foldl f s ≠ (LnDso.wordsAt ys lo step n).foldl f s := by
  have hget : ∀ (zs : List Byte) (j : Nat), (LnDso.wordsAt zs lo step n)[j]? =
      if j < n then some (LnDso.wordAt zs (lo + step * j)) else none := by
    intro zs j
    by_cases hj : j < n
    · simp [LnDso.wordsAt, hj]
    · simp [LnDso.wordsAt, hj]
  refine hf.foldl_differ (i := i) (by simp [LnDso.wordsAt]) (fun j hj => ?_) ?_ s
  · have hother : lo + step * j ≠ k := by
      intro heq
      exact hj (Nat.eq_of_mul_eq_mul_left hstep (Nat.add_left_cancel (heq.trans hki.symm)))
    rw [hget, hget, h.wordAt hother]
  · rw [hget, hget, if_pos hi, if_pos hi, hki]
    exact fun heq => h.wordAt_ne hlen hne (Option.some.inj heq)

/-- The bytes behind the last word, where that is not word `k`. -/
theorem AgreeOffWord.tail {k : Nat} (h : AgreeOffWord k xs ys) (hlen : xs.length = ys.length)
    (hk : 4 * k + 4 ≤ xs.length) :
    xs.drop (4 * (xs.length / 4)) = ys.drop (4 * (ys.length / 4)) := by
  rw [hlen] at hk ⊢
  apply List.ext_getElem?
  intro i
  rw [List.getElem?_drop, List.getElem?_drop]
  exact h _ (by omega)

/-- Accumulators that differ in one place differ when put together. -/
theorem Lanes.merge_ne {v w : Lanes} {j : Fin 4} (hother : ∀ i, i ≠ j → v i = w i)
    (hne : v j ≠ w j) : v.merge ≠ w.merge := by
  have hrot : ∀ {r : Nat}, r < 32 → (v j).rotateLeft r ≠ (w j).rotateLeft r := fun hr heq =>
    hne (rotateLeft_injective hr heq)
  have hj : ∀ j : Fin 4, j = 0 ∨ j = 1 ∨ j = 2 ∨ j = 3 := by decide
  intro heq
  rw [Lanes.merge, Lanes.merge] at heq
  rcases hj j with rfl | rfl | rfl | rfl
  · rw [hother 1 (by decide), hother 2 (by decide), hother 3 (by decide), BitVec.add_left_inj,
      BitVec.add_left_inj, BitVec.add_left_inj] at heq
    exact hrot (by decide) heq
  · rw [hother 0 (by decide), hother 2 (by decide), hother 3 (by decide), BitVec.add_left_inj,
      BitVec.add_left_inj, BitVec.add_right_inj] at heq
    exact hrot (by decide) heq
  · rw [hother 0 (by decide), hother 1 (by decide), hother 3 (by decide), BitVec.add_left_inj,
      BitVec.add_right_inj] at heq
    exact hrot (by decide) heq
  · rw [hother 0 (by decide), hother 1 (by decide), hother 2 (by decide),
      BitVec.add_right_inj] at heq
    exact hrot (by decide) heq

/-- Inputs that differ in one word have different hashes. -/
theorem xxh32_word_ne {k : Nat} (hx : xs.length = len.toNat) (hy : ys.length = len.toNat)
    (h : AgreeOffWord k xs ys) (hk : 4 * k + 4 ≤ len.toNat) (hne : xs ≠ ys) (seed : Word) :
    xxh32 xs len seed ≠ xxh32 ys len seed := by
  have hlen : xs.length = ys.length := hx.trans hy.symm
  rw [← hx] at hk
  rw [xxh32_eq hx, xxh32_eq hy, h.tail hlen hk, ← hlen]
  refine fun heq => ?_
  have heq := xxhProcess1_mixing.foldl_state _ (xxh32Avalanche_injective heq)
  revert heq
  by_cases hstripe : k < 4 * (xs.length / 16)
  · -- the word belongs to a stripe: only its accumulator differs
    have hlong : 16 ≤ xs.length := by omega
    have hmerged : merged xs seed ≠ merged ys seed := by
      have hj : k % 4 < 4 := Nat.mod_lt _ (by decide)
      rw [merged, merged, ← hlen, if_pos hlong, if_pos hlong]
      refine Lanes.merge_ne (j := ⟨k % 4, hj⟩) (fun i hi => ?_) ?_
      · have hmod : i.val ≠ k % 4 := fun heq => hi (Fin.ext heq)
        rw [h.wordsAt fun n _ heq => hmod (by omega)]
      · exact h.fold_ne (i := k / 4) hlen hne (by decide) (by omega) (Nat.mod_add_div k 4)
          xxh32Round_mixing _
    -- the words behind the stripes are the same, and folding them loses nothing
    rw [h.wordsAt fun i _ => by omega]
    exact fun heq => hmerged ((BitVec.add_left_inj len).mp (xxhProcess4_mixing.foldl_state _ heq))
  · rw [h.merged_eq hlen (by omega) seed]
    exact h.fold_ne (i := k - 4 * (xs.length / 16)) hlen hne (by decide) (by omega) (by omega)
      xxhProcess4_mixing _

/-- Inputs that differ in one byte have different hashes. -/
theorem xxh32_byte_ne {p : Nat} (hx : xs.length = len.toNat) (hy : ys.length = len.toNat)
    (h : AgreeOffByte p xs ys) (hne : xs ≠ ys) (seed : Word) :
    xxh32 xs len seed ≠ xxh32 ys len seed := by
  have hlen : xs.length = ys.length := hx.trans hy.symm
  have hword : AgreeOffWord (p / 4) xs ys := fun i hi => h i fun heq => hi (heq ▸ rfl)
  -- a byte of a whole word, or one of the up to three behind the last word
  by_cases hp : 4 * (p / 4) + 4 ≤ len.toNat
  · exact xxh32_word_ne hx hy hword hp hne seed
  · rw [← hx] at hp
    rw [xxh32_eq hx, xxh32_eq hy, ← hlen, hword.merged_eq hlen (by omega) seed, hword.wordsAt fun i hi => by omega]
    refine fun heq => ?_
    have heq := xxh32Avalanche_injective heq
    have hbyte : xs[p]? ≠ ys[p]? := by
      intro hsame
      refine hne (List.ext_getElem? fun i => ?_)
      by_cases hi : i = p
      · rw [hi, hsame]
      · exact h i hi
    have hpx : p < xs.length := by
      by_contra hout
      rw [List.getElem?_eq_none (by omega), List.getElem?_eq_none (by omega)] at hbyte
      exact hbyte rfl
    have hplace : 4 * (xs.length / 4) + (p - 4 * (xs.length / 4)) = p := by omega
    refine xxhProcess1_mixing.foldl_differ (i := p - 4 * (xs.length / 4)) ?_ (fun j hj => ?_) ?_ _ heq
    · rw [List.length_drop, List.length_drop, hlen]
    · rw [List.getElem?_drop, List.getElem?_drop]
      exact h _ (by omega)
    · rw [List.getElem?_drop, List.getElem?_drop, hplace]
      exact hbyte

end LnDso
