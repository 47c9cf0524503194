import LnDso.Lib.Lzss
import Mathlib.Data.List.Induction
import Mathlib.Data.Nat.Bitwise

/-!
# LZSS tokens

The tokens of a stream written out. A list of tokens that fit their fields,
packed into bytes, is expanded to what the tokens say, whatever comes after.
-/

namespace Lib

namespace Bits

variable {s : Nat → Byte} {i n k : Nat}

/-- The `n` bits of `k`, most significant first. -/
def ofNat (n k : Nat) : List Bool := (List.range n).map fun j => k.testBit (n - 1 - j)

@[simp] theorem length_ofNat (n k : Nat) : (ofNat n k).length = n := by
  simp [ofNat]

theorem getElem?_ofNat {j : Nat} (hj : j < n) : (ofNat n k)[j]? = some (k.testBit (n - 1 - j)) := by
  simp [ofNat, hj]

/-- A field reads back the number whose bits it has. -/
theorem field_ofNat (hk : k < 2 ^ n) (h : ∀ j < n, bitAt s (i + j) = k.testBit (n - 1 - j)) :
    field s i n = k := by
  induction n generalizing k with
  | zero =>
      rw [Nat.pow_zero] at hk
      rw [field]
      omega
  | succ n ih =>
      have hhalf : field s i n = k / 2 := by
        rw [Nat.pow_succ] at hk
        refine ih (by omega) fun j hj => ?_
        rw [h j (by omega), Nat.testBit_div_two]
        congr 1
        omega
      have hlast : (bitAt s (i + n)).toNat = k % 2 := by
        rw [h n (Nat.lt_succ_self n), Nat.add_sub_cancel, Nat.sub_self, Nat.testBit_zero]
        rcases Nat.mod_two_eq_zero_or_one k with hmod | hmod <;> simp [hmod]
      rw [field, hhalf, hlast]
      omega

/-- The bits of some bytes are those of a stream that has them. -/
theorem getElem?_stream {bytes : List Byte} (h : ∀ q < bytes.length, bytes[q]? = some (s q))
    (hi : i < 8 * bytes.length) : (stream bytes)[i]? = some (bitAt s i) := by
  induction bytes generalizing s i with
  | nil => exact absurd hi (by simp)
  | cons b bytes ih =>
      rw [stream_cons]
      by_cases hlt : i < 8
      · have hb : b = s 0 := by simpa using h 0 (by simp)
        rw [List.getElem?_append_left (by rw [length_ofByte]; exact hlt), bitAt,
          Nat.div_eq_of_lt hlt, Nat.mod_eq_of_lt hlt, ← hb]
        simp [ofByte, hlt]
      · obtain ⟨j, rfl⟩ : ∃ j, i = j + 8 := ⟨i - 8, by omega⟩
        rw [List.length_cons] at hi
        have hrest := ih (s := fun q => s (q + 1)) (i := j)
          (fun q hq => by simpa using h (q + 1) (by simpa using hq)) (by omega)
        rw [List.getElem?_append_right (by rw [length_ofByte]; omega), length_ofByte,
          Nat.add_sub_cancel, hrest, bitAt, bitAt, Nat.add_div_right j (by decide),
          Nat.add_mod_right]

/-- The bytes that hold some bits, zeros after the last. -/
def pack (bs : List Bool) : List Byte := wholeBytes (bs ++ List.replicate 7 false)

@[simp] theorem length_pack (bs : List Bool) : (pack bs).length = (bs.length + 7) / 8 := by
  rw [pack, length_wholeBytes, List.length_append, List.length_replicate]

/-- A stream that begins with the bytes begins with the bits. -/
theorem bitAt_pack {bs : List Bool} (h : ∀ q < (pack bs).length, (pack bs)[q]? = some (s q))
    (hi : i < bs.length) : bs[i]? = some (bitAt s i) := by
  have hroom : bs.length ≤ 8 * ((bs.length + 7) / 8) := by omega
  rw [← getElem?_stream h (by rw [length_pack]; omega), pack, stream_wholeBytes, List.length_append,
    List.length_replicate, List.getElem?_take_of_lt (by omega), List.getElem?_append_left hi]

end Bits

namespace Lzss

/-- A token: a byte, or `n` bytes from `k` places back. -/
inductive Tok
  | literal (c : Byte)
  | back (k n : Nat)

variable {w l i : Nat} {s : Nat → Byte} {t : Tok} {toks : List Tok}

namespace Tok

/-- The fields can say it. -/
def Fits (w l : Nat) : Tok → Prop
  | literal _ => True
  | back k n => 1 ≤ k ∧ k ≤ 2 ^ w ∧ 1 ≤ n ∧ n ≤ 2 ^ l

def bits (w l : Nat) : Tok → List Bool
  | literal c => true :: Bits.ofNat 8 c.toNat
  | back k n => false :: (Bits.ofNat w (k - 1) ++ Bits.ofNat l (n - 1))

/-- What it puts out. -/
def apply (out : List Byte) : Tok → List Byte
  | literal c => out ++ [c]
  | back k n => copy k n out

end Tok

/-- What the tokens put out. -/
def meaning (toks : List Tok) : List Byte := toks.foldl Tok.apply []

def encode (w l : Nat) (toks : List Tok) : List Byte := Bits.pack (toks.flatMap (Tok.bits w l))

/-- One token, where its bits are. -/
theorem token_bits (pos : Nat) (out : List Byte) (hfit : t.Fits w l)
    (h : ∀ i < (t.bits w l).length, (t.bits w l)[i]? = some (Bits.bitAt s (pos + i))) :
    token w l s ⟨pos, out⟩ = ⟨pos + (t.bits w l).length, t.apply out⟩ := by
  cases t with
  | literal c =>
      have htag : Bits.bitAt s pos = true := by
        simpa [Tok.bits] using (h 0 (by simp [Tok.bits])).symm
      have hfield : Bits.field s (pos + 1) 8 = c.toNat := by
        refine Bits.field_ofNat c.isLt fun j hj => ?_
        have hbit := h (j + 1) (by simp [Tok.bits]; omega)
        rw [Tok.bits, List.getElem?_cons_succ, Bits.getElem?_ofNat hj] at hbit
        rw [Nat.add_right_comm pos 1 j]
        exact (Option.some.inj hbit).symm
      rw [token, if_pos htag, hfield, BitVec.ofNat_toNat, BitVec.setWidth_eq]
      simp [Tok.bits, Tok.apply]
  | back k n =>
      obtain ⟨hk, hw, hn, hl⟩ := hfit
      have htag : Bits.bitAt s pos = false := by
        simpa [Tok.bits] using (h 0 (by simp [Tok.bits])).symm
      -- index and count are stored less one
      have hindex : Bits.field s (pos + 1) w = k - 1 := by
        refine Bits.field_ofNat (by omega) fun j hj => ?_
        have hbit := h (j + 1) (by simp [Tok.bits]; omega)
        rw [Tok.bits, List.getElem?_cons_succ,
          List.getElem?_append_left (by rw [Bits.length_ofNat]; exact hj),
          Bits.getElem?_ofNat hj] at hbit
        rw [Nat.add_right_comm pos 1 j]
        exact (Option.some.inj hbit).symm
      have hcount : Bits.field s (pos + 1 + w) l = n - 1 := by
        refine Bits.field_ofNat (by omega) fun j hj => ?_
        have hbit := h (w + j + 1) (by simp [Tok.bits]; omega)
        rw [Tok.bits, List.getElem?_cons_succ,
          List.getElem?_append_right (by rw [Bits.length_ofNat]; omega), Bits.length_ofNat,
          Nat.add_sub_cancel_left, Bits.getElem?_ofNat hj] at hbit
        rw [show pos + 1 + w + j = pos + (w + j + 1) by omega]
        exact (Option.some.inj hbit).symm
      rw [token, htag, if_neg Bool.false_ne_true, hindex, hcount, Nat.sub_add_cancel hk,
        Nat.sub_add_cancel hn]
      simp [Tok.bits, Tok.apply]
      omega

/-- A stream that begins with the bits of some tokens begins with the tokens. -/
theorem tokens_bits (hfit : ∀ t ∈ toks, t.Fits w l)
    (h : ∀ i < (toks.flatMap (Tok.bits w l)).length,
      (toks.flatMap (Tok.bits w l))[i]? = some (Bits.bitAt s i)) :
    tokens w l s toks.length = ⟨(toks.flatMap (Tok.bits w l)).length, meaning toks⟩ := by
  induction toks using List.reverseRecOn with
  | nil => rfl
  | append_singleton toks t ih =>
      rw [List.flatMap_append, List.flatMap_singleton] at h ⊢
      have hbefore := ih (fun u hu => hfit u (List.mem_append_left _ hu)) fun i hi => by
        rw [← h i (by rw [List.length_append]; omega), List.getElem?_append_left hi]
      rw [List.length_append, List.length_singleton, tokens, hbefore, List.length_append]
      -- the last token starts where the others have ended
      have hone := token_bits (s := s) _ (meaning toks)
        (hfit t (List.mem_append_right _ List.mem_cons_self)) fun i hi => by
          rw [← h _ (by rw [List.length_append]; exact Nat.add_lt_add_left hi _),
            List.getElem?_append_right (Nat.le_add_right _ _), Nat.add_sub_cancel_left]
      rw [hone, meaning, meaning, List.foldl_append]
      rfl

/-- The expansion of an encoding begins with what its tokens mean. -/
theorem expand_encode (hfit : ∀ t ∈ toks, t.Fits w l)
    (h : ∀ q < (encode w l toks).length, (encode w l toks)[q]? = some (s q))
    (hi : i < (meaning toks).length) : (meaning toks)[i]? = some (expand w l s i) := by
  have htokens := tokens_bits hfit fun i hi => Bits.bitAt_pack h hi
  have hprefix : meaning toks <+: (tokens w l s toks.length).out := by simp [htokens]
  rw [← getD_expand hprefix hi, List.getElem?_eq_getElem hi]
  exact congrArg some (List.getD_eq_getElem _ _ hi).symm

/-! ## Literals only -/

/-- A token for each byte. -/
def literals (out : List Byte) : List Tok := out.map .literal

theorem literals_fit (out : List Byte) : ∀ t ∈ literals out, t.Fits w l := by
  intro t ht
  obtain ⟨c, -, rfl⟩ := List.mem_map.mp ht
  trivial

theorem length_encode_literals (out : List Byte) :
    (encode w l (literals out)).length = (9 * out.length + 7) / 8 := by
  have hbits : ((literals out).flatMap (Tok.bits w l)).length = 9 * out.length := by
    induction out with
    | nil => rfl
    | cons c out ih =>
        rw [literals, List.map_cons, List.flatMap_cons, List.length_append, ← literals, ih,
          Tok.bits, List.length_cons, Bits.length_ofNat, List.length_cons]
        omega
  rw [encode, Bits.length_pack, hbits]

theorem meaning_literals (out : List Byte) : meaning (literals out) = out := by
  induction out using List.reverseRecOn with
  | nil => rfl
  | append_singleton out c ih =>
      rw [meaning, literals] at ih
      rw [meaning, literals, List.map_append, List.foldl_append, ih]
      rfl

end Lzss

end Lib
