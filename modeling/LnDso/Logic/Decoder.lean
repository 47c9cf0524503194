import LnDso.Lib.Lzss
import LnDso.Machine.Heatshrink

/-!
# The decoder and the expansion

The decoder stops wherever its input or output ends and goes on from there. Its
state says where it stands: how many bits of the stream it has taken, how many
bytes were sunk, and how far it is in a token. Every turn of the poll loop moves
it along the expansion, and a full input buffer moves it to the next byte.
-/

namespace LnDso

open Lib

namespace HeatshrinkDecoder

variable {s : Nat → Byte} {d d' : HeatshrinkDecoder} {b e count n : Nat} {accumulator : Half}

/-! ## Bits -/

/-- `b` bits of the stream are taken and `e` bytes sunk: the rest is the current
byte from `bit_index` down, and the input buffer. -/
structure Feed (s : Nat → Byte) (d : HeatshrinkDecoder) (b e : Nat) : Prop where
  bits : ∃ k ≤ 8, d.bitIndex.toNat = 2 ^ k / 2 ∧
    b + k + 8 * (d.inputSize.toNat - d.inputIndex.toNat) = 8 * e ∧
    (0 < k → d.currentByte = s (b / 8))
  index : d.inputIndex.toNat < d.inputSize.toNat ∨ d.inputIndex = 0 ∧ d.inputSize = 0
  size : d.inputSize.toNat ≤ inputBufferSize
  buffered : ∀ j < d.inputSize.toNat - d.inputIndex.toNat,
    d.buffers (d.inputIndex.toNat + j) = s (e - (d.inputSize.toNat - d.inputIndex.toNat) + j)

theorem feed_reset (s : Nat → Byte) : reset.Feed s 0 0 where
  bits := ⟨0, Nat.zero_le 8, rfl, rfl, fun h => absurd h (Nat.lt_irrefl 0)⟩
  index := .inr ⟨rfl, rfl⟩
  size := Nat.zero_le _
  buffered := fun j hj => absurd hj (Nat.not_lt_zero j)

theorem Feed.le (h : d.Feed s b e) : b ≤ 8 * e ∧ 8 * e ≤ b + 264 := by
  obtain ⟨k, hk, -, hb, -⟩ := h.bits
  have hsize := h.size
  simp only [inputBufferSize] at hsize
  omega

theorem Feed.exhausted (h : d.Feed s b e) (hn : 8 * e < b + 8) : d.inputSize = 0 := by
  obtain ⟨k, -, -, hb, -⟩ := h.bits
  rcases h.index with hlt | ⟨-, hsize⟩
  · omega
  · exact hsize

/-- With an empty input buffer the bits left are those of the current byte. -/
theorem Feed.lastByte (h : d.Feed s b e) (hsize : d.inputSize = 0) :
    d.bitIndex.toNat = 2 ^ (8 * e - b) / 2 := by
  obtain ⟨k, -, hk, hb, -⟩ := h.bits
  have hzero : d.inputSize.toNat = 0 := by
    rw [hsize]
    rfl
  rw [hk, show 8 * e - b = k by omega]

theorem two_pow_half (k : Nat) : 2 ^ (k + 1) / 2 = 2 ^ k := by
  rw [Nat.pow_succ, Nat.mul_div_cancel _ Nat.two_pos]

/-- What `get_bits` leaves alone. -/
structure SameOut (d d' : HeatshrinkDecoder) : Prop where
  outputCount : d'.outputCount = d.outputCount
  outputIndex : d'.outputIndex = d.outputIndex
  headIndex : d'.headIndex = d.headIndex
  buffers : d'.buffers = d.buffers

theorem SameOut.refl (d : HeatshrinkDecoder) : SameOut d d := ⟨rfl, rfl, rfl, rfl⟩

theorem SameOut.trans {d'' : HeatshrinkDecoder} (h : SameOut d d') (h' : SameOut d' d'') :
    SameOut d d'' :=
  ⟨h'.outputCount.trans h.outputCount, h'.outputIndex.trans h.outputIndex,
    h'.headIndex.trans h.headIndex, h'.buffers.trans h.buffers⟩

/-- The input side alone decides what is fed. -/
theorem Feed.congr (h : d.Feed s b e) (hsize : d'.inputSize = d.inputSize)
    (hindex : d'.inputIndex = d.inputIndex) (hbit : d'.bitIndex = d.bitIndex)
    (hbyte : d'.currentByte = d.currentByte)
    (hbuf : ∀ i < inputBufferSize, d'.buffers i = d.buffers i) : d'.Feed s b e := by
  have hle := h.size
  refine ⟨?_, ?_, ?_, fun j hj => ?_⟩
  · rw [hsize, hindex, hbit, hbyte]
    exact h.bits
  · rw [hsize, hindex]
    exact h.index
  · rw [hsize]
    exact h.size
  · rw [hsize, hindex] at hj ⊢
    rw [hbuf _ (by omega)]
    exact h.buffered j hj

theorem Feed.pullByte (h : d.Feed s b e) (hbit : d.bitIndex = 0) (hsize : d.inputSize ≠ 0) :
    d.pullByte.Feed s b e ∧ d.pullByte.bitIndex = 0x80 ∧ SameOut d d.pullByte := by
  obtain ⟨k, -, hk, hb, -⟩ := h.bits
  have hk0 : k = 0 := by
    rw [hbit] at hk
    cases k with
    | zero => rfl
    | succ k =>
        rw [two_pow_half] at hk
        exact absurd hk.symm (Nat.pos_iff_ne_zero.mp (Nat.two_pow_pos k))
  have hlt : d.inputIndex.toNat < d.inputSize.toNat := by
    rcases h.index with hlt | ⟨-, hzero⟩
    · exact hlt
    · exact absurd hzero hsize
  have hle := h.size
  simp only [inputBufferSize] at hle
  have hnext : (d.inputIndex + 1).toNat = d.inputIndex.toNat + 1 := by
    rw [BitVec.toNat_add]
    exact Nat.mod_eq_of_lt (by simp; omega)
  have hbyte : d.buffers d.inputIndex.toNat = s (b / 8) := by
    have hfirst := h.buffered 0 (by omega)
    rw [Nat.add_zero, Nat.add_zero] at hfirst
    rw [hfirst]
    congr 1
    omega
  by_cases heq : d.inputIndex + 1 = d.inputSize
  · rw [HeatshrinkDecoder.pullByte, if_pos heq]
    refine ⟨⟨⟨8, Nat.le_refl 8, rfl, ?_, fun _ => hbyte⟩, .inr ⟨rfl, rfl⟩, Nat.zero_le _, ?_⟩, rfl,
      rfl, rfl, rfl, rfl⟩
    · rw [← heq, hnext] at hb
      simp
      omega
    · intro j hj
      exact absurd hj (Nat.not_lt_zero j)
  · rw [HeatshrinkDecoder.pullByte, if_neg heq]
    have hne : d.inputIndex.toNat + 1 ≠ d.inputSize.toNat := by
      intro hsame
      exact heq (BitVec.eq_of_toNat_eq (hnext.trans hsame))
    refine ⟨⟨⟨8, Nat.le_refl 8, rfl, ?_, fun _ => hbyte⟩, .inl ?_, h.size, ?_⟩, rfl,
      rfl, rfl, rfl, rfl⟩
    · simp only [hnext]
      omega
    · simp only [hnext]
      omega
    · simp only [hnext]
      intro j hj
      have hrest := h.buffered (j + 1) (by omega)
      rw [show d.inputIndex.toNat + 1 + j = d.inputIndex.toNat + (j + 1) by omega, hrest]
      congr 1
      omega

/-- The bit under `bit_index`, and one less to take. -/
theorem Feed.shift (h : d.Feed s b e) (hbit : d.bitIndex ≠ 0) :
    (d.currentByte &&& d.bitIndex ≠ 0 ↔ Bits.bitAt s b = true) ∧
    Feed s { d with bitIndex := d.bitIndex >>> 1 } (b + 1) e := by
  obtain ⟨k, hk8, hk, hb, hbyte⟩ := h.bits
  cases k with
  | zero => exact absurd (BitVec.eq_of_toNat_eq hk) hbit
  | succ k =>
      rw [two_pow_half] at hk
      have hmod : b % 8 = 7 - k := by omega
      have hmask : d.bitIndex = BitVec.twoPow 8 k := by
        apply BitVec.eq_of_toNat_eq
        rw [hk, BitVec.toNat_twoPow_of_lt (by omega)]
      constructor
      · rw [hbyte (Nat.succ_pos k), hmask, Bits.bitAt, hmod, BitVec.getMsbD_eq_getLsbD,
          decide_eq_true (by omega), Bool.true_and, show 8 - 1 - (7 - k) = k by omega,
          BitVec.and_twoPow]
        cases hget : (s (b / 8)).getLsbD k
        · simp
        · simp only [if_true, ne_eq, iff_true]
          rw [BitVec.twoPow_eq]
          intro hzero
          have hnat := congrArg BitVec.toNat hzero
          rw [← BitVec.twoPow_eq, BitVec.toNat_twoPow_of_lt (by omega)] at hnat
          exact absurd hnat (Nat.pos_iff_ne_zero.mp (Nat.two_pow_pos k))
      · refine ⟨⟨k, by omega, ?_, by simp only; omega, ?_⟩, h.index, h.size, h.buffered⟩
        · rw [BitVec.toNat_ushiftRight, hk, Nat.shiftRight_eq_div_pow, Nat.pow_one]
        · intro hpos
          rw [show (b + 1) / 8 = b / 8 by omega]
          exact hbyte (Nat.succ_pos k)

/-- A bit is there to take, and it is the next one of the stream. -/
theorem Feed.take (h : d.Feed s b e) (hlt : b < 8 * e) :
    ¬ (d.bitIndex = 0 ∧ d.inputSize = 0) ∧
    ∃ d', (if d.bitIndex = 0 then d.pullByte else d) = d' ∧
      (d'.currentByte &&& d'.bitIndex ≠ 0 ↔ Bits.bitAt s b = true) ∧
      Feed s { d' with bitIndex := d'.bitIndex >>> 1 } (b + 1) e ∧ SameOut d d' := by
  by_cases hbit : d.bitIndex = 0
  · have hsize : d.inputSize ≠ 0 := by
      intro hzero
      have hlast := h.lastByte hzero
      obtain ⟨j, hj⟩ : ∃ j, 8 * e - b = j + 1 := ⟨8 * e - b - 1, by omega⟩
      rw [hbit, hj, two_pow_half] at hlast
      exact absurd hlast.symm (Nat.pos_iff_ne_zero.mp (Nat.two_pow_pos j))
    obtain ⟨hfeed, hnew, hsame⟩ := h.pullByte hbit hsize
    have hne : d.pullByte.bitIndex ≠ 0 := by
      rw [hnew]
      decide
    obtain ⟨hvalue, hshift⟩ := hfeed.shift hne
    exact ⟨fun hnone => hsize hnone.2, d.pullByte, if_pos hbit, hvalue, hshift, hsame⟩
  · obtain ⟨hvalue, hshift⟩ := h.shift hbit
    exact ⟨fun hnone => hbit hnone.1, d, if_neg hbit, hvalue, hshift, .refl d⟩

/-- Putting a bit in at the end of the accumulator. -/
theorem pushBit (hlt : accumulator.toNat < 2 ^ n) (hn : n < 15) {p : Prop} [Decidable p]
    {bit : Bool} (hp : p ↔ bit = true) :
    (if p then accumulator <<< 1 ||| 1 else accumulator <<< 1).toNat =
      2 * accumulator.toNat + bit.toNat := by
  have hpow : 2 ^ n ≤ 2 ^ 14 := Nat.pow_le_pow_right Nat.two_pos (by omega)
  have hshift : (accumulator <<< 1).toNat = 2 * accumulator.toNat := by
    rw [BitVec.toNat_shiftLeft, Nat.shiftLeft_eq]
    omega
  cases bit with
  | true =>
      rw [if_pos (hp.mpr rfl), BitVec.toNat_or, hshift]
      exact (Nat.two_pow_add_eq_or_of_lt (i := 1) (b := 1) (by decide) _).symm
  | false =>
      have hnot : ¬ p := by
        intro hyes
        exact absurd (hp.mp hyes) Bool.false_ne_true
      rw [if_neg hnot, hshift, Bool.toNat_false, Nat.add_zero]

theorem getBitsLoop_field {m : Nat} (h : d.Feed s (b + m) e) (hle : b + m + n ≤ 8 * e)
    (hacc : accumulator.toNat = Bits.field s b m) (hn : m + n ≤ 15) :
    ∃ v d', getBitsLoop n accumulator d = (v, d') ∧ v.toNat = Bits.field s b (m + n) ∧
      d'.Feed s (b + m + n) e ∧ SameOut d d' := by
  induction n generalizing d accumulator m with
  | zero => exact ⟨accumulator, d, rfl, hacc, h, .refl d⟩
  | succ n ih =>
      obtain ⟨hbits, d1, htake, hvalue, hfeed, hsame⟩ := h.take (by omega)
      have hlt : accumulator.toNat < 2 ^ m := by
        rw [hacc]
        exact Bits.field_lt s b m
      have hfield : (if d1.currentByte &&& d1.bitIndex ≠ 0 then accumulator <<< 1 ||| 1
          else accumulator <<< 1).toNat = Bits.field s b (m + 1) := by
        rw [pushBit hlt (by omega) hvalue, hacc, Bits.field]
      obtain ⟨v, d', hloop, hv, hfeed', hsame'⟩ := ih (m := m + 1) hfeed (by omega) hfield (by omega)
      rw [show m + 1 + n = m + (n + 1) by omega] at hv
      rw [show b + (m + 1) + n = b + m + (n + 1) by omega] at hfeed'
      refine ⟨v, d', ?_, hv, hfeed', hsame.trans ⟨hsame'.1, hsame'.2, hsame'.3, hsame'.4⟩⟩
      rw [getBitsLoop, if_neg hbits]
      simp only [htake]
      exact hloop

/-- Enough bits: they are taken. -/
theorem getBits_take (h : d.Feed s b e) (hle : b + count ≤ 8 * e) (hpos : 0 < count)
    (hcount : count ≤ 8) :
    ∃ v d', d.getBits count = (v, d') ∧ v ≠ noBits ∧ v.toNat = Bits.field s b count ∧
      d'.Feed s (b + count) e ∧ SameOut d d' := by
  have hguard : ¬ (d.inputSize = 0 ∧ d.bitIndex.toNat < 1 <<< (count - 1)) := by
    rintro ⟨hsize, hlt⟩
    obtain ⟨j, hj⟩ : ∃ j, 8 * e - b = j + 1 := ⟨8 * e - b - 1, by omega⟩
    rw [h.lastByte hsize, hj, two_pow_half, Nat.shiftLeft_eq, Nat.one_mul] at hlt
    exact absurd (Nat.pow_le_pow_right Nat.two_pos (by omega : count - 1 ≤ j)) (by omega)
  have hnone : (0 : Half).toNat = Bits.field s b 0 := rfl
  obtain ⟨v, d', hloop, hv, hfeed, hsame⟩ :=
    getBitsLoop_field (m := 0) h hle hnone (by omega)
  rw [Nat.zero_add] at hv
  refine ⟨v, d', ?_, ?_, hv, hfeed, hsame⟩
  · rw [getBits, if_neg (by omega), if_neg hguard]
    exact hloop
  · rintro rfl
    have hlt := Bits.field_lt s b count
    have hpow : 2 ^ count ≤ 2 ^ 8 := Nat.pow_le_pow_right Nat.two_pos hcount
    have hmax : noBits.toNat = 65535 := rfl
    omega

/-- Too few: nothing changes. -/
theorem getBits_none (h : d.Feed s b e) (hlt : 8 * e < b + count) (hcount : count ≤ 8) :
    d.getBits count = (noBits, d) := by
  have hsize := h.exhausted (by omega)
  have hguard : d.bitIndex.toNat < 1 <<< (count - 1) := by
    rw [h.lastByte hsize, Nat.shiftLeft_eq, Nat.one_mul]
    apply Nat.div_lt_of_lt_mul
    rw [← Nat.pow_succ']
    exact Nat.pow_lt_pow_right Nat.one_lt_two (by omega)
  rw [getBits, if_neg (by omega), if_pos ⟨hsize, hguard⟩]

end HeatshrinkDecoder

end LnDso
