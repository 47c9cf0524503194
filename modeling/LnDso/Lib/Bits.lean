import LnDso.Lib.Mem

/-!
# Bits, most significant first

A byte as its eight bits, a list of bytes as one stream of bits, the bytes
that hold the whole groups of eight of a list of bits, and a table read row by
row.
-/

namespace Lib

namespace Bits

/-- The number a list of bits writes. -/
def value (bs : List Bool) : Nat := (BitVec.ofBoolListBE bs).toNat

@[simp] theorem value_nil : value [] = 0 := rfl

theorem value_cons (b : Bool) (bs : List Bool) :
    value (b :: bs) = b.toNat * 2 ^ bs.length + value bs := by
  rw [value, value, BitVec.ofBoolListBE, BitVec.toNat_cons', Nat.shiftLeft_eq]

/-- The bits of a byte. -/
def ofByte (b : Byte) : List Bool := (List.range 8).map b.getMsbD

@[simp] theorem length_ofByte (b : Byte) : (ofByte b).length = 8 := by
  simp [ofByte]

@[simp] theorem ofByte_zero : ofByte 0 = List.replicate 8 false := rfl

/-- The byte of eight bits. -/
def toByte (bs : List Bool) : Byte := BitVec.ofNat 8 (value bs)

@[simp] theorem ofByte_toByte {bs : List Bool} (h : bs.length = 8) : ofByte (toByte bs) = bs := by
  have hbyte : ∀ i < 8, (toByte bs).getMsbD i = bs.getD i false := by
    intro i hi
    have hbit : (toByte bs).getLsbD (7 - i) = (BitVec.ofBoolListBE bs).getLsbD (7 - i) := by
      rw [toByte, value, BitVec.getLsbD_ofNat, BitVec.testBit_toNat, decide_eq_true (by omega),
        Bool.true_and]
    rw [BitVec.getMsbD_eq_getLsbD, show 8 - 1 - i = 7 - i by omega, hbit,
      BitVec.getLsbD_ofBoolListBE, h, show 8 - 1 - (7 - i) = i by omega,
      decide_eq_true (by omega), decide_eq_true (by omega), Bool.true_and, Bool.true_and]
  apply List.ext_getElem
  · rw [length_ofByte, h]
  · intro i hi hi'
    simp only [ofByte, List.getElem_map, List.getElem_range]
    rw [hbyte i (by omega), List.getD_eq_getElem?_getD, List.getElem?_eq_getElem hi',
      Option.getD_some]

/-! ## Streams -/

/-- The bits of a list of bytes. -/
def stream (bytes : List Byte) : List Bool := bytes.flatMap ofByte

@[simp] theorem stream_nil : stream [] = [] := rfl

@[simp] theorem stream_cons (b : Byte) (bytes : List Byte) :
    stream (b :: bytes) = ofByte b ++ stream bytes := rfl

@[simp] theorem stream_append (bytes bytes' : List Byte) :
    stream (bytes ++ bytes') = stream bytes ++ stream bytes' :=
  List.flatMap_append

@[simp] theorem length_stream (bytes : List Byte) : (stream bytes).length = 8 * bytes.length := by
  induction bytes with
  | nil => rfl
  | cons b bytes ih =>
      rw [stream_cons, List.length_append, length_ofByte, ih, List.length_cons]
      omega

theorem stream_zeros (n : Nat) : stream (List.replicate n 0) = List.replicate (8 * n) false := by
  induction n with
  | zero => rfl
  | succ n ih =>
      rw [List.replicate_succ, stream_cons, ih, ofByte_zero, List.replicate_append_replicate]
      congr 1
      omega

/-! ## Whole groups of eight -/

/-- The bytes of the whole groups of eight; the bits left over are dropped. -/
def wholeBytes (bs : List Bool) : List Byte :=
  if 8 ≤ bs.length then toByte (bs.take 8) :: wholeBytes (bs.drop 8) else []
termination_by bs.length

theorem wholeBytes_short {bs : List Bool} (h : bs.length < 8) : wholeBytes bs = [] := by
  rw [wholeBytes, if_neg (by omega)]

theorem wholeBytes_append {g bs : List Bool} (h : g.length = 8) :
    wholeBytes (g ++ bs) = toByte g :: wholeBytes bs := by
  rw [wholeBytes, if_pos (by simp [h]), List.take_left' h, List.drop_left' h]

theorem length_wholeBytes (bs : List Bool) : (wholeBytes bs).length = bs.length / 8 := by
  induction bs using wholeBytes.induct with
  | case1 bs h ih =>
      rw [wholeBytes, if_pos h, List.length_cons, ih, List.length_drop]
      omega
  | case2 bs h =>
      rw [wholeBytes, if_neg h, List.length_nil]
      omega

theorem stream_wholeBytes (bs : List Bool) :
    stream (wholeBytes bs) = bs.take (8 * (bs.length / 8)) := by
  induction bs using wholeBytes.induct with
  | case1 bs h ih =>
      have hlen : (bs.take 8).length = 8 := List.length_take_of_le h
      rw [wholeBytes, if_pos h, stream_cons, ofByte_toByte hlen, ih, List.length_drop,
        show 8 * (bs.length / 8) = 8 + 8 * ((bs.length - 8) / 8) by omega, List.take_add]
  | case2 bs h =>
      rw [wholeBytes, if_neg h, Nat.div_eq_of_lt (by omega)]
      rfl

end Bits

/-- The rows of a table, all of length `m`, one after the other. -/
theorem getElem?_rows {α : Type} {f : Nat → List α} {m n i : Nat} (hf : ∀ y, (f y).length = m)
    (hi : i < n * m) : ((List.range n).flatMap f)[i]? = (f (i / m))[i % m]? := by
  have hlen : ∀ n, ((List.range n).flatMap f).length = n * m := by
    intro n
    simp [List.length_flatMap, hf]
  induction n with
  | zero => exact absurd hi (by simp)
  | succ n ih =>
      rw [List.range_succ, List.flatMap_append, List.flatMap_singleton]
      by_cases hlt : i < n * m
      · rw [List.getElem?_append_left (by rw [hlen]; exact hlt), ih hlt]
      · rw [Nat.succ_mul] at hi
        have hdiv : i / m = n := Nat.div_eq_of_lt_le (by omega) (by rw [Nat.succ_mul]; omega)
        have hmod : i % m = i - n * m := by rw [Nat.mod_eq_sub_div_mul, hdiv]
        rw [List.getElem?_append_right (by rw [hlen]; omega), hlen, hdiv, hmod]

end Lib
