import Mathlib.Algebra.Group.Nat.Defs
import Mathlib.Logic.Function.Basic
import Mathlib.Data.List.Basic

/-!
# Byte memories

Machine words, little-endian halves and words, and byte memories indexed by an
offset. A C array is a memory of which the array is a prefix: what lies past
its end is the RAM that follows it, so an access out of bounds has a meaning.
-/

namespace Lib

/-- `uint8_t`. -/
abbrev Byte := BitVec 8

/-- `uint16_t`. -/
abbrev Half := BitVec 16

/-- `uint32_t`. -/
abbrev Word := BitVec 32

namespace Half

/-- Low byte. -/
def lo (h : Half) : Byte := BitVec.ofNat 8 h.toNat

/-- High byte. -/
def hi (h : Half) : Byte := BitVec.ofNat 8 (h.toNat / 256)

/-- Little-endian half-word. -/
def ofBytes (lo hi : Byte) : Half := BitVec.ofNat 16 (lo.toNat + 256 * hi.toNat)

@[simp] theorem lo_ofBytes (l h : Byte) : lo (ofBytes l h) = l := by
  apply BitVec.eq_of_toNat_eq
  simp [lo, ofBytes]
  omega

@[simp] theorem hi_ofBytes (l h : Byte) : hi (ofBytes l h) = h := by
  apply BitVec.eq_of_toNat_eq
  simp [hi, ofBytes]
  omega

@[simp] theorem ofBytes_lo_hi (h : Half) : ofBytes (lo h) (hi h) = h := by
  apply BitVec.eq_of_toNat_eq
  simp [lo, hi, ofBytes]
  omega

end Half

namespace Word

/-- Little-endian 32-bit word. -/
def ofBytes (b0 b1 b2 b3 : Byte) : Word :=
  BitVec.ofNat 32 (b0.toNat + 256 * (b1.toNat + 256 * (b2.toNat + 256 * b3.toNat)))

/-- Byte `i` of a word, little-endian. -/
def byte (w : Word) (i : Nat) : Byte := BitVec.ofNat 8 (w.toNat / 256 ^ i)

@[simp] theorem ofBytes_byte (w : Word) :
    ofBytes (byte w 0) (byte w 1) (byte w 2) (byte w 3) = w := by
  apply BitVec.eq_of_toNat_eq
  simp [ofBytes, byte]
  omega

/-- The bytes of a word are those it is made of. -/
theorem bytes_ofBytes (b0 b1 b2 b3 : Byte) :
    [byte (ofBytes b0 b1 b2 b3) 0, byte (ofBytes b0 b1 b2 b3) 1, byte (ofBytes b0 b1 b2 b3) 2,
      byte (ofBytes b0 b1 b2 b3) 3] = [b0, b1, b2, b3] := by
  have h0 := b0.isLt
  have h1 := b1.isLt
  have h2 := b2.isLt
  have h3 := b3.isLt
  have hnat : (ofBytes b0 b1 b2 b3).toNat =
      b0.toNat + 256 * (b1.toNat + 256 * (b2.toNat + 256 * b3.toNat)) := by
    rw [ofBytes, BitVec.toNat_ofNat, Nat.mod_eq_of_lt (by omega)]
  have hbyte : ∀ (i : Nat) (b : Byte), (ofBytes b0 b1 b2 b3).toNat / 256 ^ i % 256 = b.toNat →
      byte (ofBytes b0 b1 b2 b3) i = b := by
    intro i b hb
    apply BitVec.eq_of_toNat_eq
    rw [byte, BitVec.toNat_ofNat]
    exact hb
  rw [hbyte 0 b0 (by omega), hbyte 1 b1 (by omega), hbyte 2 b2 (by omega), hbyte 3 b3 (by omega)]

/-- A word reads `0xffffffff` exactly when all of its bytes are `0xff`. -/
theorem ofBytes_eq_ff (b0 b1 b2 b3 : Byte) :
    ofBytes b0 b1 b2 b3 = 0xffffffff#32 ↔
      b0 = 0xff#8 ∧ b1 = 0xff#8 ∧ b2 = 0xff#8 ∧ b3 = 0xff#8 := by
  constructor
  · intro h
    have hn := congrArg BitVec.toNat h
    simp only [ofBytes, BitVec.toNat_ofNat] at hn
    refine ⟨?_, ?_, ?_, ?_⟩ <;> apply BitVec.eq_of_toNat_eq <;> simp <;> omega
  · rintro ⟨rfl, rfl, rfl, rfl⟩
    rfl

end Word

/-! ## Memories -/

/-- The bytes from an address on. -/
abbrev Mem := Nat → Byte

namespace Mem

/-- The memory from offset `off` on: `&m[off]`. -/
def from_ (m : Mem) (off : Nat) : Mem := fun i => m (off + i)

/-- The `len` bytes at offset `off`. -/
def read (m : Mem) (off len : Nat) : List Byte := (List.range len).map fun i => m (off + i)

/-- Store the bytes `bs` at offset `off`. -/
def write (m : Mem) (off : Nat) (bs : List Byte) : Mem :=
  fun j => if off ≤ j then bs[j - off]?.getD (m j) else m j

/-- The little-endian word at offset `off`. -/
def word (m : Mem) (off : Nat) : Word :=
  Word.ofBytes (m off) (m (off + 1)) (m (off + 2)) (m (off + 3))

/-- The little-endian half-words from offset 0 on. -/
def halves (m : Mem) (i : Nat) : Half := Half.ofBytes (m (2 * i)) (m (2 * i + 1))

@[simp] theorem length_read (m : Mem) (off len : Nat) : (m.read off len).length = len := by
  simp [read]

theorem getElem?_read (m : Mem) (off len i : Nat) :
    (m.read off len)[i]? = if i < len then some (m (off + i)) else none := by
  by_cases h : i < len
  · simp [read, h]
  · simp [read, h]

theorem read_ext {m m' : Mem} {off off' len : Nat}
    (h : ∀ i < len, m (off + i) = m' (off' + i)) : m.read off len = m'.read off' len := by
  apply List.ext_getElem?
  intro i
  rw [getElem?_read, getElem?_read]
  split
  · next hi => rw [h i hi]
  · rfl

theorem read_append (m : Mem) (off a b : Nat) :
    m.read off (a + b) = m.read off a ++ m.read (off + a) b := by
  simp only [read, List.range_add, List.map_append, List.map_map]
  congr 1
  apply List.map_congr_left
  intro i _
  simp [Nat.add_assoc]

theorem read_take (m : Mem) (off : Nat) {a b : Nat} (h : a ≤ b) :
    (m.read off b).take a = m.read off a := by
  rw [show b = a + (b - a) by omega, read_append, List.take_left' (length_read ..)]

theorem read_drop (m : Mem) (off : Nat) {a b : Nat} (h : a ≤ b) :
    (m.read off b).drop a = m.read (off + a) (b - a) := by
  have hdrop : (m.read off (a + (b - a))).drop a = m.read (off + a) (b - a) := by
    rw [read_append, List.drop_left' (length_read ..)]
  rwa [show a + (b - a) = b by omega] at hdrop

@[simp] theorem read_from (m : Mem) (off o len : Nat) :
    (m.from_ off).read o len = m.read (off + o) len :=
  read_ext fun i _ => by simp [from_, Nat.add_assoc]

theorem write_apply (m : Mem) (off : Nat) (bs : List Byte) (j : Nat) :
    m.write off bs j = if off ≤ j then bs[j - off]?.getD (m j) else m j := rfl

theorem write_below (m : Mem) (off : Nat) (bs : List Byte) {j : Nat} (h : j < off) :
    m.write off bs j = m j := by
  rw [write_apply, if_neg (by omega)]

theorem write_above (m : Mem) (off : Nat) (bs : List Byte) {j : Nat}
    (h : off + bs.length ≤ j) : m.write off bs j = m j := by
  rw [write_apply]
  split
  · rw [List.getElem?_eq_none (by omega)]; rfl
  · rfl

theorem write_at (m : Mem) (off : Nat) (bs : List Byte) {i : Nat} (h : i < bs.length) :
    m.write off bs (off + i) = bs[i] := by
  rw [write_apply, if_pos (by omega), Nat.add_sub_cancel_left, List.getElem?_eq_getElem h]
  rfl

@[simp] theorem write_nil (m : Mem) (off : Nat) : m.write off [] = m := by
  funext j
  simp [write_apply]

@[simp] theorem read_write (m : Mem) (off : Nat) (bs : List Byte) :
    (m.write off bs).read off bs.length = bs := by
  apply List.ext_getElem?
  intro i
  rw [getElem?_read]
  split
  · next hi => rw [write_at m off bs hi, List.getElem?_eq_getElem hi]
  · next hi => rw [List.getElem?_eq_none (by omega)]

/-- Writing back what is read changes nothing. -/
@[simp] theorem write_read (m : Mem) (off len : Nat) : m.write off (m.read off len) = m := by
  funext j
  rw [write_apply, getElem?_read]
  split
  · next hj =>
    split
    · rw [Nat.add_sub_cancel' hj]
      rfl
    · rfl
  · rfl

/-- What is read up to the end of a write: the bytes before it, then its own. -/
theorem read_write_append (m : Mem) (off : Nat) (bs : List Byte) :
    (m.write off bs).read 0 (off + bs.length) = m.read 0 off ++ bs := by
  have hbefore : (m.write off bs).read 0 off = m.read 0 off :=
    read_ext fun i hi => write_below m off bs (by omega)
  rw [read_append, Nat.zero_add, read_write, hbefore]

theorem write_write (m : Mem) (off : Nat) (bs cs : List Byte) :
    (m.write off bs).write (off + bs.length) cs = m.write off (bs ++ cs) := by
  funext j
  by_cases h1 : j < off
  · rw [write_below _ _ _ (by omega), write_below _ _ _ h1, write_below _ _ _ h1]
  · by_cases h2 : j < off + bs.length
    · rw [write_below _ _ _ h2, write_apply, write_apply, if_pos (by omega), if_pos (by omega),
        List.getElem?_append_left (by omega)]
    · rw [write_apply, if_pos (by omega), write_above m off bs (by omega), write_apply,
        if_pos (by omega), List.getElem?_append_right (by omega),
        show j - off - bs.length = j - (off + bs.length) by omega]

end Mem

end Lib
