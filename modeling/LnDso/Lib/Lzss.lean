import LnDso.Lib.Bits
import Mathlib.Data.List.GetD

/-!
# LZSS expansion

A stream of bits read as tokens. A set bit tags a literal of eight bits, a clear
one a back reference: an index and a count, each one less than it means, that
copy from what came out before. Before the first byte the window holds zeros.
The expansion of an infinite stream is an infinite sequence of bytes, since
every token puts out at least one.
-/

namespace Lib

namespace Bits

/-- Bit `i` of a byte stream. -/
def bitAt (s : Nat → Byte) (i : Nat) : Bool := (s (i / 8)).getMsbD (i % 8)

/-- The number in the `n` bits from bit `i` on. -/
def field (s : Nat → Byte) (i : Nat) : Nat → Nat
  | 0 => 0
  | n + 1 => 2 * field s i n + (bitAt s (i + n)).toNat

theorem field_lt (s : Nat → Byte) (i n : Nat) : field s i n < 2 ^ n := by
  induction n with
  | zero => exact Nat.one_pos
  | succ n ih =>
      have hbit := Bool.toNat_le (bitAt s (i + n))
      rw [field, Nat.pow_succ]
      omega

end Bits

namespace Lzss

/-- The byte `k` places back in what came out, `k` counted from 1. -/
def back (out : List Byte) (k : Nat) : Byte := out.reverse.getD (k - 1) 0

@[simp] theorem back_nil (k : Nat) : back [] k = 0 := rfl

@[simp] theorem back_one (out : List Byte) (c : Byte) : back (out ++ [c]) 1 = c := by
  simp [back]

theorem back_succ (out : List Byte) (c : Byte) {k : Nat} (hk : 1 ≤ k) :
    back (out ++ [c]) (k + 1) = back out k := by
  obtain ⟨j, rfl⟩ : ∃ j, k = j + 1 := ⟨k - 1, by omega⟩
  simp [back]

/-- `n` bytes copied from `k` places back, which may run into the copy itself. -/
def copy (k : Nat) : Nat → List Byte → List Byte
  | 0, out => out
  | n + 1, out => copy k n (out ++ [back out k])

theorem copy_add (k m n : Nat) (out : List Byte) : copy k (m + n) out = copy k n (copy k m out) := by
  induction m generalizing out with
  | zero => rw [Nat.zero_add, copy]
  | succ m ih => rw [Nat.succ_add, copy, copy, ih]

theorem copy_extends (k n : Nat) (out : List Byte) : out <+: copy k n out := by
  induction n generalizing out with
  | zero => exact List.prefix_rfl
  | succ n ih => exact (List.prefix_append out [back out k]).trans (ih _)

theorem length_copy (k n : Nat) (out : List Byte) : (copy k n out).length = out.length + n := by
  induction n generalizing out with
  | zero => rfl
  | succ n ih =>
      rw [copy, ih, List.length_append, List.length_singleton]
      omega

/-! ## Tokens -/

/-- What has been read and put out. -/
structure State where
  pos : Nat
  out : List Byte

/-- One token, with `w` bits of index and `l` bits of count. -/
def token (w l : Nat) (s : Nat → Byte) (t : State) : State :=
  if Bits.bitAt s t.pos then
    ⟨t.pos + 9, t.out ++ [BitVec.ofNat 8 (Bits.field s (t.pos + 1) 8)]⟩
  else
    ⟨t.pos + 1 + w + l,
      copy (Bits.field s (t.pos + 1) w + 1) (Bits.field s (t.pos + 1 + w) l + 1) t.out⟩

/-- The first `n` tokens. -/
def tokens (w l : Nat) (s : Nat → Byte) : Nat → State
  | 0 => ⟨0, []⟩
  | n + 1 => token w l s (tokens w l s n)

/-- Byte `n` of the expansion. -/
def expand (w l : Nat) (s : Nat → Byte) (n : Nat) : Byte := (tokens w l s (n + 1)).out.getD n 0

variable {w l m n : Nat} {s : Nat → Byte}

theorem token_extends (t : State) : t.out <+: (token w l s t).out := by
  rw [token]
  split
  · exact List.prefix_append ..
  · exact copy_extends ..

theorem lt_length_token (t : State) : t.out.length < (token w l s t).out.length := by
  rw [token]
  split
  · simp
  · rw [length_copy]
    omega

theorem tokens_extend (h : m ≤ n) : (tokens w l s m).out <+: (tokens w l s n).out := by
  induction h with
  | refl => exact List.prefix_rfl
  | step _ ih => exact ih.trans (token_extends _)

theorem le_length_tokens (n : Nat) : n ≤ (tokens w l s n).out.length := by
  induction n with
  | zero => exact Nat.zero_le _
  | succ n ih => exact Nat.lt_of_le_of_lt ih (lt_length_token _)

theorem getD_of_extends {xs ys : List Byte} (h : xs <+: ys) (hn : n < xs.length) :
    xs.getD n 0 = ys.getD n 0 := by
  obtain ⟨zs, rfl⟩ := h
  rw [List.getD_append _ _ _ _ hn]

/-- Whatever is a prefix of some tokens' output is a prefix of the expansion. -/
theorem getD_expand {out : List Byte} (h : out <+: (tokens w l s m).out) (hn : n < out.length) :
    out.getD n 0 = expand w l s n := by
  have hlen : n < (tokens w l s (n + 1)).out.length := le_length_tokens (n + 1)
  have hlen' : n < (tokens w l s m).out.length := Nat.lt_of_lt_of_le hn h.length_le
  rw [getD_of_extends h hn, expand]
  rcases Nat.le_total m (n + 1) with hle | hle
  · exact getD_of_extends (tokens_extend hle) hlen'
  · exact (getD_of_extends (tokens_extend hle) hlen).symm

end Lzss

end Lib
