import Mathlib.Logic.Function.Basic
import LnDso.Lib.Mem

/-!
# The GPIO ports

A port has sixteen pins. `CTL0` and `CTL1` hold four bits for each, its mode and
its kind; `OCTL` holds their levels. A write to `BOP` sets the pins of its low
half and clears those of its high half, and setting wins; one to `BC` clears.
-/

namespace LnDso

open Lib

structure GpioPort where
  ctl0 : Word
  ctl1 : Word
  octl : Half

namespace GpioPort

variable {p : GpioPort} {n k : Nat}

/-- What a write to `BOP` does. -/
def writeBop (v : Word) (p : GpioPort) : GpioPort :=
  { p with octl := (p.octl &&& ~~~(v >>> 16).setWidth 16) ||| v.setWidth 16 }

/-- What a write to `BC` does. -/
def writeBc (v : Word) (p : GpioPort) : GpioPort :=
  { p with octl := p.octl &&& ~~~v.setWidth 16 }

/-- The level of pin `n`. -/
def level (p : GpioPort) (n : Nat) : Bool := p.octl.getLsbD n

/-- The four configuration bits of pin `n`. -/
def config (p : GpioPort) (n : Nat) : BitVec 4 :=
  if n > 7 then p.ctl1.extractLsb' ((n - 8) * 4) 4 else p.ctl0.extractLsb' (n * 4) 4

@[simp] theorem writeBop_config (v : Word) : (p.writeBop v).config n = p.config n := rfl

@[simp] theorem writeBc_config (v : Word) : (p.writeBc v).config n = p.config n := rfl

theorem writeBop_level (v : Word) (hn : n < 16) :
    (p.writeBop v).level n = (p.level n && !v.getLsbD (16 + n) || v.getLsbD n) := by
  simp [level, writeBop, hn]

theorem writeBc_level (v : Word) (hn : n < 16) :
    (p.writeBc v).level n = (p.level n && !v.getLsbD n) := by
  simp [level, writeBc, hn]

theorem getLsbD_one_shift (hk : k < 32) : ((1 : Word) <<< n).getLsbD k = decide (k = n) := by
  show (1#32 <<< n).getLsbD k = _
  rw [BitVec.getLsbD_shiftLeft, BitVec.getLsbD_one]
  simp only [hk, decide_true, Bool.true_and]
  by_cases h : k = n
  · simp [h]
  · simp only [h, decide_false]
    by_cases hlt : k < n
    · simp [hlt]
    · have hne : k - n ≠ 0 := by omega
      simp [hne]

/-- A `BOP` write of one bit sets one pin. -/
theorem writeBop_set (hn : n < 16) (hk : k < 16) :
    (p.writeBop ((1 : Word) <<< n)).level k = if k = n then true else p.level k := by
  rw [writeBop_level _ hk, getLsbD_one_shift (by omega), getLsbD_one_shift (by omega),
    decide_eq_false (by omega : ¬ 16 + k = n)]
  split
  · next heq => simp [heq]
  · next hne => simp [hne]

/-- A `BOP` write of one high bit clears one pin. -/
theorem writeBop_clear (hn : n < 16) (hk : k < 16) :
    (p.writeBop ((1 : Word) <<< (16 + n))).level k = if k = n then false else p.level k := by
  rw [writeBop_level _ hk, getLsbD_one_shift (by omega), getLsbD_one_shift (by omega),
    decide_eq_false (by omega : ¬ k = 16 + n)]
  split
  · next heq => simp [heq]
  · next hne => simp [hne]

/-- A `BC` write of one bit clears one pin. -/
theorem writeBc_clear (hk : k < 16) :
    (p.writeBc ((1 : Word) <<< n)).level k = if k = n then false else p.level k := by
  rw [writeBc_level _ hk, getLsbD_one_shift (by omega)]
  split
  · next heq => simp [heq]
  · next hne => simp [hne]

/-- A byte on the low pins: their clears and sets come in one write, and the high
pins stay. -/
theorem writeBop_byte (d : Byte) (hk : k < 16) :
    (p.writeBop (0x00FF0000 ||| d.setWidth 32)).level k =
      if k < 8 then d.getLsbD k else p.level k := by
  have hclear : (0x00FF0000 : Word) = (BitVec.allOnes 8).setWidth 32 <<< 16 := by decide
  rw [writeBop_level _ hk, hclear]
  simp only [BitVec.getLsbD_or, BitVec.getLsbD_shiftLeft, BitVec.getLsbD_setWidth,
    BitVec.getLsbD_allOnes, Nat.add_sub_cancel_left]
  have hlow : k < 32 := by omega
  have hhigh : 16 + k < 32 := by omega
  have hpast : d.getLsbD (16 + k) = false := BitVec.getLsbD_of_ge _ _ (by omega)
  split
  · next hbyte =>
    have hnot : ¬ 16 + k < 16 := by omega
    simp [hk, hlow, hhigh, hbyte, hpast, hnot]
  · next hno =>
    have hnone : d.getLsbD k = false := BitVec.getLsbD_of_ge _ _ (by omega)
    simp [hk, hno, hnone, hpast]

theorem writeBop_byte_octl (d : Byte) :
    (p.writeBop (0x00FF0000 ||| d.setWidth 32)).octl.setWidth 8 = d := by
  apply BitVec.eq_of_getLsbD_eq
  intro i hi
  have hlevel := writeBop_byte (p := p) d (show i < 16 by omega)
  rw [if_pos hi] at hlevel
  rw [BitVec.getLsbD_setWidth, decide_eq_true hi, Bool.true_and]
  exact hlevel

/-- The four bits at `a * 4` replaced. -/
def putNibble (a : Nat) (v : BitVec 4) (r : Word) : Word :=
  (r &&& ~~~((0xf : Word) <<< (a * 4))) ||| (v.setWidth 32 <<< (a * 4))

theorem extract_putNibble {a b : Nat} (ha : a < 8) (hb : b < 8) (v : BitVec 4) (r : Word) :
    (putNibble a v r).extractLsb' (b * 4) 4 = if b = a then v else r.extractLsb' (b * 4) 4 := by
  have hmask : (0xf : Word) = (BitVec.allOnes 4).setWidth 32 := by decide
  apply BitVec.eq_of_getLsbD_eq
  intro i hi
  have hlt : b * 4 + i < 32 := by omega
  rw [putNibble, hmask]
  simp only [BitVec.getLsbD_extractLsb', BitVec.getLsbD_or, BitVec.getLsbD_and, BitVec.getLsbD_not,
    BitVec.getLsbD_shiftLeft, BitVec.getLsbD_setWidth, BitVec.getLsbD_allOnes, hlt, hi, decide_true,
    Bool.true_and]
  by_cases hab : b = a
  · subst hab
    have hsub : b * 4 + i - b * 4 = i := by omega
    have hnot : ¬ b * 4 + i < b * 4 := by omega
    have hsmall : i < 32 := by omega
    simp [hsub, hnot, hi, hsmall]
  · rw [if_neg hab]
    by_cases hbelow : b * 4 + i < a * 4
    · simp [hbelow, hi]
    · have hpast : 4 ≤ b * 4 + i - a * 4 := by omega
      simp [hbelow, Nat.not_lt.mpr hpast, BitVec.getLsbD_of_ge v _ hpast, hi]

/-- Pin `n` configured as `v`: the register that holds it is read, changed and
written back. -/
def writeConfig (n : Nat) (v : BitVec 4) (p : GpioPort) : GpioPort :=
  if n > 7 then { p with ctl1 := putNibble (n - 8) v p.ctl1 }
  else { p with ctl0 := putNibble n v p.ctl0 }

theorem writeConfig_config (hn : n < 16) (hk : k < 16) (v : BitVec 4) :
    (p.writeConfig n v).config k = if k = n then v else p.config k := by
  unfold writeConfig config
  by_cases hhigh : n > 7 <;> by_cases hhigh' : k > 7
  · have heq : k - 8 = n - 8 ↔ k = n := by omega
    simp only [hhigh, hhigh', if_true]
    rw [extract_putNibble (by omega) (by omega)]
    simp only [heq]
  · rw [if_pos hhigh, if_neg hhigh', if_neg (by omega)]
    exact (if_neg hhigh').symm
  · rw [if_neg hhigh, if_pos hhigh', if_neg (by omega)]
    exact (if_pos hhigh').symm
  · simp only [hhigh, hhigh', if_false]
    rw [extract_putNibble (by omega) (by omega)]

@[simp] theorem writeConfig_level (v : BitVec 4) : (p.writeConfig n v).level k = p.level k := by
  unfold writeConfig
  split <;> rfl

end GpioPort

/-! ## The board -/

/-- The ports, and the display on three of them: its data lines are the low pins
of port B, its lines CS, DC and WR pins 13, 14 and 15 of port C. -/
structure Board where
  /-- Ports A, B, C, D and E. -/
  port : Nat → GpioPort
  /-- What the display has taken, with the level of DC: nothing that can be
  known where one of its lines was not driven. -/
  latched : List (Option (Bool × Byte))
  /-- How often the input of port B was read. -/
  reads : Nat

namespace Board

/-- A push-pull output. -/
def outputConfig : BitVec 4 := 3

/-- Every line of the display is driven. -/
def Driven (β : Board) : Prop :=
  (∀ n < 8, (β.port 1).config n = outputConfig) ∧
    ∀ n, 13 ≤ n → n < 16 → (β.port 2).config n = outputConfig

instance (β : Board) : Decidable β.Driven :=
  decidable_of_iff ((∀ n < 8, (β.port 1).config n = outputConfig) ∧
    ∀ n < 16, 13 ≤ n → (β.port 2).config n = outputConfig)
    (and_congr_right fun _ => ⟨fun h n hn hlt => h n hlt hn, fun h n hlt hn => h n hn hlt⟩)

/-- The lines as the display samples them. -/
def lines (β : Board) : Option (Bool × Byte) :=
  if β.Driven then some ((β.port 2).level 14, (β.port 1).octl.setWidth 8) else none

/-- The board `τ` after the board `β`: the display takes a byte when WR rises while
CS is low. -/
def sampled (β τ : Board) : Board :=
  if (β.port 2).level 15 = false ∧ (τ.port 2).level 15 = true ∧ (τ.port 2).level 13 = false then
    { τ with latched := τ.latched ++ [τ.lines] }
  else τ

/-- A write to a register of port `i`. -/
def write (i : Nat) (f : GpioPort → GpioPort) (β : Board) : Board :=
  β.sampled { β with port := Function.update β.port i (f (β.port i)) }

end Board

end LnDso
