import LnDso.Logic.Wiring
import LnDso.Theorems.Sequences

/-!
# What the display takes

`ili_init` makes the pins a bus, whatever they were before, and the driver's
operations reach the display byte by byte.
-/

namespace LnDso

open Lib

variable {β : Board}

/-- The bytes of `ili_init`. -/
def initBytes : List (Bool × Byte) :=
  [(false, 0x01), (false, 0x28), (false, 0x3A), (true, 0x55), (false, 0x11), (false, 0x29),
    (false, 0x20), (false, 0x36), (true, 0x48), (false, 0xB0), (true, 0x40), (false, 0xd3),
    (false, 0x04)]

/-- The low half of a register comes with its last two readings. -/
theorem readWord_low (istat : Nat → Word) (r : Nat) (hi lo : Byte) :
    readWord istat 4 r 0 &&& (0xffff : Word) = (hi.setWidth 32 <<< 8) + lo.setWidth 32 ↔
      (istat (r + 2)).setWidth 8 = hi ∧ (istat (r + 3)).setWidth 8 = lo := by
  simp only [readWord]
  generalize (istat r).setWidth 8 = b0
  generalize (istat (r + 1)).setWidth 8 = b1
  generalize (istat (r + 1 + 1)).setWidth 8 = b2
  generalize (istat (r + 1 + 1 + 1)).setWidth 8 = b3
  have h0 := b0.isLt
  have h1 := b1.isLt
  have h2 := b2.isLt
  have h3 := b3.isLt
  have hhi := hi.isLt
  have hlo := lo.isLt
  have hmask : (0xffff : Word).toNat = 2 ^ 16 - 1 := rfl
  rw [← BitVec.toNat_inj, ← BitVec.toNat_inj, ← BitVec.toNat_inj, BitVec.toNat_and, hmask,
    Nat.and_two_pow_sub_one_eq_mod]
  simp only [BitVec.toNat_add, BitVec.toNat_shiftLeft, BitVec.toNat_setWidth, Nat.shiftLeft_eq]
  omega

/-- The variables of the driver after `ili_init`: the register `0x04` decides. -/
def Ili.detected (istat : Nat → Word) (r : Nat) (d : Ili) : Ili :=
  if readWord istat 4 (r + 4) 0 &&& 0xffff = 0x8552 then { d with is7789 := true } else d

/-- The display after `ili_init`. -/
theorem iliInit_wired (istat : Nat → Word) (d : Ili) (β : Board) :
    ∃ τ, iliInit istat d β = some (d.detected istat β.reads, τ) ∧ Wired true τ ∧
      τ.latched = β.latched ++ initBytes.map some := by
  obtain ⟨β₁, hpins, hwired, hlatched, hreads⟩ := init_started β
  obtain ⟨hwired₁, hmoves₁, hlatched₁⟩ := hwired.run (resetOffEntries.flatMap SeqEntry.ops)
  obtain ⟨hwired₂, hmoves₂, hlatched₂⟩ := hwired₁.run (wakeOnEntries.flatMap SeqEntry.ops)
  obtain ⟨β₃, hread₃, hwired₃, hlatched₃, hreads₃⟩ := iliReadRegister32_wired hwired₂ istat 0xd3
  obtain ⟨τ, hread, hτ, hlatched', -⟩ := iliReadRegister32_wired hwired₃ istat 0x04
  have hcount : β₃.reads = β.reads + 4 := by
    rw [hreads₃, hmoves₂.reads, hmoves₁.reads, hreads]
  have hbytes : τ.latched = β.latched ++ initBytes.map some := by
    rw [hlatched', hlatched₃, hlatched₂, hlatched₁, hlatched]
    simp only [List.append_assoc]
    rfl
  refine ⟨τ, ?_, hτ, hbytes⟩
  unfold Board.started at hread₃
  simp only [iliInit, hpins, sendSequence_resetOff, sendSequence_wakeOn, hread₃, hread, hcount,
    Option.bind_eq_bind, Option.bind_some, Option.pure_def, Ili.detected]

/-- Started, the driver's operations reach the display, byte by byte. -/
theorem display_takes (istat : Nat → Word) (d : Ili) (β : Board) (ops : List (BusOp Byte)) :
    ∃ d' τ, iliInit istat d β = some (d', τ) ∧
      (Board.bus.run ops τ).latched = β.latched ++ (initBytes ++ Bus.bytes true ops).map some ∧
      τ.Moves (Board.bus.run ops τ) ∧
      (d'.is7789 = true ↔ d.is7789 = true ∨ (istat (β.reads + 6)).setWidth 8 = (0x85 : Byte) ∧
        (istat (β.reads + 7)).setWidth 8 = (0x52 : Byte)) := by
  obtain ⟨τ, hinit, hwired, hlatched⟩ := iliInit_wired istat d β
  obtain ⟨-, hmoves, hrun⟩ := hwired.run ops
  refine ⟨_, τ, hinit, ?_, hmoves, ?_⟩
  · rw [hrun, hlatched, List.append_assoc, List.map_append]
  · rw [← readWord_low istat (β.reads + 4) 0x85 0x52, Ili.detected]
    by_cases hid : readWord istat 4 (β.reads + 4) 0 &&& 0xffff = 0x8552
    · rw [if_pos hid]
      exact iff_of_true rfl (.inr hid)
    · rw [if_neg hid]
      refine ⟨.inl, fun h => h.resolve_right ?_⟩
      exact hid

end LnDso
