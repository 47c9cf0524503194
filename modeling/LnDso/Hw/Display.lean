import LnDso.Lib.Mem

/-!
# The display

A display on an 8 bit bus with a data/command line. A command starts over; the
data after `ILI_RAMWR` are words, high byte first, that fill the window from its
first pixel on, row by row, and go round at its end.
-/

namespace LnDso

open Lib

structure Display where
  /-- Is the data/command line at data? -/
  dc : Bool
  command : Byte
  /-- The first byte of a word. -/
  high : Option Byte
  /-- The words written since the command. -/
  count : Nat
  pixels : Nat → Half

namespace Display

/-- `ILI_CASET` -/
def caset : Byte := 0x2a

/-- `ILI_PASET` -/
def paset : Byte := 0x2b

/-- `ILI_RAMWR` -/
def ramwr : Byte := 0x2c

/-- `ILI_DC_CMD` -/
def dcCmd (σ : Display) : Display := { σ with dc := false }

/-- `ILI_DC_DAT` -/
def dcDat (σ : Display) : Display := { σ with dc := true }

/-- `ILI_WRITE_8BIT`, with a window of `size` pixels. -/
def write8 (size : Nat) (b : Byte) (σ : Display) : Display :=
  if σ.dc then
    if σ.command = ramwr then
      match σ.high with
      | none => { σ with high := some b }
      | some high => { σ with
          high := none
          count := σ.count + 1
          pixels := Function.update σ.pixels (σ.count % size) (Half.ofBytes b high) }
    else σ
  else { σ with command := b, high := none, count := 0 }

end Display

end LnDso
