import LnDso.Hw.Display

/-!
# The panel

The memory of the display, by column and row. `ILI_CASET` and `ILI_PASET` set
the first and the last column and row of the window, high bytes first; the words
after `ILI_RAMWR` fill it row by row and go round at its end. Other commands
(sleep, display on, the scan order and the pixel format) are not followed: what is
said of the panel is said of its memory, not of what there is to see.
-/

namespace LnDso

open Lib

structure Panel where
  command : Byte
  /-- The data since the command. -/
  params : List Byte
  xs : Half
  xe : Half
  ys : Half
  ye : Half
  /-- The first byte of a word. -/
  high : Option Byte
  /-- The words written since the command. -/
  count : Nat
  mem : Nat → Nat → Half

namespace Panel

/-- The columns of the window. -/
def width (p : Panel) : Nat := p.xe.toNat + 1 - p.xs.toNat

/-- The rows of the window. -/
def height (p : Panel) : Nat := p.ye.toNat + 1 - p.ys.toNat

/-- A word at column `x` and row `y`. -/
def put (x y : Nat) (w : Half) (mem : Nat → Nat → Half) : Nat → Nat → Half :=
  fun x' y' => if x' = x ∧ y' = y then w else mem x' y'

/-- A byte of data, with the bytes of the command so far. -/
def setWindow (p : Panel) : List Byte → Panel
  | [a, b, c, d] =>
      if p.command = Display.caset then { p with xs := Half.ofBytes b a, xe := Half.ofBytes d c }
      else if p.command = Display.paset then
        { p with ys := Half.ofBytes b a, ye := Half.ofBytes d c }
      else p
  | _ => p

/-- What a byte does, with DC as it is at the strobe. -/
def take (p : Panel) (x : Bool × Byte) : Panel :=
  if x.1 = false then { p with command := x.2, params := [], high := none, count := 0 }
  else if p.command = Display.ramwr then
    match p.high with
    | none => { p with high := some x.2 }
    | some high => { p with
        high := none
        count := p.count + 1
        mem := put (p.xs.toNat + p.count % p.width)
          (p.ys.toNat + p.count / p.width % p.height) (Half.ofBytes x.2 high) p.mem }
  else { p.setWindow (p.params ++ [x.2]) with params := p.params ++ [x.2] }

def takeAll (p : Panel) (l : List (Bool × Byte)) : Panel := l.foldl take p

theorem takeAll_append (p : Panel) (l l' : List (Bool × Byte)) :
    p.takeAll (l ++ l') = (p.takeAll l).takeAll l' := List.foldl_append

end Panel

end LnDso
