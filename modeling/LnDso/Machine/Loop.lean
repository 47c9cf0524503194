import LnDso.Machine.Heatshrink
import LnDso.Machine.Poll
import LnDso.Machine.Screen

/-!
# The main loop (`dfu.cpp`)

`runDfu` polls and, when it is time, draws a frame. The pictures are in the flash
that requests write to.
-/

namespace LnDso

open Lib

/-- Flash by address. -/
def Flash.bytes (fl : Flash) : Mem := fun a => fl.mem (BitVec.ofNat 32 a)

/-- The variables of the loop, with the device and the pins. -/
structure MainLoop where
  dev : Dev
  sysTick : Word
  /-- An `int`. -/
  nextTick : Word
  /-- `step` -/
  step : Nat
  board : Board
  /-- How often `animate` was called; no variable of the loop. -/
  frames : Nat

namespace MainLoop

/-- What a turn of the loop leads to. -/
inductive Turned
  /-- `_full_system_reset` -/
  | reset
  | on (s : MainLoop)

/-- The variables before the first turn. -/
def enter (dev : Dev) (sysTick : Word) (board : Board) : MainLoop where
  dev := dev
  sysTick := sysTick
  nextTick := sysTick + 100
  step := 0
  board := board
  frames := 0

/-- A turn, with what happens on the bus before its poll and the ticks there were
since `sysTick` was read. -/
def turn (cfg : Config) (animationStep : List IliHS) (fuel : Nat) (temp : Nat → Half) (e : Event)
    (ticks : Nat) (s : MainLoop) : Option Turned :=
  let dev := poll cfg s.dev e
  -- USB device must detach, we just reset...
  if dev.dfu.usbdfuState = .dfuManifest then some .reset
  else
    let s := { s with dev := dev, sysTick := s.sysTick + BitVec.ofNat 32 ticks }
    if s.nextTick < s.sysTick then
      (animate (IliHS.next dev.flash.bytes) fuel animationStep temp s.step s.board).map
        fun (step, board) => .on { s with
          step := step, board := board, frames := s.frames + 1, nextTick := s.nextTick + 100 }
    else some (.on s)

/-- Turns that have not reset, each with its event and its ticks. -/
inductive Runs (cfg : Config) (animationStep : List IliHS) (s : MainLoop) :
    List (Event × Nat) → MainLoop → Prop
  | nil : Runs cfg animationStep s [] s
  | snoc {l e ticks fuel temp t u} : Runs cfg animationStep s l t →
      turn cfg animationStep fuel temp e ticks t = some (.on u) →
      Runs cfg animationStep s (l ++ [(e, ticks)]) u

end MainLoop

end LnDso
