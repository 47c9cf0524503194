import LnDso.Lib.Mem
import LnDso.Lib.Polling
import LnDso.Lib.TSys

/-!
# The tick and the delay loop (`stubs.cpp`)

`tick` is the timer interrupt, `xDelay` reads `sysTick` in a loop until it is past
a target. A turn is one of the two.
-/

namespace LnDso

open Lib

/-- `sysTick`, and the loop of `xDelay` that reads it. -/
structure XDelay where
  sysTick : Word
  tgt : Word
  returned : Bool

namespace XDelay

/-- `xDelay(ms)` on entering its loop; `ms` is an `int`, the sum is unsigned. -/
def enter (sysTick : Word) (ms : Int) : XDelay where
  sysTick := sysTick
  tgt := sysTick + BitVec.ofInt 32 ms
  returned := false

/-- `tick` -/
def tick (d : XDelay) : XDelay := { d with sysTick := d.sysTick + 1 }

/-- The body of the loop. -/
def body (d : XDelay) : XDelay := if d.tgt < d.sysTick then { d with returned := true } else d

/-- A turn. The interrupt goes on when the loop is over. -/
def step (d : XDelay) : Turn → XDelay
  | .tick => d.tick
  | .read => if d.returned then d else d.body

theorem step_tick (d : XDelay) : d.step .tick = { d with sysTick := d.sysTick + 1 } := rfl

/-- A read leaves the counter and the target, and returns if one is past the other. -/
theorem step_read (d : XDelay) : d.step .read =
    { d with returned := d.returned || decide (d.tgt < d.sysTick) } := by
  obtain ⟨sysTick, tgt, returned⟩ := d
  cases returned with
  | true => rfl
  | false =>
      by_cases hpast : tgt < sysTick
      · simp [step, body, hpast]
      · simp [step, body, hpast]

end XDelay

/-- The delay loop under the interrupt. -/
def delayLoop : TSys XDelay Turn where
  init d := ∃ sysTick ms, d = XDelay.enter sysTick ms
  step := XDelay.step

end LnDso
