import LnDso.Machine.Ili

/-!
# Starting and animating the screen (`ili9341_stm32_parallel8.cpp`, `lcd.cpp`)

`istat` is what port B has at its input, reading by reading; `next` reads a
bitmap, and `temp` is on the stack of `drawHSBitmap`.
-/

namespace LnDso

open Lib

/-! ## Reading a register -/

/-- `read8` -/
def read8 (istat : Nat → Word) (β : Board) : Byte × Board :=
  let β := β.iliRdActive
  let (u, β) := lnReadPortB istat β
  (u.setWidth 8, β.iliRdIdle)

/-- The loop over `read8`. -/
def readBytes (istat : Nat → Word) : (n : Nat) → (u : Word) → Board → Word × Board
  | 0, u, β => (u, β)
  | n + 1, u, β =>
      let (b, β) := read8 istat β
      readBytes istat n ((u <<< 8) + b.setWidth 32) β

/-- `lnPinMode` on one pin after the other. -/
def pinModes (mode : GpioMode) (pins : List LnPin) (β : Board) : Option Board :=
  pins.foldlM (fun β pin => lnPinMode pin mode β) β

/-- `PB0` to `PB7` -/
def dataPins : List LnPin := [16, 17, 18, 19, 20, 21, 22, 23]

/-- `ili_readRegister32` -/
def iliReadRegister32 (istat : Nat → Word) (r : Byte) (β : Board) : Option (Word × Board) := do
  let β := Board.bus.run [.cmd, .write r, .dat] β
  let β ← pinModes .lnInputPullup dataPins β
  let (u, β) := readBytes istat 4 0 β
  let β ← pinModes .lnOutput dataPins β
  pure (u, β)

/-! ## Starting -/

/-- `setPinToDefault` -/
def setPinToDefault (β : Board) (pin : LnPin) : Option Board :=
  lnPinMode pin .lnOutput (lnDigitalWrite pin true β)

/-- `DSO_RESET_PIN`: PA6 -/
def dsoResetPin : LnPin := 6

/-- The pins of `ili_init`: PB0 to PB9, PA6, PC13, PC14 and PC15. -/
def initPins : List LnPin := dataPins ++ [24, 25, dsoResetPin, 45, 46, 47]

/-- `ili_init` -/
def iliInit (istat : Nat → Word) (d : Ili) (β : Board) : Option (Ili × Board) := do
  let β ← initPins.foldlM setPinToDefault β
  let β := lnDigitalWrite dsoResetPin false β
  let β := lnDigitalWrite dsoResetPin true β
  let β := β.iliCsActive
  let resetOff ← sendSequence dsoResetOff
  let wakeOn ← sendSequence dsoWakeOn
  let β := Board.bus.run (resetOff.flatMap SeqEntry.ops) β
  let β := Board.bus.run (wakeOn.flatMap SeqEntry.ops) β
  let (_, β) ← iliReadRegister32 istat 0xd3 β
  let (u, β) ← iliReadRegister32 istat 0x04 β
  let reg04 := u &&& 0xffff
  pure (if reg04 = 0x8552 then { d with is7789 := true } else d, β)

/-! ## Drawing -/

/-- `ILI_COLOR_BLACK` -/
def iliColorBlack : Half := 0

variable {S : Type}

/-- `drawHSBitmap` on the board. -/
def drawOnBoard (next : S → Option (Byte × S)) (fuel : Nat) (widthInPixel height wx wy : Word)
    (hs : S) (temp : Nat → Half) (β : Board) : Option Board :=
  (drawHSBitmap next fuel widthInPixel height wx wy hs temp).map fun calls =>
    Board.bus.run (calls.flatMap LcdCall.ops) β

/-- `runLcd` -/
def runLcd (next : S → Option (Byte × S)) (fuel : Nat) (dfuUsb : S) (temp : Nat → Half)
    (istat : Nat → Word) (d : Ili) (β : Board) : Option (Ili × Board) := do
  let (d, β) ← iliInit istat d β
  let (d, rotate) ← iliRotateDisplay 1 d
  let β := Board.bus.run rotate β
  let β := Board.bus.run (iliFillScreen iliColorBlack d) β
  let β ← drawOnBoard next fuel 80 52 ((320 - 80) / 2) 48 dfuUsb temp β
  pure (d, β)

/-- `animate`: the frame `step`, and the step after it. -/
def animate (next : S → Option (Byte × S)) (fuel : Nat) (animationStep : List S)
    (temp : Nat → Half) (step : Nat) (β : Board) : Option (Nat × Board) := do
  let hs ← animationStep[step]?
  let β ← drawOnBoard next fuel 56 36 ((320 - 56) / 2) 140 hs temp β
  let step := step + 1
  pure (if step ≥ 6 then 0 else step, β)

end LnDso
