import LnDso.Lib.Bus
import LnDso.Machine.Gpio
import LnDso.Machine.Lcd

/-!
# The display driver (`ili9341_stm32_parallel8.cpp`)

The functions that only write are the operations on the bus they make; those
that move pins otherwise work on the board.
-/

namespace LnDso

open Lib

/-! ## The macros -/

namespace Board

/-- `ILI_DC_CMD` -/
def iliDcCmd (β : Board) : Board := β.write 2 (·.writeBc ((1 : Word) <<< 14))

/-- `ILI_DC_DAT` -/
def iliDcDat (β : Board) : Board := β.write 2 (·.writeBop ((1 : Word) <<< 14))

/-- `ILI_WR_STROBE` -/
def iliWrStrobe (β : Board) : Board :=
  (β.write 2 (·.writeBc ((1 : Word) <<< 15))).write 2 (·.writeBop ((1 : Word) <<< 15))

/-- `ILI_WRITE_8BIT` -/
def iliWrite8Bit (d : Byte) (β : Board) : Board :=
  (β.write 1 (·.writeBop (0x00FF0000 ||| d.setWidth 32))).iliWrStrobe

/-- `ILI_CS_ACTIVE` -/
def iliCsActive (β : Board) : Board := β.write 2 (·.writeBc ((1 : Word) <<< 13))

/-- `ILI_RD_ACTIVE` -/
def iliRdActive (β : Board) : Board := β.write 0 (·.writeBc ((1 : Word) <<< 6))

/-- `ILI_RD_IDLE` -/
def iliRdIdle (β : Board) : Board := β.write 0 (·.writeBop ((1 : Word) <<< 6))

/-- The pins as a bus. -/
def bus : Bus Byte Board := ⟨iliDcCmd, iliDcDat, iliWrite8Bit⟩

end Board

/-! ## Functions that write -/

/-- `FAKE_DELAY_COMMAND` -/
def fakeDelayCommand : Byte := 0x55

/-- `ILI_MADCTL` -/
def iliMadctl : Byte := 0x36

/-- `writeCmdParam` -/
def writeCmdParam (cmd : Byte) (data : List Byte) : List (BusOp Byte) :=
  [.cmd, .write cmd, .dat] ++ data.map .write

/-- What an entry of a sequence makes the driver do. -/
inductive SeqEntry
  /-- `delay(ms)` -/
  | delay (ms : Byte)
  | cmdParam (cmd : Byte) (data : List Byte)
deriving DecidableEq

/-- `sendSequence`: the entries of the table, up to one that begins with 0. A
table that ends earlier is read past its end. -/
def sendSequence (data : List Byte) : Option (List SeqEntry) :=
  match data with
  | [] => none
  | [cmd] => if cmd = 0 then some [] else none
  | cmd :: len :: data =>
      if cmd = 0 then some []
      else if cmd = fakeDelayCommand then (sendSequence data).map (.delay len :: ·)
      else if data.length < len.toNat then none
      else (sendSequence (data.drop len.toNat)).map (.cmdParam cmd (data.take len.toNat) :: ·)
termination_by data.length
decreasing_by
  · simp only [List.length_cons]
    omega
  · simp only [List.length_cons, List.length_drop]
    omega

/-- The operations of an entry: nothing moves while a delay lasts. -/
def SeqEntry.ops : SeqEntry → List (BusOp Byte)
  | .delay _ => []
  | .cmdParam cmd data => writeCmdParam cmd data

/-- `dso_resetOff` -/
def dsoResetOff : List Byte :=
  [0x01, 0, fakeDelayCommand, 150, 0x28, 0, 0x3A, 1, 0x55, 0]

/-- `dso_wakeOn` -/
def dsoWakeOn : List Byte :=
  [0x11, 0, fakeDelayCommand, 150, 0x29, 0, 0x20, 0, 0x36, 1, 0x48, 0xB0, 1, 0x40, 0]

/-- `ili_set_address_window` -/
def iliSetAddressWindow (x1 y1 x2 y2 : Half) : List (BusOp Byte) :=
  let xx := [x1.hi, x1.lo, x2.hi, x2.lo]
  let yy := [y1.hi, y1.lo, y2.hi, y2.lo]
  writeCmdParam Display.caset xx ++ writeCmdParam Display.paset yy ++
    [.cmd, .write Display.ramwr]

/-- `ili_sendWords` -/
def iliSendWords (data : List Half) : List (BusOp Byte) :=
  data.flatMap fun w => [.write w.hi, .write w.lo]

/-- The loop of `ili_fill_color`. -/
def fillLoop (color : Half) : (len : Nat) → List (BusOp Byte)
  | 0 => []
  | len + 1 => .write color.hi :: .write color.lo :: fillLoop color len

/-- `ili_fill_color` -/
def iliFillColor (color : Half) (len : Word) : List (BusOp Byte) := .dat :: fillLoop color len.toNat

/-- The variables of the driver. -/
structure Ili where
  /-- `ili_tftwidth` -/
  tftwidth : Half
  /-- `ili_tftheight` -/
  tftheight : Half
  is7789 : Bool

/-- As they are initialised. -/
def Ili.initial : Ili := ⟨320, 240, false⟩

/-- `ili_fill_screen` -/
def iliFillScreen (color : Half) (d : Ili) : List (BusOp Byte) :=
  iliSetAddressWindow 0 0 (d.tftwidth - 1) (d.tftheight - 1) ++
    iliFillColor color (d.tftwidth.setWidth 32 * d.tftheight.setWidth 32)

/-- `mad_9341` -/
def mad9341 : List Byte := [0x80, 0x40 ||| 0x80 ||| 0x20, 0x40, 0x20]

/-- `mad_7789` -/
def mad7789 : List Byte := [0x40 ||| 0x80, 0x80 ||| 0x20, 0, 0x40 ||| 0x20]

/-- `ili_rotate_display`; the tables have four entries. -/
def iliRotateDisplay (rotation : Byte) (d : Ili) : Option (Ili × List (BusOp Byte)) :=
  let newHeight : Half := 320
  let newWidth : Half := 240
  let d :=
    if rotation &&& 1 ≠ 0 then { d with tftheight := newWidth, tftwidth := newHeight }
    else { d with tftheight := newHeight, tftwidth := newWidth }
  (if d.is7789 then mad7789[rotation.toNat]? else mad9341[rotation.toNat]?).map fun t =>
    (d, writeCmdParam iliMadctl [t])

/-- A call of `drawHSBitmap`; reading the bitmap moves no pin. -/
def LcdCall.ops : LcdCall → List (BusOp Byte)
  | .next _ => []
  | .setAddressWindow x1 y1 x2 y2 => LnDso.iliSetAddressWindow x1 y1 x2 y2
  | .dataBegin => [.dat]
  | .sendWords data => LnDso.iliSendWords data
  | .dataEnd => [.cmd]

end LnDso
