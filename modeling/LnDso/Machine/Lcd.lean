import LnDso.Hw.Display

/-!
# Drawing a bitmap (`lcd.cpp`, `ili9341_stm32_parallel8.cpp`)

`drawHSBitmap` reads a bitmap byte by byte and hands it to the display driver
in batches of words. The log has its calls in their order, those of the reader
too; the driver turns its own into writes to the bus.
-/

namespace LnDso

open Lib

/-- `ST7735_BUFFER_SIZE_WORD` -/
def st7735BufferSizeWord : Nat := 128

/-- A call that `drawHSBitmap` makes. -/
inductive LcdCall
  /-- `hs.next()`, with the byte it returned. -/
  | next (cur : Byte)
  | setAddressWindow (x1 y1 x2 y2 : Half)
  | dataBegin
  | sendWords (data : List Half)
  | dataEnd
deriving DecidableEq

/-! ## The display driver -/

namespace LcdCall

/-- `writeCmdParam` -/
def writeCmdParam (size : Nat) (cmd : Byte) (data : List Byte) (σ : Display) : Display :=
  data.foldl (fun σ b => σ.write8 size b) ((σ.dcCmd.write8 size cmd).dcDat)

/-- `ili_set_address_window` -/
def iliSetAddressWindow (size : Nat) (x1 y1 x2 y2 : Half) (σ : Display) : Display :=
  let xx := [x1.hi, x1.lo, x2.hi, x2.lo]
  let yy := [y1.hi, y1.lo, y2.hi, y2.lo]
  let σ := writeCmdParam size Display.caset xx σ
  let σ := writeCmdParam size Display.paset yy σ
  σ.dcCmd.write8 size Display.ramwr

/-- `ili_sendWords` -/
def iliSendWords (size : Nat) (data : List Half) (σ : Display) : Display :=
  data.foldl (fun σ w => (σ.write8 size w.hi).write8 size w.lo) σ

/-- What a call does to a display of `size` pixels. -/
def run (size : Nat) (σ : Display) : LcdCall → Display
  | next _ => σ
  | setAddressWindow x1 y1 x2 y2 => iliSetAddressWindow size x1 y1 x2 y2 σ
  | dataBegin => σ.dcDat
  | sendWords data => iliSendWords size data σ
  | dataEnd => σ.dcCmd

end LcdCall

/-! ## The drawing loop -/

/-- The variables of `drawHSBitmap`, with the calls made. -/
structure Draw (S : Type) where
  hs : S
  pixel : Word
  temp : Nat → Half
  /-- `o - temp` -/
  o : Nat
  ready : Nat
  log : List LcdCall

namespace Draw

variable {S : Type}

/-- `*o++ = color`. A store past the array has no meaning. -/
def store (color : Half) (d : Draw S) : Option (Draw S) :=
  if d.o < st7735BufferSizeWord then
    some { d with temp := Function.update d.temp d.o color, o := d.o + 1 }
  else none

/-- The loop over the bits of `cur`, `n` to go. -/
def storeBits (cur : Byte) : (n : Nat) → (mask : Byte) → Draw S → Option (Draw S)
  | 0, _, d => some d
  | n + 1, mask, d =>
      (d.store (if mask &&& cur ≠ 0 then 0xffff else 0)).bind (storeBits cur n (mask >>> 1))

/-- `ili_sendWords(ready,temp)` -/
def send (d : Draw S) : Draw S :=
  { d with log := d.log ++ [.sendWords ((List.range d.ready).map d.temp)] }

/-- The body of the drawing loop. -/
def drawByte (next : S → Option (Byte × S)) (d : Draw S) : Option (Draw S) :=
  (next d.hs).bind fun (cur, hs) =>
    (storeBits cur 8 0x80 { d with hs := hs, log := d.log ++ [.next cur] }).map fun d =>
      let d := { d with ready := d.ready + 8, pixel := d.pixel + 8 }
      if d.ready > st7735BufferSizeWord - 16 then { d.send with ready := 0, o := 0 } else d

/-- The drawing loop, with at most `fuel` tests of its condition. -/
def drawLoop (next : S → Option (Byte × S)) (nbPixel : Word) :
    (fuel : Nat) → Draw S → Option (Draw S)
  | 0, _ => none
  | fuel + 1, d =>
      if d.pixel.slt nbPixel then (drawByte next d).bind (drawLoop next nbPixel fuel) else some d

end Draw

/-- `drawHSBitmap`, reading from `hs` with `next`: its calls. `temp` is on the
stack, with whatever was there before. -/
def drawHSBitmap {S : Type} (next : S → Option (Byte × S)) (fuel : Nat)
    (widthInPixel height wx wy : Word) (hs : S) (temp : Nat → Half) : Option (List LcdCall) :=
  let nbPixel := widthInPixel * height
  let d : Draw S :=
    { hs := hs
      pixel := 0
      temp := temp
      o := 0
      ready := 0
      log := [.setAddressWindow (wx.setWidth 16) (wy.setWidth 16)
        ((widthInPixel + wx - 1).setWidth 16) ((height + wy - 1).setWidth 16), .dataBegin] }
  (Draw.drawLoop next nbPixel fuel d).map fun d =>
    (if d.ready ≠ 0 then d.send else d).log ++ [.dataEnd]

end LnDso
