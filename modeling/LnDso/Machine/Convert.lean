import LnDso.Lib.Mem

/-!
# Bitmap packing (`gfx/convert.py`)

The Python script that turns a picture into one bit a pixel. The picture is
read through `image.getpixel`; what raises an exception is `none`.
-/

namespace LnDso

open Lib

/-- What `getpixel` returns. -/
inductive Pixel
  /-- Mode `L`. -/
  | grey (v : Byte)
  /-- Mode `P`. -/
  | index (v : Byte)
  /-- The modes of four bytes a pixel. -/
  | quad (a b c d : Byte)

/-- `pix` -/
def Pixel.pix : Pixel → Nat
  | .grey v => v.toNat
  | .index v => if 255 * v.toNat > 255 then 255 else 255 * v.toNat
  | .quad a b c _ => 255 - (a.toNat + b.toNat + c.toNat) / 3

/-- A picture. -/
structure Image where
  width : Nat
  height : Nat
  getpixel : Nat → Nat → Pixel

/-- `b[i]=v` on a `bytearray` -/
def setByte (b : List Byte) (i v : Nat) : Option (List Byte) :=
  if i < b.length ∧ v < 256 then some (b.set i (BitVec.ofNat 8 v)) else none

/-- The variables of the packing loop. -/
structure Packing where
  arr : List Byte
  out : List Byte
  xx : Nat
  mask : Nat
  value : Nat

/-- First pack them as a byte array: row `y` in `arr`. -/
def readRow (image : Image) (y : Nat) (arr : List Byte) : Option (List Byte) :=
  (List.range image.width).foldlM (fun arr x => setByte arr x (image.getpixel x y).pix) arr

/-- 8 bits -> 1 bit, for one entry of `arr`. -/
def packPixel (s : Packing) (pix : Byte) : Option Packing :=
  let value := if pix.toNat > 0x40 then s.value + s.mask else s.value
  let mask := s.mask >>> 1
  if mask = 0 then
    (setByte s.out s.xx value).map fun out =>
      { s with out := out, mask := 0x80, xx := s.xx + 1, value := 0 }
  else some { s with mask := mask, value := value }

def packRow (image : Image) (s : Packing) (y : Nat) : Option Packing :=
  (readRow image y s.arr).bind fun arr =>
    arr.foldlM packPixel { s with arr := arr, mask := 0x80, value := 0 }

/-- The bytes of the binary file: `out` has room for `int((width*height+7)/8)`. -/
def convert (image : Image) : Option (List Byte) :=
  let start : Packing :=
    { arr := List.replicate image.width 0
      out := List.replicate ((image.width * image.height + 7) / 8) 0
      xx := 0
      mask := 0x80
      value := 0 }
  ((List.range image.height).foldlM (packRow image) start).map Packing.out

end LnDso
