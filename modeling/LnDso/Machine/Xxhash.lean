import LnDso.Machine.Boot

/-!
# The hash of the image (`xxhash.h`)

`XXH32` over the bytes from a pointer on. The pointer is the list of the bytes
that are left, and moving it drops bytes; words are read little-endian.
-/

namespace LnDso

open Lib

def xxhPrime32_1 : Word := 0x9E3779B1
def xxhPrime32_2 : Word := 0x85EBCA77
def xxhPrime32_3 : Word := 0xC2B2AE3D
def xxhPrime32_4 : Word := 0x27D4EB2F
def xxhPrime32_5 : Word := 0x165667B1

/-- `XXH_get32bits` -/
def xxhGet32bits (ptr : List Byte) : Word :=
  Word.ofBytes (ptr.getD 0 0) (ptr.getD 1 0) (ptr.getD 2 0) (ptr.getD 3 0)

/-- `XXH32_round` -/
def xxh32Round (acc input : Word) : Word :=
  let acc := acc + input * xxhPrime32_2
  let acc := acc.rotateLeft 13
  acc * xxhPrime32_1

/-- `XXH32_avalanche` -/
def xxh32Avalanche (hash : Word) : Word :=
  let hash := hash ^^^ (hash >>> 15)
  let hash := hash * xxhPrime32_2
  let hash := hash ^^^ (hash >>> 13)
  let hash := hash * xxhPrime32_3
  hash ^^^ (hash >>> 16)

/-- `XXH_PROCESS1` -/
def xxhProcess1 (hash : Word) (b : Byte) : Word :=
  let hash := hash + b.setWidth 32 * xxhPrime32_5
  hash.rotateLeft 11 * xxhPrime32_1

/-- `XXH_PROCESS4` -/
def xxhProcess4 (hash w : Word) : Word :=
  let hash := hash + w * xxhPrime32_3
  hash.rotateLeft 17 * xxhPrime32_4

/-- The loops of `XXH32_finalize`: words while there are four bytes, then bytes. -/
def xxh32FinalizeLoop (hash : Word) (ptr : List Byte) : Word :=
  if 4 ≤ ptr.length then
    xxh32FinalizeLoop (xxhProcess4 hash (xxhGet32bits ptr)) (ptr.drop 4)
  else ptr.foldl xxhProcess1 hash
termination_by ptr.length

/-- `XXH32_finalize` -/
def xxh32Finalize (hash : Word) (ptr : List Byte) (len : Word) : Word :=
  xxh32Avalanche (xxh32FinalizeLoop hash (ptr.take (len &&& 15).toNat))

/-- The accumulators `v1` to `v4`. -/
abbrev Lanes : Type := Fin 4 → Word

/-- One pass of the stripe loop. -/
def Lanes.stripe (v : Lanes) (input : List Byte) : Lanes := fun j =>
  xxh32Round (v j) (xxhGet32bits (input.drop (4 * j)))

/-- The stripe loop, while `input < limit`: the last 16 bytes are not yet begun. -/
def Lanes.stripes (v : Lanes) (input : List Byte) : Lanes × List Byte :=
  if 16 ≤ input.length then Lanes.stripes (v.stripe input) (input.drop 16) else (v, input)
termination_by input.length

/-- What `v1` to `v4` start with. -/
def Lanes.init (seed : Word) : Lanes
  | 0 => seed + xxhPrime32_1 + xxhPrime32_2
  | 1 => seed + xxhPrime32_2
  | 2 => seed + 0
  | 3 => seed - xxhPrime32_1

/-- The accumulators put together. -/
def Lanes.merge (v : Lanes) : Word :=
  (v 0).rotateLeft 1 + (v 1).rotateLeft 7 + (v 2).rotateLeft 12 + (v 3).rotateLeft 18

/-- `XXH32`, by way of `XXH32_endian_align` -/
def xxh32 : Xxh32 := fun input len seed =>
  let (h32, input) :=
    if 16 ≤ len then
      let (v, input) := (Lanes.init seed).stripes input
      (v.merge, input)
    else (seed + xxhPrime32_5, input)
  let h32 := h32 + len
  xxh32Finalize h32 input (len &&& 15)

/-- The hash of nothing with seed 0. -/
example : xxh32 [] 0 0 = 0x02CC5D05 := by decide +kernel

end LnDso
