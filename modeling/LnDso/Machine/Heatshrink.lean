import LnDso.Lib.Mem

/-!
# Bitmap decompression (`heatshrink_decoder.c`, `ili_hs.h`)

The decoder for a window of 8 bits and a lookahead of 4, and the reader that
feeds it from flash and hands out one byte at a time.
-/

namespace LnDso

open Lib

/-- `HEATSHRINK_STATIC_INPUT_BUFFER_SIZE` -/
def inputBufferSize : Nat := 32

/-- `HEATSHRINK_STATIC_WINDOW_BITS` -/
def windowBits : Nat := 8

/-- `HEATSHRINK_STATIC_LOOKAHEAD_BITS` -/
def lookaheadBits : Nat := 4

/-- `NO_BITS` -/
def noBits : Half := 0xffff

/-- `HSD_state` -/
inductive HsdState
  | tagBit
  | yieldLiteral
  | backrefIndexMsb
  | backrefIndexLsb
  | backrefCountMsb
  | backrefCountLsb
  | yieldBackref
deriving DecidableEq

/-- `HSD_poll_res`, of a decoder that is there. -/
inductive HsdPollRes
  | empty
  | more
deriving DecidableEq

/-- `heatshrink_decoder` -/
structure HeatshrinkDecoder where
  inputSize : Half
  inputIndex : Half
  outputCount : Half
  outputIndex : Half
  headIndex : Half
  state : HsdState
  currentByte : Byte
  bitIndex : Byte
  /-- Input buffer, then expansion window buffer. -/
  buffers : Mem

namespace HeatshrinkDecoder

/-- `heatshrink_decoder_reset` -/
def reset : HeatshrinkDecoder where
  inputSize := 0
  inputIndex := 0
  outputCount := 0
  outputIndex := 0
  headIndex := 0
  state := .tagBit
  currentByte := 0
  bitIndex := 0
  buffers := fun _ => 0

/-- `heatshrink_decoder_sink`: the number of bytes sunk from `inBuf`. -/
def sink (inBuf : Mem) (size : Nat) (d : HeatshrinkDecoder) : Nat × HeatshrinkDecoder :=
  let rem := inputBufferSize - d.inputSize.toNat
  if rem = 0 then (0, d)
  else
    let size := if rem < size then rem else size
    (size, { d with
      buffers := d.buffers.write d.inputSize.toNat (inBuf.read 0 size)
      inputSize := d.inputSize + BitVec.ofNat 16 size })

/-- The next byte of the input buffer, for `get_bits`. -/
def pullByte (d : HeatshrinkDecoder) : HeatshrinkDecoder :=
  let byte := d.buffers d.inputIndex.toNat
  let index := d.inputIndex + 1
  if index = d.inputSize then
    { d with currentByte := byte, inputIndex := 0, inputSize := 0, bitIndex := 0x80 }
  else { d with currentByte := byte, inputIndex := index, bitIndex := 0x80 }

/-- The loop of `get_bits`, `n` bits to go. -/
def getBitsLoop : (n : Nat) → (accumulator : Half) → HeatshrinkDecoder → Half × HeatshrinkDecoder
  | 0, accumulator, d => (accumulator, d)
  | n + 1, accumulator, d =>
      if d.bitIndex = 0 ∧ d.inputSize = 0 then (noBits, d)
      else
        let d := if d.bitIndex = 0 then d.pullByte else d
        let accumulator := accumulator <<< 1
        let accumulator := if d.currentByte &&& d.bitIndex ≠ 0 then accumulator ||| 1 else accumulator
        getBitsLoop n accumulator { d with bitIndex := d.bitIndex >>> 1 }

/-- `get_bits` -/
def getBits (count : Nat) (d : HeatshrinkDecoder) : Half × HeatshrinkDecoder :=
  if count > 15 then (noBits, d)
  else if d.inputSize = 0 ∧ d.bitIndex.toNat < 1 <<< (count - 1) then (noBits, d)
  else getBitsLoop count 0 d

/-- The place in `buffers` of an index into the window. -/
def windowAt (i : Half) : Nat := inputBufferSize + (i &&& BitVec.ofNat 16 (1 <<< windowBits - 1)).toNat

def stTagBit (d : HeatshrinkDecoder) : HsdState × HeatshrinkDecoder :=
  let (bits, d) := d.getBits 1
  if bits = noBits then (.tagBit, d)
  else if bits ≠ 0 then (.yieldLiteral, d)
  else if windowBits > 8 then (.backrefIndexMsb, d)
  else (.backrefIndexLsb, { d with outputIndex := 0 })

/-- `st_yield_literal`, with the output buffer of `size` bytes. -/
def stYieldLiteral (size : Nat) (out : List Byte) (d : HeatshrinkDecoder) :
    HsdState × List Byte × HeatshrinkDecoder :=
  if out.length < size then
    let (byte, d) := d.getBits 8
    if byte = noBits then (.yieldLiteral, out, d)
    else
      let c := byte.setWidth 8
      (.tagBit, out ++ [c], { d with
        buffers := d.buffers.write (windowAt d.headIndex) [c]
        headIndex := d.headIndex + 1 })
  else (.yieldLiteral, out, d)

def stBackrefIndexMsb (d : HeatshrinkDecoder) : HsdState × HeatshrinkDecoder :=
  let (bits, d) := d.getBits (windowBits - 8)
  if bits = noBits then (.backrefIndexMsb, d)
  else (.backrefIndexLsb, { d with outputIndex := bits <<< 8 })

def stBackrefIndexLsb (d : HeatshrinkDecoder) : HsdState × HeatshrinkDecoder :=
  let (bits, d) := d.getBits (if windowBits < 8 then windowBits else 8)
  if bits = noBits then (.backrefIndexLsb, d)
  else
    let d := { d with outputIndex := (d.outputIndex ||| bits) + 1, outputCount := 0 }
    (if lookaheadBits > 8 then .backrefCountMsb else .backrefCountLsb, d)

def stBackrefCountMsb (d : HeatshrinkDecoder) : HsdState × HeatshrinkDecoder :=
  let (bits, d) := d.getBits (lookaheadBits - 8)
  if bits = noBits then (.backrefCountMsb, d)
  else (.backrefCountLsb, { d with outputCount := bits <<< 8 })

def stBackrefCountLsb (d : HeatshrinkDecoder) : HsdState × HeatshrinkDecoder :=
  let (bits, d) := d.getBits (if lookaheadBits < 8 then lookaheadBits else 8)
  if bits = noBits then (.backrefCountLsb, d)
  else (.yieldBackref, { d with outputCount := (d.outputCount ||| bits) + 1 })

/-- The copy loop of `st_yield_backref`, `n` bytes to go. -/
def copyBackref : (n : Nat) → List Byte → HeatshrinkDecoder → List Byte × HeatshrinkDecoder
  | 0, out, d => (out, d)
  | n + 1, out, d =>
      let c := d.buffers (windowAt (d.headIndex - d.outputIndex))
      copyBackref n (out ++ [c]) { d with
        buffers := d.buffers.write (windowAt d.headIndex) [c]
        headIndex := d.headIndex + 1 }

def stYieldBackref (size : Nat) (out : List Byte) (d : HeatshrinkDecoder) :
    HsdState × List Byte × HeatshrinkDecoder :=
  let count := size - out.length
  if count > 0 then
    let count := if d.outputCount.toNat < count then d.outputCount.toNat else count
    let (out, d) := copyBackref count out d
    let d := { d with outputCount := d.outputCount - BitVec.ofNat 16 count }
    (if d.outputCount = 0 then .tagBit else .yieldBackref, out, d)
  else (.yieldBackref, out, d)

/-- One turn of the loop of `heatshrink_decoder_poll`. -/
def pollStep (size : Nat) (out : List Byte) (d : HeatshrinkDecoder) :
    List Byte × HeatshrinkDecoder :=
  let still := fun (r : HsdState × HeatshrinkDecoder) => (out, { r.2 with state := r.1 })
  let grown := fun (r : HsdState × List Byte × HeatshrinkDecoder) =>
    (r.2.1, { r.2.2 with state := r.1 })
  match d.state with
  | .tagBit => still d.stTagBit
  | .yieldLiteral => grown (d.stYieldLiteral size out)
  | .backrefIndexMsb => still d.stBackrefIndexMsb
  | .backrefIndexLsb => still d.stBackrefIndexLsb
  | .backrefCountMsb => still d.stBackrefCountMsb
  | .backrefCountLsb => still d.stBackrefCountLsb
  | .yieldBackref => grown (d.stYieldBackref size out)

/-- The loop of `heatshrink_decoder_poll`: it ends when a turn leaves the state. -/
def pollLoop (size : Nat) :
    (fuel : Nat) → List Byte → HeatshrinkDecoder → Option (HsdPollRes × List Byte × HeatshrinkDecoder)
  | 0, _, _ => none
  | fuel + 1, out, d =>
      let (out', d') := d.pollStep size out
      if d'.state = d.state then
        some (if out'.length = size then .more else .empty, out', d')
      else pollLoop size fuel out' d'

/-- `heatshrink_decoder_poll`. Every turn takes a bit of the at most 264 that
are left, or writes out a back reference: the loop has ended before 600. -/
def poll (size : Nat) (d : HeatshrinkDecoder) : Option (HsdPollRes × List Byte × HeatshrinkDecoder) :=
  pollLoop size 600 [] d

end HeatshrinkDecoder

/-! ## The reader -/

/-- `iliHS`; `decompBuffer` holds the bytes from `head` to `tail`. -/
structure IliHS where
  hsd : HeatshrinkDecoder
  decompBuffer : List Byte
  p : Nat
  /-- The `input_size` that each call of `heatshrink_decoder_sink` found. -/
  sinks : List Half

namespace IliHS

/-- `iliHS(data)` -/
def init (data : Nat) : IliHS := ⟨.reset, [], data, []⟩

/-- From `again` on, with at most `n` passes. -/
def again (flash : Mem) : (n : Nat) → IliHS → Option IliHS
  | 0, _ => none
  | n + 1, hs =>
      (hs.hsd.poll 64).bind fun (r, out, hsd) =>
        if r = .empty ∧ out.length = 0 then
          let (count, hsd') := hsd.sink (flash.from_ hs.p) (64 * 1024)
          again flash n { hs with hsd := hsd', p := hs.p + count, sinks := hs.sinks ++ [hsd.inputSize] }
        else some { hs with hsd := hsd, decompBuffer := out }

/-- `next()`. A full input buffer is enough for a byte: there is no third pass. -/
def next (flash : Mem) (hs : IliHS) : Option (Byte × IliHS) :=
  (if hs.decompBuffer = [] then again flash 2 hs else some hs).bind fun hs =>
    match hs.decompBuffer with
    | [] => none
    | b :: rest => some (b, { hs with decompBuffer := rest })

/-- The reader after `n` calls of `next()`. -/
def after (flash : Mem) (data : Nat) : (n : Nat) → Option IliHS
  | 0 => some (init data)
  | n + 1 => (after flash data n).bind fun hs => (hs.next flash).map Prod.snd

end IliHS

end LnDso
