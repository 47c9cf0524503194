import LnDso.Lib.Nor

/-!
# The flash controller

The registers of `flash.h`: FLASH_CR, FLASH_KEYR, FLASH_AR and the BSY flag,
over 1-KB erase pages in a flat 32-bit address space. While FLASH_CR.LOCK is
set, writes to FLASH_CR and half-word stores have no effect; only the two-key
sequence unlocks. Every operation software attempts is recorded in `log`,
oldest first, with the control bits it found.
-/

namespace LnDso

open Lib

/-- Bytes in an erase page. -/
def flashPageSize : Nat := 1024

/-- The bits of FLASH_CR. -/
structure FlashCr where
  lock : Bool
  strt : Bool
  per : Bool
  pg : Bool
deriving DecidableEq

/-- Progress of the unlock sequence; a wrong key jams it until reset. -/
inductive KeyState
  | idle
  | key1
  | jammed
deriving DecidableEq

/-- An access to flash. -/
inductive FlashOp
  /-- STRT written with FLASH_AR at `ar`. -/
  | erase (cr : FlashCr) (bsy : Bool) (ar : Word)
  /-- A half-word stored at `a`. -/
  | program (cr : FlashCr) (bsy : Bool) (a : Word) (v : Half)
  /-- A 32-bit load at `a` by the blank scan. -/
  | scan (a : Word)
  /-- A byte load at `a` by the upload copy. -/
  | copy (a : Word)
deriving DecidableEq

/-- The addresses an operation erases, programs or reads. -/
def FlashOp.Hits : FlashOp → Word → Prop
  | .erase _ _ ar, b => b.toNat / flashPageSize = ar.toNat / flashPageSize
  | .program _ _ a _, b => b = a ∨ b = a + 1#32
  | .scan a, b => ∃ i < 4, b = a + BitVec.ofNat 32 i
  | .copy a, b => b = a

/-- An erase start or a half-word program. -/
def FlashOp.Modifies : FlashOp → Prop
  | .erase .. => True
  | .program .. => True
  | _ => False

structure Flash where
  mem : Nor.Cells 32
  cr : FlashCr
  keyr : KeyState
  ar : Word
  bsy : Bool
  log : List FlashOp

namespace Flash

/-- Record an access. -/
def record (op : FlashOp) (fl : Flash) : Flash := { fl with log := fl.log ++ [op] }

/-- Write FLASH_CR. -/
def writeCr (v : FlashCr) (fl : Flash) : Flash :=
  let fl' := if v.strt then fl.record (.erase { v with lock := fl.cr.lock } fl.bsy fl.ar) else fl
  if fl.cr.lock then fl'
  else if v.strt && v.per then
    { fl' with mem := Nor.erasePage flashPageSize fl.mem fl.ar
               cr := { v with strt := false }, bsy := true }
  else { fl' with cr := { v with strt := false } }

/-- Write FLASH_KEYR. -/
def writeKeyr (key : Word) (fl : Flash) : Flash :=
  if fl.cr.lock then
    match fl.keyr with
    | .idle => { fl with keyr := if key = 0x45670123 then .key1 else .jammed }
    | .key1 =>
        if key = 0xcdef89ab then { fl with keyr := .idle, cr := { fl.cr with lock := false } }
        else { fl with keyr := .jammed }
    | .jammed => fl
  else fl

/-- Write FLASH_AR. -/
def writeAr (a : Word) (fl : Flash) : Flash := { fl with ar := a }

/-- Store a half-word into flash; `re` is what the part does to a half-word
that is not erased. -/
def storeHalf (re : Half → Half → Half) (a : Word) (v : Half) (fl : Flash) : Flash :=
  let fl' := fl.record (.program fl.cr fl.bsy a v)
  if !fl.cr.lock && fl.cr.pg then { fl' with mem := Nor.programHalf re fl.mem a v, bsy := true }
  else fl'

/-- The 32-bit word at `a`. -/
def word (fl : Flash) (a : Word) : Word :=
  Word.ofBytes (fl.mem a) (fl.mem (a + 1#32)) (fl.mem (a + 2#32)) (fl.mem (a + 3#32))

/-- Locked and at rest: the state after reset and between completions. -/
structure Idle (fl : Flash) : Prop where
  cr : fl.cr = ⟨true, false, false, false⟩
  keyr : fl.keyr = .idle
  bsy : fl.bsy = false

/-- Unlocked and at rest. -/
structure Open (fl : Flash) : Prop where
  cr : fl.cr = ⟨false, false, false, false⟩
  keyr : fl.keyr = .idle
  bsy : fl.bsy = false

end Flash

end LnDso
