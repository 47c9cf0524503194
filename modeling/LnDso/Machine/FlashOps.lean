import LnDso.Hw.Flash
import LnDso.Machine.Config

/-!
# Flashing routines (`flash.h`)
-/

namespace LnDso

open Lib

/-- `_flash_unlock(0)` -/
def flashUnlock (fl : Flash) : Flash :=
  let fl := fl.writeCr { fl.cr with lock := true }
  let fl := fl.writeKeyr 0x45670123
  fl.writeKeyr 0xcdef89ab

def flashLock (fl : Flash) : Flash := fl.writeCr { fl.cr with lock := true }

/-- The wait loop ends when BSY has cleared. -/
def flashWaitForLastOperation (fl : Flash) : Flash := { fl with bsy := false }

def flashErasePage (pageAddress : Word) (fl : Flash) : Flash :=
  let fl := flashWaitForLastOperation fl
  let fl := fl.writeCr { fl.cr with per := true }
  let fl := fl.writeAr pageAddress
  let fl := fl.writeCr { fl.cr with strt := true }
  let fl := flashWaitForLastOperation fl
  fl.writeCr { fl.cr with per := false }

/-- The scan of `_flash_page_is_erased`, `n` words to go from word `i`. -/
def flashPageIsErasedLoop (addr : Word) : (n i : Nat) → Flash → Bool × Flash
  | 0, _, fl => (true, fl)
  | n + 1, i, fl =>
      let a := addr + BitVec.ofNat 32 (4 * i)
      let fl' := fl.record (.scan a)
      if fl.word a ≠ 0xffffffff then (false, fl')
      else flashPageIsErasedLoop addr n (i + 1) fl'

def flashPageIsErased (addr : Word) (fl : Flash) : Bool × Flash :=
  flashPageIsErasedLoop addr (1024 / 4) 0 fl

/-- The store loop of `_flash_program_buffer`, `n` half-words to go from `i`. -/
def flashProgramBufferLoop (re : Half → Half → Half) (address : Word) (data : Mem) :
    (n i : Nat) → Flash → Flash
  | 0, _, fl => fl
  | n + 1, i, fl =>
      let v := Half.ofBytes (data (2 * i)) (data (2 * i + 1))
      let fl := fl.storeHalf re (address + BitVec.ofNat 32 (2 * i)) v
      flashProgramBufferLoop re address data n (i + 1) (flashWaitForLastOperation fl)

def flashProgramBuffer (re : Half → Half → Half) (address : Word) (data : Mem) (len : Nat)
    (fl : Flash) : Flash :=
  let fl := flashWaitForLastOperation fl
  let fl := fl.writeCr { fl.cr with pg := true }
  let fl := flashProgramBufferLoop re address data (len / 2) 0 fl
  fl.writeCr { fl.cr with pg := false }

/-- Erase a page unless the blank scan passes. -/
def flashEraseIfNeeded (addr : Word) (fl : Flash) : Flash :=
  let (erased, fl) := flashPageIsErased addr fl
  if erased then fl else flashErasePage addr fl

/-- The page loop of `check_do_erase`, at most `n` pages to go. -/
def checkDoEraseLoop (endAddr : Word) : (n : Nat) → Word → Flash → Flash
  | 0, _, fl => fl
  | n + 1, addr, fl =>
      if addr < endAddr then checkDoEraseLoop endAddr n (addr + 1024) (flashEraseIfNeeded addr fl)
      else fl

/-- `check_do_erase`, with its static flag `erased`. -/
def checkDoErase (cfg : Config) (erased : Bool) (fl : Flash) : Bool × Flash :=
  if erased then (erased, fl)
  else (true, checkDoEraseLoop cfg.endAddr cfg.flashSizeKb cfg.startAddr fl)

end LnDso
