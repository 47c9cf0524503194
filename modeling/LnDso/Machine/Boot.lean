import LnDso.Lib.Nor
import LnDso.Machine.Config

/-!
# Starting up (`main.cpp`, `reboot.cpp`)

`main` decides between the application and DFU mode from the reset marker, a
key and the words at the start of the application flash. The hash is a parameter:
a function of the bytes, their number and the seed.
-/

namespace LnDso

open Lib

/-- `XXH32` -/
abbrev Xxh32 : Type := List Byte → (len seed : Word) → Word

/-- What `main` finds after a reset. -/
structure AtReset where
  /-- `*marker`, at the beginning of the RAM. -/
  marker : BitVec 64
  /-- `FORCE_DFU_IO`, with its pull-up: low while the key is pressed. -/
  forceDfuIo : Bool
  /-- All addresses have a cell here. On the part a read past the end of the flash
  faults: the hash is that of the part where the image fits its flash. -/
  flash : Nor.Cells 32

/-- What `main` does before it hands over. -/
structure Startup where
  marker : BitVec 64
  goDfu : Word
  /-- The calls of `XXH32`: where, and how many bytes. -/
  hashed : List (Word × Word)

/-- Where `main` goes. -/
inductive Handover
  /-- The application, with VTOR and the main stack pointer set. -/
  | app (vtor msp entry : Word)
  /-- `runDfu` -/
  | dfu
deriving DecidableEq

/-- `APP_ADDRESS` -/
def Config.appAddress (cfg : Config) : Word :=
  0x8000000 + BitVec.ofNat 32 (cfg.bootldrSizeKb * 1024)

/-- `rebooted_into_dfu` -/
def rebootedIntoDfu (marker : BitVec 64) : Bool := marker == 0xdeadbeefcc00ffee

namespace AtReset

variable (cfg : Config) (xxh32 : Xxh32) (σ : AtReset)

/-- The 32-bit word at `a`. -/
def word (a : Word) : Word :=
  Word.ofBytes (σ.flash a) (σ.flash (a + 1#32)) (σ.flash (a + 2#32)) (σ.flash (a + 3#32))

/-- `len` bytes from `a` on. -/
def bytes (a len : Word) : List Byte :=
  (List.range len.toNat).map fun i => σ.flash (a + BitVec.ofNat 32 i)

/-- `base_addr[0]` -/
def sig : Word := σ.word cfg.startAddr

/-- `base_addr[2]` -/
def imageSize : Word := σ.word (cfg.startAddr + 8)

/-- `base_addr[3]` -/
def checksum : Word := σ.word (cfg.startAddr + 12)

/-- `go_dfu` before the application is checked. -/
def forced : Word :=
  let goDfu : Word := if rebootedIntoDfu σ.marker then 1 else 0
  let goDfu := if !σ.forceDfuIo then goDfu ||| 1 else goDfu
  if goDfu = 0 ∧ σ.sig cfg >>> 20 ≠ 0x200 then goDfu ||| 2 else goDfu

/-- `main` up to `clear_reboot_flags`. -/
def startup : Startup :=
  let goDfu := σ.forced cfg
  let (hashed, goDfu) :=
    if goDfu = 0 then
      if σ.imageSize cfg < 256 * 1024 then
        if σ.imageSize cfg ≠ 0x1234 ∨ σ.checksum cfg ≠ 0x5678 then
          let computed := xxh32 (σ.bytes (cfg.startAddr + 16) (σ.imageSize cfg))
            (σ.imageSize cfg) 0x100
          ([(cfg.startAddr + 16, σ.imageSize cfg)],
            if computed ≠ σ.checksum cfg then goDfu ||| 4 else goDfu)
        else ([], goDfu)
      else ([], 1)
    else ([], goDfu)
  { marker := 0, goDfu := goDfu, hashed := hashed }

/-- `main` -/
def main : Handover :=
  if (σ.startup cfg xxh32).goDfu = 0 then
    .app (cfg.appAddress &&& 0xffff) (σ.word cfg.appAddress) (σ.word (cfg.appAddress + 4))
  else .dfu

end AtReset

end LnDso
