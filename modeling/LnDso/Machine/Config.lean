import LnDso.Lib.Mem

/-!
# Build configuration

The values of `flash_config.h`, the `ENABLE_*` flags and the chip facts the
bootloader is built for.
-/

namespace LnDso

open Lib

/-- One build of the bootloader. -/
structure Config where
  /-- `FLASH_SIZE_KB` -/
  flashSizeKb : Nat
  /-- `FLASH_BOOTLDR_SIZE_KB` -/
  bootldrSizeKb : Nat
  /-- `FLASH_BOOTLDR_PAYLOAD_SIZE_KB` -/
  payloadSizeKb : Nat
  /-- `ENABLE_SAFEWRITE` -/
  enableSafewrite : Bool
  /-- `ENABLE_DFU_UPLOAD` -/
  enableDfuUpload : Bool
  /-- `ENABLE_PROTECTIONS` -/
  enableProtections : Bool
  /-- `ENABLE_CHECKSUM` -/
  enableChecksum : Bool
  /-- `ENABLE_WATCHDOG`, with its period in seconds -/
  enableWatchdog : Option Nat
  /-- `VERSION` -/
  version : String
  /-- The chip's unique identifier at `0x1FFFF7E8`. -/
  uniqueId : Fin 9 → Byte
  /-- What the part leaves in a half-word that is programmed while not erased
  (old value, programmed value). -/
  reprogram : Half → Half → Half
  /-- The bootloader is smaller than the flash. -/
  bootldr_lt : bootldrSizeKb < flashSizeKb
  /-- `0x08000000 + FLASH_SIZE_KB*1024` is an `int`. -/
  fits : 0x08000000 + flashSizeKb * 1024 < 2 ^ 31
  /-- The payload area is part of the flash. -/
  payload_le : payloadSizeKb ≤ flashSizeKb
  /-- iProduct fits the 126 characters a string descriptor can count. -/
  version_le : version.length ≤ 107
  /-- The watchdog has a period of 1 to 26 seconds. -/
  watchdog_le : ∀ s, enableWatchdog = some s → s ≤ 26

namespace Config

/-- `0x08000000 + FLASH_BOOTLDR_SIZE_KB*1024` -/
def startAddr (cfg : Config) : Word := BitVec.ofNat 32 (0x08000000 + cfg.bootldrSizeKb * 1024)

/-- `0x08000000 + FLASH_SIZE_KB*1024` -/
def endAddr (cfg : Config) : Word := BitVec.ofNat 32 (0x08000000 + cfg.flashSizeKb * 1024)

variable (cfg : Config)

theorem startAddr_toNat : cfg.startAddr.toNat = 0x08000000 + cfg.bootldrSizeKb * 1024 := by
  have hfits := cfg.fits
  have hlt := cfg.bootldr_lt
  rw [startAddr, BitVec.toNat_ofNat]
  refine Nat.mod_eq_of_lt (Nat.not_le.mp ?_)
  omega

theorem endAddr_toNat : cfg.endAddr.toNat = 0x08000000 + cfg.flashSizeKb * 1024 := by
  have hfits := cfg.fits
  rw [endAddr, BitVec.toNat_ofNat]
  refine Nat.mod_eq_of_lt (Nat.not_le.mp ?_)
  omega

/-- What every address computation needs to know about the two bounds. -/
theorem addr_bounds : 0x08000000 ≤ cfg.startAddr.toNat ∧
    cfg.startAddr.toNat < cfg.endAddr.toNat ∧ cfg.endAddr.toNat < 2 ^ 31 ∧
    cfg.startAddr.toNat % 1024 = 0 ∧ cfg.endAddr.toNat % 1024 = 0 := by
  have hfits := cfg.fits
  have hlt := cfg.bootldr_lt
  rw [startAddr_toNat, endAddr_toNat]
  refine ⟨by omega, Nat.not_le.mp ?_, hfits, by omega, by omega⟩
  omega

/-- The addresses of the bootloader itself. -/
def Boot (a : Word) : Prop := 0x08000000 ≤ a.toNat ∧ a.toNat < cfg.startAddr.toNat

/-- The addresses of the application flash `[start_addr, end_addr)`. -/
def App (a : Word) : Prop := cfg.startAddr.toNat ≤ a.toNat ∧ a.toNat < cfg.endAddr.toNat

instance (a : Word) : Decidable (cfg.App a) := inferInstanceAs (Decidable (_ ∧ _))

/-- The STM32F103 build: 128 KB of flash, 8 of them the bootloader's, no
option but ENABLE_CHECKSUM. The part refuses to program what is not erased. -/
def stm32f103 : Config where
  flashSizeKb := 128
  bootldrSizeKb := 8
  payloadSizeKb := 120
  enableSafewrite := false
  enableDfuUpload := false
  enableProtections := false
  enableChecksum := true
  enableWatchdog := none
  version := "0.0"
  uniqueId := fun _ => 0
  reprogram := fun old _ => old
  bootldr_lt := by decide
  fits := by decide
  payload_le := by decide
  version_le := by decide
  watchdog_le := fun _ h => nomatch h

end Config

end LnDso
