import LnDso.Lib.Mem
import LnDso.Lib.Register

/-!
# The clocks

The registers of the clock controller and the wait states of the flash: CR turns the
oscillators on and tells when they run, CFGR selects the system clock and divides it,
APB2ENR clocks the ports. Frequencies are in kHz. A statement that reads a register,
changes it and writes it back is one step, since only the hardware writes the bits
that change by themselves.
-/

namespace LnDso

open Lib

structure Rcc where
  cr : Word
  cfgr : Word
  apb2en : Word
  /-- `FLASH_ACR` -/
  acr : Word

def rccCrHseon : Word := 1 <<< 16
def rccCrHserdy : Word := 1 <<< 17
def rccCrPllon : Word := 1 <<< 24
def rccCrPllrdy : Word := 1 <<< 25

/-- The flags of CR: HSIRDY, HSERDY and PLLRDY. -/
def rccCrFlags : Word := 0x02020002

/-- The field of CFGR that tells the clock in use. -/
def rccCfgrSws : Word := 0xC

/-- The fields of CFGR that set up the PLL. -/
def rccCfgrPll : Word := 0x3F0000

/-- FLASH_ACR's flag of the prefetch buffer. -/
def flashAcrPrftbs : Word := 0x20

namespace Rcc

variable {r : Rcc}

/-! ## Fields -/

/-- The clock that is selected: 0 the internal oscillator, 1 the crystal, 2 the PLL. -/
def sw (r : Rcc) : BitVec 2 := r.cfgr.extractLsb' 0 2

/-- The clock in use. -/
def sws (r : Rcc) : BitVec 2 := r.cfgr.extractLsb' 2 2

def latency (r : Rcc) : BitVec 3 := r.acr.extractLsb' 0 3

/-- The crystal and the internal oscillator. -/
def hse : Nat := 8000
def hsi : Nat := 8000

/-- The clock of the PLL. -/
def pllclk (r : Rcc) : Nat :=
  (if r.cfgr.getLsbD 16 then (if r.cfgr.getLsbD 17 then hse / 2 else hse) else hsi / 2) *
    min 16 ((r.cfgr.extractLsb' 18 4).toNat + 2)

/-- The system clock from the source `s`. -/
def sysclk (r : Rcc) (s : BitVec 2) : Nat :=
  if s = 0 then hsi else if s = 1 then hse else if s = 2 then r.pllclk else 0

/-- The divisor of HPRE. -/
def hpre (r : Rcc) : Nat :=
  let v := (r.cfgr.extractLsb' 4 4).toNat
  if v < 8 then 1 else if v < 12 then 2 ^ (v - 7) else 2 ^ (v - 6)

/-- The divisor of PPRE1 or PPRE2. -/
def ppre (v : BitVec 3) : Nat := if v.toNat < 4 then 1 else 2 ^ (v.toNat - 3)

def hclk (r : Rcc) (s : BitVec 2) : Nat := r.sysclk s / r.hpre
def pclk1 (r : Rcc) (s : BitVec 2) : Nat := r.hclk s / ppre (r.cfgr.extractLsb' 8 3)
def pclk2 (r : Rcc) (s : BitVec 2) : Nat := r.hclk s / ppre (r.cfgr.extractLsb' 11 3)

def adcclk (r : Rcc) (s : BitVec 2) : Nat :=
  r.pclk2 s / (2 * ((r.cfgr.extractLsb' 14 2).toNat + 1))

/-- USBPRE: the clock of the USB is that of the PLL, not two thirds of it. -/
def usbpre (r : Rcc) : Bool := r.cfgr.getLsbD 22

def usbclk (r : Rcc) : Nat := if r.usbpre then r.pllclk else r.pllclk * 2 / 3

/-- The source `s` runs. -/
def Runs (r : Rcc) (s : BitVec 2) : Prop :=
  s = 0 ∨ (s = 1 ∧ r.cr &&& rccCrHserdy ≠ 0) ∨ (s = 2 ∧ r.cr &&& rccCrPllrdy ≠ 0)

instance (r : Rcc) (s : BitVec 2) : Decidable (r.Runs s) := inferInstanceAs (Decidable (_ ∨ _))

/-- The port with the number `i` is clocked. -/
def Clocked (r : Rcc) (i : Nat) : Prop := r.apb2en.getLsbD (2 + i) = true

instance (r : Rcc) (i : Nat) : Decidable (r.Clocked i) := inferInstanceAs (Decidable (_ = _))

/-! ## Writes -/

def writeCr (v : Word) (r : Rcc) : Rcc := { r with cr := Register.write rccCrFlags r.cr v }

/-- The fields of the PLL are kept while it is on. -/
def writeCfgr (v : Word) (r : Rcc) : Rcc :=
  let kept := if r.cr &&& rccCrPllon = 0 then rccCfgrSws else rccCfgrSws ||| rccCfgrPll
  { r with cfgr := Register.write kept r.cfgr v }

def writeAcr (v : Word) (r : Rcc) : Rcc := { r with acr := Register.write flashAcrPrftbs r.acr v }

/-! ## The hardware -/

/-- The crystal starts if it is on. -/
def hseStarts (r : Rcc) : Rcc :=
  if r.cr &&& rccCrHseon ≠ 0 then { r with cr := r.cr ||| rccCrHserdy } else r

theorem hseStarts_cfgr (r : Rcc) : r.hseStarts.cfgr = r.cfgr := by
  unfold hseStarts
  split <;> rfl

/-- PLLSRC -/
def pllSource (r : Rcc) : BitVec 2 := if r.cfgr.getLsbD 16 then 1 else 0

/-- The PLL locks if it is on and its source runs. -/
def pllLocks (r : Rcc) : Rcc :=
  if r.cr &&& rccCrPllon ≠ 0 ∧ r.Runs r.pllSource then { r with cr := r.cr ||| rccCrPllrdy } else r

theorem pllLocks_cfgr (r : Rcc) : r.pllLocks.cfgr = r.cfgr := by
  unfold pllLocks
  split <;> rfl

/-- The system clock follows the selection once its source runs. -/
def switches (r : Rcc) : Rcc :=
  if r.Runs r.sw then
    { r with cfgr := Register.assign (~~~rccCfgrSws) ((r.cfgr &&& 3) <<< 2) r.cfgr }
  else r

/-! ## Limits -/

/-- The clocks are within what the part allows: the source runs, the flash has a
wait state for every 24 MHz, APB1 has at most 36 MHz and the ADC at most 14. -/
structure Safe (r : Rcc) : Prop where
  runs : r.Runs r.sws
  flash : r.hclk r.sws ≤ 24000 * (r.latency.toNat + 1)
  hclk : r.hclk r.sws ≤ 72000
  pclk1 : r.pclk1 r.sws ≤ 36000
  adcclk : r.adcclk r.sws ≤ 14000

end Rcc

end LnDso
