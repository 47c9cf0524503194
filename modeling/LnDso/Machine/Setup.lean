import LnDso.Hw.Rcc
import LnDso.Lib.Outline
import LnDso.Machine.Delay
import LnDso.Machine.Gpio

/-!
# Before the loop (`dfu.cpp`, `lnRCU.cpp`)

`setupForUsb` statement by statement: the system clock, the clocks of the ports, the
tick, and D+ pulled low for the host to see the device go. Between the statements the
oscillators start and the timer interrupts.
-/

namespace LnDso

open Lib

inductive Peripherals
  | pNONE
  | pGPIOA
  | pGPIOB
  | pGPIOC
  | pAF
  | pAPB1
  | pAPB2
  | pSYSCLOCK
deriving DecidableEq

/-- `bit` in `lnPeripherals::enable`; the others are asserted not to come. -/
def Peripherals.bit : Peripherals → Option Word
  | .pAF => some (1 <<< 0)
  | .pGPIOA => some (1 <<< 2)
  | .pGPIOB => some (1 <<< 3)
  | .pGPIOC => some (1 <<< 4)
  | _ => none

/-- `lnPeripherals::enable`. Its `xAssert(0)` does not return. -/
def lnPeripheralsEnable (periph : Peripherals) (r : Rcc) : Option Rcc :=
  periph.bit.map fun bit => { r with apb2en := r.apb2en ||| bit }

/-! ## Statements -/

/-- A statement of `setupForUsb` or of what it calls. -/
inductive SetupStmt
  /-- `RCC_CR |= v` -/
  | crOr (v : Word)
  /-- `while (!(RCC_CR & v));` -/
  | crWait (v : Word)
  /-- `RCC_CFGR = (RCC_CFGR & keep) | v` -/
  | cfgr (keep v : Word)
  /-- `FLASH_ACR = (FLASH_ACR & keep) | v` -/
  | acr (keep v : Word)
  | enable (periph : Peripherals)
  /-- `portNVIC_SYSTICK_CTRL_REG = v` -/
  | sysTickCtrl (v : Word)
  /-- `portNVIC_SYSTICK_CURRENT_VALUE_REG = v` -/
  | sysTickCurrent (v : Word)
  /-- `portNVIC_SYSTICK_LOAD_REG = v` -/
  | sysTickLoad (v : Word)
  /-- `*USB_CNTR_REG = v` -/
  | usbCntr (v : Word)
  | pinMode (xpin : LnPin) (mode : GpioMode)
  | digitalWrite (pin : LnPin) (value : Bool)
  /-- `xDelay(ms)` on entering its loop. -/
  | delay (ms : Int)
  /-- The loop of `xDelay`. -/
  | delayLoop

/-- The prescalers and the set-up of the PLL in `clock_setup_in_hse_8mhz_out_72mhz`. -/
def clockPrescalers : Word :=
  (0x0 <<< 4) ||| (0x4 <<< 8) ||| (0x0 <<< 11) ||| (0x3 <<< 14) ||| (0x7 <<< 18) ||| (0x1 <<< 16) |||
    (0x0 <<< 17)

/-- `clock_setup_in_hse_8mhz_out_72mhz` -/
def clockSetup : List SetupStmt := [
  -- Enable external high-speed oscillator 8MHz.
  .crOr rccCrHseon,
  .crWait rccCrHserdy,
  .cfgr 0xFFC0000F clockPrescalers,
  -- 2WS from 48-72MHz
  .acr (~~~7) 2,
  -- Enable PLL oscillator and wait for it to stabilize.
  .crOr rccCrPllon,
  .crWait rccCrPllrdy,
  -- Select PLL as SYSCLK source.
  .cfgr (~~~3) 2]

/-- `configSYSTICK_CLOCK_HZ` and `configTICK_RATE_HZ` -/
def configSysTickClockHz : Nat := 72 * 1000 * 1000
def configTickRateHz : Nat := 1000

/-- `PA12`, the line D+. -/
def pa12 : LnPin := ⟨12, by decide⟩

/-- `setupForUsb` -/
def setupForUsb : List SetupStmt := clockSetup ++ [
  .enable .pGPIOA,
  .enable .pGPIOB,
  .enable .pGPIOC,
  .enable .pAF,
  -- start tick interrupt
  .sysTickCtrl 0,
  .sysTickCurrent 0,
  .sysTickLoad (BitVec.ofNat 32 (configSysTickClockHz / configTickRateHz) - 1),
  .sysTickCtrl 7,
  -- Disable USB peripheral as it overrides GPIO settings
  .usbCntr 2,
  -- Vile hack to reenumerate, physically _drag_ d+ low.
  .pinMode pa12 .lnOutput,
  .digitalWrite pa12 false,
  .delay 100,
  .delayLoop,
  .digitalWrite pa12 true]

/-! ## States -/

structure Setup where
  rcc : Rcc
  sysTickCtrl : Word
  /-- The count of the timer as software last wrote it. -/
  sysTickCurrent : Word
  sysTickLoad : Word
  usbCntr : Word
  board : Board
  delay : XDelay
  /-- How often the timer interrupted. -/
  ticks : Nat
  /-- How often it did while D+ was driven low. -/
  low : Nat

/-- What happens between the statements. -/
inductive SetupEvent
  | hseStarts
  | pllLocks
  | switches
  | tick

namespace Setup

/-- D+ is driven to the level `v`. -/
def Drives (v : Bool) (s : Setup) : Prop :=
  s.board.config pa12 = Board.outputConfig ∧ s.board.level pa12 = v

instance (v : Bool) (s : Setup) : Decidable (s.Drives v) := inferInstanceAs (Decidable (_ ∧ _))

/-- A call on a pin. The registers of a port without clock take no writes. -/
def callPin (c : PinCall) (pin : LnPin) (s : Setup) : Option Setup :=
  (c.run s.board).map fun β => if s.rcc.Clocked pin.port then { s with board := β } else s

/-- An interrupt of the timer: `tick`. -/
def ticked (s : Setup) : Setup :=
  { s with
    delay := s.delay.tick
    ticks := s.ticks + 1
    low := s.low + if s.Drives false then 1 else 0 }

def exec : SetupStmt → Setup → Option Setup
  | .crOr v, s => some { s with rcc := s.rcc.writeCr (s.rcc.cr ||| v) }
  | .crWait v, s => if s.rcc.cr &&& v ≠ 0 then some s else none
  | .cfgr keep v, s => some { s with rcc := s.rcc.writeCfgr (Register.assign keep v s.rcc.cfgr) }
  | .acr keep v, s => some { s with rcc := s.rcc.writeAcr (Register.assign keep v s.rcc.acr) }
  | .enable periph, s => (lnPeripheralsEnable periph s.rcc).map fun r => { s with rcc := r }
  | .sysTickCtrl v, s => some { s with sysTickCtrl := v }
  | .sysTickCurrent v, s => some { s with sysTickCurrent := v }
  | .sysTickLoad v, s => some { s with sysTickLoad := v }
  | .usbCntr v, s => some { s with usbCntr := v }
  | .pinMode xpin mode, s => s.callPin (.mode xpin mode) xpin
  | .digitalWrite pin value, s => s.callPin (.digitalWrite pin value) pin
  | .delay ms, s => some { s with delay := .enter s.delay.sysTick ms }
  | .delayLoop, s => if s.delay.body.returned then some { s with delay := s.delay.body } else none

/-- The interrupt comes if the timer counts and may interrupt. -/
def event : SetupEvent → Setup → Setup
  | .hseStarts, s => { s with rcc := s.rcc.hseStarts }
  | .pllLocks, s => { s with rcc := s.rcc.pllLocks }
  | .switches, s => { s with rcc := s.rcc.switches }
  | .tick, s => if s.sysTickCtrl &&& 3 = 3 then s.ticked else s

end Setup

/-- `setupForUsb` among the events. -/
def setupCore : Core Setup SetupStmt SetupEvent := ⟨Setup.exec, Setup.event⟩

end LnDso
