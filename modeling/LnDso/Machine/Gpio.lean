import LnDso.Hw.Gpio

/-!
# Pins (`lnGPIO.cpp`)
-/

namespace LnDso

open Lib

/-- `lnPin`: sixteen pins of each of the ports A to E. -/
abbrev LnPin := Fin 80

namespace LnPin

/-- `xpin>>4` -/
def port (p : LnPin) : Nat := p.val / 16

/-- `xpin&0xf` -/
def bit (p : LnPin) : Nat := p.val % 16

theorem bit_lt (p : LnPin) : p.bit < 16 := Nat.mod_lt _ (by decide)

theorem eq_of_port_bit {p q : LnPin} (hport : p.port = q.port) (hbit : p.bit = q.bit) : p = q := by
  have hdiv : p.val / 16 = q.val / 16 := hport
  have hmod : p.val % 16 = q.val % 16 := hbit
  exact Fin.ext (by omega)

end LnPin

inductive GpioMode
  /-- `lnINPUT_FLOATING` too -/
  | lnFloating
  | lnInputPullup
  | lnInputPulldown
  | lnOutput
  | lnOutputOpenDrain
  | lnAlternatePP
  | lnAlternateOD
  | lnPWM
  | lnAdcMode
  | lnDacMode
deriving DecidableEq

/-- `LNGPIOSET` -/
def lnGpioSet (mod ctl : BitVec 4) : BitVec 4 := (ctl <<< 2) + mod

/-- `value` in `lnPinMode`; the other modes are asserted not to come. -/
def GpioMode.value : GpioMode → Option (BitVec 4)
  | .lnInputPullup => some (lnGpioSet 0 2)
  | .lnInputPulldown => some (lnGpioSet 0 2)
  | .lnOutput => some (lnGpioSet 3 0)
  | .lnOutputOpenDrain => some (lnGpioSet 3 1)
  | .lnAlternatePP => some (lnGpioSet 3 2)
  | .lnAlternateOD => some (lnGpioSet 3 3)
  | _ => none

/-- `lnPinMode`. Its `xAssert(0)` does not return. -/
def lnPinMode (xpin : LnPin) (mode : GpioMode) (β : Board) : Option Board :=
  let β := match mode with
    | .lnInputPullup => β.write xpin.port (·.writeBop ((1 : Word) <<< xpin.bit))
    | .lnInputPulldown => β.write xpin.port (·.writeBop ((1 : Word) <<< (16 + xpin.bit)))
    | _ => β
  mode.value.map fun value => β.write xpin.port (·.writeConfig xpin.bit value)

/-- `lnDigitalWrite` -/
def lnDigitalWrite (pin : LnPin) (value : Bool) (β : Board) : Board :=
  let radix : Word := if value then 1 else (1 : Word) <<< 16
  β.write pin.port (·.writeBop (radix <<< pin.bit))

/-- `lnReadPort(1)`, with the input port B has at each of its readings. -/
def lnReadPortB (istat : Nat → Word) (β : Board) : Word × Board :=
  (istat β.reads, { β with reads := β.reads + 1 })

/-- A call that writes a pin. -/
inductive PinCall
  | mode (pin : LnPin) (mode : GpioMode)
  | digitalWrite (pin : LnPin) (value : Bool)

namespace PinCall

def run (β : Board) : PinCall → Option Board
  | .mode pin m => lnPinMode pin m β
  | .digitalWrite pin value => some (lnDigitalWrite pin value β)

def runAll (β : Board) (calls : List PinCall) : Option Board := calls.foldlM run β

end PinCall

/-! ## The pins -/

namespace Board

variable {β : Board}

/-- The level of a pin. -/
def level (β : Board) (p : LnPin) : Bool := (β.port p.port).level p.bit

/-- The configuration of a pin. -/
def config (β : Board) (p : LnPin) : BitVec 4 := (β.port p.port).config p.bit

@[simp] theorem write_port (i : Nat) (f : GpioPort → GpioPort) :
    (β.write i f).port = Function.update β.port i (f (β.port i)) := by
  unfold write sampled
  split <;> rfl

@[simp] theorem write_reads (i : Nat) (f : GpioPort → GpioPort) : (β.write i f).reads = β.reads := by
  unfold write sampled
  split <;> rfl

end Board

end LnDso
