import LnDso.Lib.LastWrite
import LnDso.Machine.Gpio

/-!
# The pins after any calls

Sixteen pins share a register, and each call writes one pin. Over any sequence
of calls the registers hold what an array with an entry for each pin would hold.
-/

namespace LnDso

open Lib

variable {β τ : Board} {calls : List PinCall} {c : PinCall} {p q : LnPin}

namespace PinCall

/-- The configuration that a call gives to a pin. -/
def configWrite : PinCall → Write LnPin (BitVec 4)
  | .mode p m => fun q => if q = p then m.value else none
  | .digitalWrite _ _ => fun _ => none

/-- The level that a call gives to a pin: a pull resistor is chosen by it. -/
def levelWrite : PinCall → Write LnPin Bool
  | .mode p .lnInputPullup => Write.one p true
  | .mode p .lnInputPulldown => Write.one p false
  | .mode _ _ => fun _ => none
  | .digitalWrite p v => Write.one p v

end PinCall

/-! ## One call -/

theorem pin_eq_iff (p q : LnPin) : q.port = p.port ∧ q.bit = p.bit ↔ q = p := by
  constructor
  · rintro ⟨hport, hbit⟩
    exact LnPin.eq_of_port_bit hport hbit
  · rintro rfl
    exact ⟨rfl, rfl⟩

section

variable {A : Type} {get : GpioPort → Nat → A} {f : GpioPort → GpioPort} {v : A}

/-- A write that changes what one pin of its port has. -/
theorem write_one
    (hf : ∀ (g : GpioPort) (k : Nat), k < 16 → get (f g) k = if k = p.bit then v else get g k) :
    (fun q : LnPin => get ((β.write p.port f).port q.port) q.bit) =
      Write.apply (fun q : LnPin => get (β.port q.port) q.bit) (Write.one p v) := by
  funext q
  rw [Board.write_port, Write.apply_one, Function.update_apply]
  by_cases hport : q.port = p.port
  · rw [if_pos hport, hf _ _ q.bit_lt]
    by_cases hbit : q.bit = p.bit
    · rw [if_pos hbit, if_pos ((pin_eq_iff p q).mp ⟨hport, hbit⟩)]
    · rw [if_neg hbit, if_neg fun h => hbit ((pin_eq_iff p q).mpr h).2, hport]
  · rw [if_neg hport, if_neg fun h => hport ((pin_eq_iff p q).mpr h).1]

/-- A write that changes none of it. -/
theorem write_none (i : Nat) (hf : ∀ (g : GpioPort) (k : Nat), get (f g) k = get g k) :
    (fun q : LnPin => get ((β.write i f).port q.port) q.bit) =
      fun q : LnPin => get (β.port q.port) q.bit := by
  funext q
  rw [Board.write_port, Function.update_apply]
  split
  · next hport => rw [hf, hport]
  · rfl

end

theorem writeBop_config_same (i : Nat) (w : Word) (β : Board) :
    (β.write i (·.writeBop w)).config = β.config :=
  write_none i fun _ _ => GpioPort.writeBop_config w

theorem writeBc_config_same (i : Nat) (w : Word) (β : Board) :
    (β.write i (·.writeBc w)).config = β.config :=
  write_none i fun _ _ => GpioPort.writeBc_config w

theorem writeConfig_level_same (p : LnPin) (v : BitVec 4) (β : Board) :
    (β.write p.port (·.writeConfig p.bit v)).level = β.level :=
  write_none p.port fun _ _ => GpioPort.writeConfig_level v

theorem writeConfig_one (p : LnPin) (v : BitVec 4) (β : Board) :
    (β.write p.port (·.writeConfig p.bit v)).config = Write.apply β.config (Write.one p v) :=
  write_one fun _ _ hk => GpioPort.writeConfig_config p.bit_lt hk v

theorem writeBop_set_one (p : LnPin) (β : Board) :
    (β.write p.port (·.writeBop ((1 : Word) <<< p.bit))).level =
      Write.apply β.level (Write.one p true) :=
  write_one fun _ _ hk => GpioPort.writeBop_set p.bit_lt hk

theorem writeBop_clear_one (p : LnPin) (β : Board) :
    (β.write p.port (·.writeBop ((1 : Word) <<< (16 + p.bit)))).level =
      Write.apply β.level (Write.one p false) :=
  write_one fun _ _ hk => GpioPort.writeBop_clear p.bit_lt hk

theorem writeBc_one (p : LnPin) (β : Board) :
    (β.write p.port (·.writeBc ((1 : Word) <<< p.bit))).level =
      Write.apply β.level (Write.one p false) :=
  write_one fun _ _ hk => GpioPort.writeBc_clear hk

theorem lnDigitalWrite_level (p : LnPin) (v : Bool) (β : Board) :
    (lnDigitalWrite p v β).level = Write.apply β.level (Write.one p v) := by
  cases v with
  | true => exact writeBop_set_one p β
  | false =>
      have hshift : ((1 : Word) <<< 16) <<< p.bit = (1 : Word) <<< (16 + p.bit) :=
        (BitVec.shiftLeft_add _ _ _).symm
      show (β.write p.port (·.writeBop (((1 : Word) <<< 16) <<< p.bit))).level = _
      rw [hshift]
      exact writeBop_clear_one p β

theorem lnDigitalWrite_config (p : LnPin) (v : Bool) (β : Board) :
    (lnDigitalWrite p v β).config = β.config := writeBop_config_same _ _ _

theorem lnPinMode_pins {m : GpioMode} (h : lnPinMode p m β = some τ) :
    τ.config = Write.apply β.config (PinCall.mode p m).configWrite ∧
      τ.level = Write.apply β.level (PinCall.mode p m).levelWrite := by
  cases m with
  | lnInputPullup =>
      obtain rfl := Option.some.inj h
      dsimp only
      rw [writeConfig_one, writeConfig_level_same, writeBop_config_same, writeBop_set_one]
      exact ⟨rfl, rfl⟩
  | lnInputPulldown =>
      obtain rfl := Option.some.inj h
      dsimp only
      rw [writeConfig_one, writeConfig_level_same, writeBop_config_same, writeBop_clear_one]
      exact ⟨rfl, rfl⟩
  | lnOutput | lnOutputOpenDrain | lnAlternatePP | lnAlternateOD =>
      obtain rfl := Option.some.inj h
      dsimp only
      rw [writeConfig_one, writeConfig_level_same]
      exact ⟨rfl, rfl⟩
  | _ => cases h

/-- A call writes its pin and no other. -/
theorem PinCall.run_pins (h : c.run β = some τ) :
    τ.config = Write.apply β.config c.configWrite ∧ τ.level = Write.apply β.level c.levelWrite := by
  cases c with
  | mode p m => exact lnPinMode_pins h
  | digitalWrite p v =>
      obtain rfl := Option.some.inj h
      exact ⟨lnDigitalWrite_config p v β, lnDigitalWrite_level p v β⟩

/-- The modes that `lnPinMode` knows. -/
def PinCall.Supported : PinCall → Prop
  | .mode _ m => m.value.isSome = true
  | .digitalWrite _ _ => True

theorem PinCall.run_isSome (c : PinCall) (β : Board) : (c.run β).isSome = true ↔ c.Supported := by
  cases c with
  | mode p m => cases m <;> simp [run, lnPinMode, Supported, GpioMode.value]
  | digitalWrite p v => simp [run, Supported]

/-! ## Any calls -/

theorem PinCall.runAll_cons (c : PinCall) (calls : List PinCall) (β : Board) :
    runAll β (c :: calls) = (c.run β).bind fun γ => runAll γ calls := rfl

theorem PinCall.runAll_applied (h : runAll β calls = some τ) :
    τ.config = Write.applyAll β.config (calls.map configWrite) ∧
      τ.level = Write.applyAll β.level (calls.map levelWrite) := by
  induction calls generalizing β with
  | nil =>
      obtain rfl := Option.some.inj h
      exact ⟨rfl, rfl⟩
  | cons c calls ih =>
      obtain ⟨γ, hc, hrest⟩ := Option.bind_eq_some_iff.mp h
      obtain ⟨hconfig, hlevel⟩ := c.run_pins hc
      rw [List.map_cons, List.map_cons, Write.applyAll_cons, Write.applyAll_cons, ← hconfig, ← hlevel]
      exact ih hrest

theorem PinCall.runAll_isSome (β : Board) (calls : List PinCall) :
    (runAll β calls).isSome = true ↔ ∀ c ∈ calls, c.Supported := by
  induction calls generalizing β with
  | nil => simp [runAll]
  | cons c calls ih =>
      have hsome := c.run_isSome β
      rw [runAll_cons, List.forall_mem_cons]
      cases hc : c.run β with
      | none =>
          rw [hc] at hsome
          refine iff_of_false (by simp) fun h => ?_
          exact absurd (hsome.mpr h.1) (by simp)
      | some γ =>
          rw [hc] at hsome
          exact (ih γ).trans (and_iff_right (hsome.mp rfl)).symm

/-- **The last call wins.** Any sequence of calls with known modes goes through,
and then each pin has the configuration and the level that the last call to set
it gave it, and the others theirs from before. -/
theorem pins_last_call (β : Board) (calls : List PinCall) :
    ((PinCall.runAll β calls).isSome = true ↔ ∀ c ∈ calls, c.Supported) ∧
      ∀ τ, PinCall.runAll β calls = some τ →
        τ.config = Write.applyAll β.config (calls.map PinCall.configWrite) ∧
          τ.level = Write.applyAll β.level (calls.map PinCall.levelWrite) :=
  ⟨PinCall.runAll_isSome β calls, fun _ h => PinCall.runAll_applied h⟩

/-- Ports after a reset. -/
def resetBoard : Board where
  port _ := ⟨0x44444444, 0x44444444, 0⟩
  latched := []
  reads := 0

/-- The key of `main`: PB7 with its pull-up, then driven low. -/
theorem pins_last_call_key :
    ∃ τ, PinCall.runAll resetBoard [.mode 23 .lnInputPullup, .mode 23 .lnOutput,
      .digitalWrite 23 false] = some τ ∧ τ.config 23 = 3 ∧ τ.level 23 = false := by
  obtain ⟨hok, hpins⟩ := pins_last_call resetBoard [.mode 23 .lnInputPullup, .mode 23 .lnOutput,
    .digitalWrite 23 false]
  obtain ⟨τ, hτ⟩ := Option.isSome_iff_exists.mp
    (hok.mpr (by simp [PinCall.Supported, GpioMode.value]))
  obtain ⟨hconfig, hlevel⟩ := hpins τ hτ
  refine ⟨τ, hτ, ?_⟩
  rw [hconfig, hlevel]
  exact ⟨rfl, rfl⟩

end LnDso
