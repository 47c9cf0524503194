import Mathlib.Order.Fin.Basic
import LnDso.Machine.Screen
import LnDso.Theorems.Pins

/-!
# The pins as a bus

While all lines of the display are driven, CS is low and WR is high, the macros
of the driver work as a bus: each `ILI_WRITE_8BIT` makes the display take one
byte, with DC as it was last set.
-/

namespace LnDso

open Lib

variable {β τ : Board} {dat : Bool} {l : List (Option (Bool × Byte))}

/-! ## What the display takes -/

/-- `PC13`, `PC14` and `PC15` -/
def csPin : LnPin := ⟨45, by decide⟩

def dcPin : LnPin := ⟨46, by decide⟩

def wrPin : LnPin := ⟨47, by decide⟩

/-- The display takes nothing unless WR rises while CS is low. -/
theorem write_latched_quiet {i : Nat} {f : GpioPort → GpioPort}
    (h : (β.write i f).level wrPin = true →
      β.level wrPin = true ∨ (β.write i f).level csPin = true) :
    (β.write i f).latched = β.latched := by
  unfold Board.level at h
  rw [Board.write_port] at h
  unfold Board.write Board.sampled
  split
  · next hrise =>
    obtain ⟨hlow, hhigh, hcs⟩ := hrise
    rcases h hhigh with hwr | hcs'
    · exact absurd (hlow.symm.trans hwr) (by simp)
    · exact absurd (hcs.symm.trans hcs') (by simp)
  · rfl

/-- A write to another port than C. -/
theorem write_elsewhere {i : Nat} (hi : i ≠ 2) (f : GpioPort → GpioPort) (β : Board) :
    (∀ p : LnPin, p.port ≠ i → (β.write i f).level p = β.level p) ∧
      (β.write i f).latched = β.latched := by
  have hlevel : ∀ p : LnPin, p.port ≠ i → (β.write i f).level p = β.level p := by
    intro p hp
    rw [Board.level, Board.write_port, Function.update_of_ne hp]
    rfl
  refine ⟨hlevel, write_latched_quiet fun hwr => .inl ?_⟩
  rw [← hlevel wrPin (Ne.symm hi)]
  exact hwr

/-- It takes what is on its lines when WR rises. -/
theorem write_latched_rise {f : GpioPort → GpioPort} (hlow : β.level wrPin = false)
    (hhigh : (β.write 2 f).level wrPin = true) (hcs : (β.write 2 f).level csPin = false) :
    (β.write 2 f).latched = β.latched ++ [(β.write 2 f).lines] := by
  have hrise : (β.port 2).level 15 = false ∧
      (Function.update β.port 2 (f (β.port 2)) 2).level 15 = true ∧
      (Function.update β.port 2 (f (β.port 2)) 2).level 13 = false := by
    refine ⟨hlow, ?_, ?_⟩
    · rw [← hhigh, ← Board.write_port]
      rfl
    · rw [← hcs, ← Board.write_port]
      rfl
  unfold Board.write Board.sampled
  rw [if_pos hrise]
  rfl

/-! ## The macros -/

/-- The pins of the display. -/
def LnPin.OnDisplay (p : LnPin) : Prop := 16 ≤ p.val ∧ p.val < 24 ∨ p = csPin ∨ p = dcPin ∨ p = wrPin

theorem driven_iff (β : Board) :
    β.Driven ↔ ∀ p : LnPin, p.OnDisplay → β.config p = Board.outputConfig := by
  constructor
  · rintro ⟨hdata, hlines⟩ p hp
    rcases hp with ⟨hlo, hhi⟩ | rfl | rfl | rfl
    · have hport : p.port = 1 := by
        unfold LnPin.port
        omega
      rw [Board.config, hport]
      refine hdata _ ?_
      unfold LnPin.bit
      omega
    · exact hlines 13 (by decide) (by decide)
    · exact hlines 14 (by decide) (by decide)
    · exact hlines 15 (by decide) (by decide)
  · intro h
    refine ⟨fun n hn => ?_, fun n hlo hhi => ?_⟩
    · have hpin := h ⟨16 + n, by omega⟩ (.inl ⟨by simp, by simp; omega⟩)
      have hport : LnPin.port ⟨16 + n, by omega⟩ = 1 := by
        unfold LnPin.port
        simp only
        omega
      have hbit : LnPin.bit ⟨16 + n, by omega⟩ = n := by
        unfold LnPin.bit
        simp only
        omega
      rw [Board.config, hport, hbit] at hpin
      exact hpin
    · obtain rfl | rfl | rfl : n = 13 ∨ n = 14 ∨ n = 15 := by omega
      · exact h csPin (.inr (.inl rfl))
      · exact h dcPin (.inr (.inr (.inl rfl)))
      · exact h wrPin (.inr (.inr (.inr rfl)))

theorem Board.Driven.of_config (h : β.Driven) (hsame : τ.config = β.config) : τ.Driven :=
  (driven_iff τ).mpr fun p hp => hsame ▸ (driven_iff β).mp h p hp

/-- The state in which the macros work. -/
structure Wired (dat : Bool) (β : Board) : Prop where
  driven : β.Driven
  cs : β.level csPin = false
  wr : β.level wrPin = true
  dc : β.level dcPin = dat

/-- The data pins, DC and WR. -/
def LnPin.OnBus (p : LnPin) : Prop := 16 ≤ p.val ∧ p.val < 24 ∨ p = dcPin ∨ p = wrPin

/-- No pin but those of the bus has moved. -/
structure Board.Moves (β τ : Board) : Prop where
  config : τ.config = β.config
  level : ∀ p : LnPin, ¬ p.OnBus → τ.level p = β.level p
  reads : τ.reads = β.reads

theorem Board.Moves.refl (β : Board) : β.Moves β := ⟨rfl, fun _ _ => rfl, rfl⟩

theorem Board.Moves.trans {γ : Board} (h : β.Moves γ) (h' : γ.Moves τ) : β.Moves τ :=
  ⟨h'.config.trans h.config, fun p hp => (h'.level p hp).trans (h.level p hp),
    h'.reads.trans h.reads⟩

/-- DC is set, and nothing else. -/
theorem setDc_wired (h : Wired dat β) {v : Bool} {f : GpioPort → GpioPort}
    (hconfig : (β.write 2 f).config = β.config)
    (hlevel : (β.write 2 f).level = Write.apply β.level (Write.one dcPin v)) :
    Wired v (β.write 2 f) ∧ β.Moves (β.write 2 f) ∧ (β.write 2 f).latched = β.latched := by
  have hpin : ∀ q, (β.write 2 f).level q = if q = dcPin then v else β.level q := fun q => by
    rw [hlevel, Write.apply_one]
  have hwr : (β.write 2 f).level wrPin = β.level wrPin := (hpin wrPin).trans (if_neg (by decide))
  refine ⟨⟨h.driven.of_config hconfig, ?_, hwr.trans h.wr, (hpin dcPin).trans (if_pos rfl)⟩,
    ⟨hconfig, fun p hp => ?_, Board.write_reads _ _⟩, write_latched_quiet fun _ => .inl h.wr⟩
  · rw [hpin csPin, if_neg (by decide)]
    exact h.cs
  · rw [hpin p, if_neg fun hdc => hp (.inr (.inl hdc))]

theorem iliDcCmd_wired (h : Wired dat β) :
    Wired false β.iliDcCmd ∧ β.Moves β.iliDcCmd ∧ β.iliDcCmd.latched = β.latched :=
  setDc_wired h (writeBc_config_same _ _ _) (writeBc_one dcPin β)

theorem iliDcDat_wired (h : Wired dat β) :
    Wired true β.iliDcDat ∧ β.Moves β.iliDcDat ∧ β.iliDcDat.latched = β.latched :=
  setDc_wired h (writeBop_config_same _ _ _) (writeBop_set_one dcPin β)

/-! ## One byte -/

/-- The data pins take the byte. -/
theorem putByte_wired (h : Wired dat β) (d : Byte) :
    let τ := β.write 1 (·.writeBop (0x00FF0000 ||| d.setWidth 32))
    Wired dat τ ∧ β.Moves τ ∧ τ.latched = β.latched ∧ (τ.port 1).octl.setWidth 8 = d := by
  intro τ
  have hport : τ.port 1 = (β.port 1).writeBop (0x00FF0000 ||| d.setWidth 32) := by
    rw [Board.write_port, Function.update_self]
  obtain ⟨hother, hlatched⟩ := write_elsewhere (i := 1) (by decide)
    (·.writeBop (0x00FF0000 ||| d.setWidth 32)) β
  have hconfig : τ.config = β.config := writeBop_config_same _ _ _
  refine ⟨⟨h.driven.of_config hconfig, ?_, ?_, ?_⟩, ⟨hconfig, fun p hp => ?_, Board.write_reads _ _⟩,
    hlatched, ?_⟩
  · rw [hother csPin (by decide)]
    exact h.cs
  · rw [hother wrPin (by decide)]
    exact h.wr
  · rw [hother dcPin (by decide)]
    exact h.dc
  · by_cases hone : p.port = 1
    · have hbit : ¬ p.bit < 8 := by
        intro hlt
        unfold LnPin.bit at hlt
        unfold LnPin.port at hone
        exact hp (.inl (by omega))
      rw [Board.level, hone, hport, GpioPort.writeBop_byte d p.bit_lt, if_neg hbit, Board.level,
        hone]
    · exact hother p hone
  · rw [hport]
    exact GpioPort.writeBop_byte_octl d

/-- WR falls and rises: the display takes what is on the data pins. -/
theorem iliWrStrobe_wired (h : Wired dat β) :
    Wired dat β.iliWrStrobe ∧ β.Moves β.iliWrStrobe ∧
      β.iliWrStrobe.latched = β.latched ++ [some (dat, (β.port 1).octl.setWidth 8)] := by
  let γ := β.write 2 (·.writeBc ((1 : Word) <<< 15))
  have hlow : ∀ q, γ.level q = if q = wrPin then false else β.level q := fun q => by
    rw [show γ.level = _ from writeBc_one wrPin β, Write.apply_one]
  have hpin : ∀ q, β.iliWrStrobe.level q = if q = wrPin then true else β.level q := by
    intro q
    rw [show β.iliWrStrobe.level = _ from writeBop_set_one wrPin γ, Write.apply_one, hlow]
    split <;> rfl
  have hsame : β.iliWrStrobe.config = β.config :=
    (writeBop_config_same _ _ _).trans (writeBc_config_same _ _ _)
  have hcs : β.iliWrStrobe.level csPin = false := by
    rw [hpin csPin, if_neg (by decide)]
    exact h.cs
  have hdriven : β.iliWrStrobe.Driven := h.driven.of_config hsame
  have hdc : β.iliWrStrobe.level dcPin = dat := by
    rw [hpin dcPin, if_neg (by decide)]
    exact h.dc
  -- the falling edge is no rise, since WR was high
  have hquiet : γ.latched = β.latched := write_latched_quiet fun _ => .inl h.wr
  have hbyte : β.iliWrStrobe.port 1 = β.port 1 := by
    rw [Board.iliWrStrobe, Board.write_port, Function.update_of_ne (by decide), Board.write_port,
      Function.update_of_ne (by decide)]
  have hrise := write_latched_rise (β := γ) (f := (·.writeBop ((1 : Word) <<< 15)))
    ((hlow wrPin).trans (if_pos rfl)) ((hpin wrPin).trans (if_pos rfl)) hcs
  refine ⟨⟨hdriven, hcs, (hpin wrPin).trans (if_pos rfl), hdc⟩, ⟨hsame, fun p hp => ?_, ?_⟩, ?_⟩
  · rw [hpin p, if_neg fun hwr => hp (.inr (.inr hwr))]
  · exact (Board.write_reads _ _).trans (Board.write_reads _ _)
  · refine hrise.trans ?_
    rw [hquiet]
    show _ ++ [β.iliWrStrobe.lines] = _
    rw [Board.lines, if_pos hdriven, hbyte]
    exact congrArg (fun b => β.latched ++ [some (b, _)]) hdc

/-! ## Any operations -/

/-- What the display takes of `ops` after `β`, and what has moved by then. -/
structure OnWire (β : Board) (τ : Board) (s : Bus.Sent Byte) : Prop where
  wired : Wired s.dat τ
  moves : β.Moves τ
  latched : τ.latched = β.latched ++ s.sent.map some

theorem board_sim (β : Board) : Bus.Sim Board.bus Bus.recorder (OnWire β) where
  cmd {τ s} h := by
    obtain ⟨hwired, hmoves, hlatched⟩ := iliDcCmd_wired h.wired
    exact ⟨hwired, h.moves.trans hmoves, hlatched.trans h.latched⟩
  dat {τ s} h := by
    obtain ⟨hwired, hmoves, hlatched⟩ := iliDcDat_wired h.wired
    exact ⟨hwired, h.moves.trans hmoves, hlatched.trans h.latched⟩
  write {τ s} b h := by
    obtain ⟨hwired, hmoves, hlatched, hbyte⟩ := putByte_wired h.wired b
    obtain ⟨hwired', hmoves', hlatched'⟩ := iliWrStrobe_wired hwired
    refine ⟨hwired', h.moves.trans (hmoves.trans hmoves'), hlatched'.trans ?_⟩
    rw [hlatched, hbyte, h.latched, List.append_assoc]
    simp [Bus.recorder]

theorem Wired.run (h : Wired dat β) (ops : List (BusOp Byte)) :
    Wired (Bus.line dat ops) (Board.bus.run ops β) ∧ β.Moves (Board.bus.run ops β) ∧
      (Board.bus.run ops β).latched = β.latched ++ (Bus.bytes dat ops).map some := by
  have hstart : OnWire β β ⟨dat, []⟩ := ⟨h, .refl β, by simp⟩
  have hrun := (board_sim β).run hstart ops
  rw [Bus.recorder_run] at hrun
  exact ⟨hrun.wired, hrun.moves, hrun.latched⟩

/-! ## Pin calls -/

/-- The display takes nothing from a pin call unless WR rises. -/
theorem PinCall.run_latched {c : PinCall} (h : c.run β = some τ)
    (hquiet : τ.level wrPin = true → β.level wrPin = true ∨ τ.level csPin = true) :
    τ.latched = β.latched ∧ τ.reads = β.reads := by
  have hconfig : ∀ (γ : Board) (p : LnPin) (v : BitVec 4),
      (γ.write p.port (·.writeConfig p.bit v)).latched = γ.latched := by
    intro γ p v
    refine write_latched_quiet fun hwr => .inl ?_
    rw [writeConfig_level_same] at hwr
    exact hwr
  -- an input with a pull writes OCTL too; an output writes only its configuration
  cases c with
  | digitalWrite p v =>
      obtain rfl := Option.some.inj h
      exact ⟨write_latched_quiet hquiet, Board.write_reads _ _⟩
  | mode p m =>
      cases m with
      | lnInputPullup | lnInputPulldown =>
          obtain rfl := Option.some.inj h
          dsimp only at hquiet ⊢
          rw [writeConfig_level_same] at hquiet
          exact ⟨(hconfig _ _ _).trans (write_latched_quiet hquiet), by simp⟩
      | lnOutput | lnOutputOpenDrain | lnAlternatePP | lnAlternateOD =>
          obtain rfl := Option.some.inj h
          exact ⟨hconfig _ _ _, Board.write_reads _ _⟩
      | _ => cases h

/-- Calls that leave WR alone, or CS high. -/
theorem runAll_latched {calls : List PinCall} (h : PinCall.runAll β calls = some τ)
    (hkeep : (∀ c ∈ calls, c.levelWrite wrPin = none) ∨
      β.level csPin = true ∧ ∀ c ∈ calls, c.levelWrite csPin = none) :
    τ.latched = β.latched ∧ τ.reads = β.reads := by
  induction calls generalizing β with
  | nil =>
      obtain rfl := Option.some.inj h
      exact ⟨rfl, rfl⟩
  | cons c calls ih =>
      obtain ⟨γ, hc, hrest⟩ := Option.bind_eq_some_iff.mp h
      have hlevel := (c.run_pins hc).2
      have hsame : ∀ p, c.levelWrite p = none → γ.level p = β.level p := fun p hp => by
        rw [hlevel]
        exact Write.apply_miss hp
      rw [List.forall_mem_cons, List.forall_mem_cons] at hkeep
      have hquiet : γ.level wrPin = true → β.level wrPin = true ∨ γ.level csPin = true := by
        intro hhigh
        -- WR is as it was, or CS is still high
        rcases hkeep with ⟨hwr, -⟩ | ⟨hcs, hone, -⟩
        · exact .inl ((hsame wrPin hwr).symm.trans hhigh)
        · exact .inr ((hsame csPin hone).trans hcs)
      obtain ⟨hlatched, hreads⟩ := c.run_latched hc hquiet
      have hnext : (∀ c ∈ calls, c.levelWrite wrPin = none) ∨
          γ.level csPin = true ∧ ∀ c ∈ calls, c.levelWrite csPin = none := by
        rcases hkeep with ⟨-, hrest⟩ | ⟨hcs, hone, hrest⟩
        · exact .inl hrest
        · exact .inr ⟨(hsame csPin hone).trans hcs, hrest⟩
      obtain ⟨hlatched', hreads'⟩ := ih hrest hnext
      exact ⟨hlatched'.trans hlatched, hreads'.trans hreads⟩

/-! ## Reading a register -/

theorem pinModes_eq (m : GpioMode) (pins : List LnPin) (β : Board) :
    pinModes m pins β = PinCall.runAll β (pins.map fun p => .mode p m) := by
  rw [pinModes, PinCall.runAll, List.foldlM_map]
  rfl

/-- RD goes low and high again, at port A. -/
theorem read8_board (istat : Nat → Word) (β : Board) :
    (read8 istat β).1 = (istat β.reads).setWidth 8 ∧ (read8 istat β).2.config = β.config ∧
      (∀ p : LnPin, p.port ≠ 0 → (read8 istat β).2.level p = β.level p) ∧
      (read8 istat β).2.latched = β.latched ∧ (read8 istat β).2.reads = β.reads + 1 := by
  let γ : Board := { β.iliRdActive with reads := β.iliRdActive.reads + 1 }
  have hread : read8 istat β = ((istat β.iliRdActive.reads).setWidth 8, γ.iliRdIdle) := rfl
  have hreads : β.iliRdActive.reads = β.reads := Board.write_reads _ _
  obtain ⟨hlevel, hlatched⟩ := write_elsewhere (i := 0) (by decide) (·.writeBc ((1 : Word) <<< 6)) β
  obtain ⟨hlevel', hlatched'⟩ := write_elsewhere (i := 0) (by decide) (·.writeBop ((1 : Word) <<< 6)) γ
  rw [hread, hreads]
  refine ⟨rfl, (writeBop_config_same _ _ _).trans (writeBc_config_same _ _ β),
    fun p hp => (hlevel' p hp).trans (hlevel p hp), hlatched'.trans hlatched, ?_⟩
  exact (Board.write_reads _ _).trans (congrArg (· + 1) hreads)

/-- The word that `n` readings make of `u`. -/
def readWord (istat : Nat → Word) : (n r : Nat) → (u : Word) → Word
  | 0, _, u => u
  | n + 1, r, u => readWord istat n (r + 1) ((u <<< 8) + ((istat r).setWidth 8).setWidth 32)

theorem readBytes_board (istat : Nat → Word) (n : Nat) (u : Word) (β : Board) :
    (readBytes istat n u β).1 = readWord istat n β.reads u ∧
      (readBytes istat n u β).2.config = β.config ∧
      (∀ p : LnPin, p.port ≠ 0 → (readBytes istat n u β).2.level p = β.level p) ∧
      (readBytes istat n u β).2.latched = β.latched ∧
      (readBytes istat n u β).2.reads = β.reads + n := by
  induction n generalizing u β with
  | zero => exact ⟨rfl, rfl, fun _ _ => rfl, rfl, rfl⟩
  | succ n ih =>
      obtain ⟨hbyte, hconfig, hlevel, hlatched, hreads⟩ := read8_board istat β
      obtain ⟨hword, hconfig', hlevel', hlatched', hreads'⟩ :=
        ih ((u <<< 8) + (read8 istat β).1.setWidth 32) (read8 istat β).2
      have hstep : readBytes istat (n + 1) u β =
          readBytes istat n ((u <<< 8) + (read8 istat β).1.setWidth 32) (read8 istat β).2 := rfl
      rw [hstep]
      refine ⟨?_, hconfig'.trans hconfig, fun p hp => (hlevel' p hp).trans (hlevel p hp),
        hlatched'.trans hlatched, ?_⟩
      · rw [hword, hbyte, hreads]
        rfl
      · rw [hreads', hreads]
        omega

theorem mem_dataPins {p : LnPin} : p ∈ dataPins ↔ 16 ≤ p.val ∧ p.val < 24 := by
  revert p
  decide

/-- All data pins in one mode. -/
theorem pinModes_data {m : GpioMode} {v : BitVec 4} (hm : m.value = some v) (β : Board)
    (hwr : ∀ p ∈ dataPins, (PinCall.mode p m).levelWrite wrPin = none) :
    ∃ τ, pinModes m dataPins β = some τ ∧
      (∀ q, τ.config q = if q ∈ dataPins then v else β.config q) ∧
      τ.level = Write.applyAll β.level (dataPins.map fun p => (PinCall.mode p m).levelWrite) ∧
      τ.latched = β.latched ∧ τ.reads = β.reads := by
  let calls := dataPins.map fun p => PinCall.mode p m
  have hok : ∀ c ∈ calls, c.Supported := by
    intro c hc
    obtain ⟨p, -, rfl⟩ := List.mem_map.mp hc
    rw [PinCall.Supported, hm]
    rfl
  obtain ⟨τ, hτ⟩ := Option.isSome_iff_exists.mp ((PinCall.runAll_isSome β calls).mpr hok)
  obtain ⟨hconfig, hlevel⟩ := PinCall.runAll_applied hτ
  have hkeep : ∀ c ∈ calls, c.levelWrite wrPin = none := by
    intro c hc
    obtain ⟨p, hp, rfl⟩ := List.mem_map.mp hc
    exact hwr p hp
  have hones : calls.map PinCall.configWrite = dataPins.map fun p => Write.one p v := by
    rw [List.map_map]
    refine List.map_congr_left fun p _ => ?_
    show (fun q => if q = p then m.value else none) = Write.one p v
    rw [hm]
    rfl
  refine ⟨τ, (pinModes_eq m dataPins β).trans hτ, fun q => ?_, ?_, runAll_latched hτ (.inl hkeep)⟩
  · rw [hconfig, hones, Write.applyAll_ones]
  · rw [hlevel, List.map_map]
    rfl

/-- A register is read: the display takes the command, and the pins are back. -/
theorem iliReadRegister32_wired (h : Wired dat β) (istat : Nat → Word) (r : Byte) :
    ∃ τ, iliReadRegister32 istat r β = some (readWord istat 4 β.reads 0, τ) ∧ Wired true τ ∧
      τ.latched = β.latched ++ [some (false, r)] ∧ τ.reads = β.reads + 4 := by
  obtain ⟨hwired, hmoves, hlatched⟩ := h.run [.cmd, .write r, .dat]
  obtain ⟨β₂, hβ₂, hconfig₂, hlevel₂, hlatched₂, hreads₂⟩ := pinModes_data (m := .lnInputPullup) rfl
    (Board.bus.run [.cmd, .write r, .dat] β) (by decide)
  obtain ⟨hword, hconfig₃, hlevel₃, hlatched₃, hreads₃⟩ := readBytes_board istat 4 0 β₂
  obtain ⟨τ, hτ, hconfig, hlevel, hlatched', hreads⟩ := pinModes_data (m := .lnOutput) rfl
    (readBytes istat 4 0 β₂).2 (by decide)
  have hother : ∀ p : LnPin, p ∉ dataPins → p.port ≠ 0 →
      τ.level p = (Board.bus.run [.cmd, .write r, .dat] β).level p := by
    intro p hdata hport
    have hkeep : ∀ w ∈ dataPins.map fun p => (PinCall.mode p .lnOutput).levelWrite, w p = none := by
      intro w hw
      obtain ⟨q, -, rfl⟩ := List.mem_map.mp hw
      rfl
    rw [hlevel, Write.applyAll_other hkeep, hlevel₃ p hport, hlevel₂]
    exact Write.applyAll_ones _ _ true p |>.trans (if_neg hdata)
  have hcalls : iliReadRegister32 istat r β = some (readWord istat 4 β.reads 0, τ) := by
    rw [← hmoves.reads, ← hreads₂, ← hword]
    simp only [iliReadRegister32, hβ₂, hτ, Option.bind_eq_bind, Option.bind_some, Option.pure_def]
  refine ⟨τ, hcalls, ⟨?_, ?_, ?_, ?_⟩, ?_, ?_⟩
  · refine (driven_iff τ).mpr fun p hp => ?_
    rw [hconfig, hconfig₃, hconfig₂, hmoves.config]
    split
    · rfl
    · exact (driven_iff β).mp h.driven p hp
  · rw [hother csPin (by decide) (by decide)]
    exact hwired.cs
  · rw [hother wrPin (by decide) (by decide)]
    exact hwired.wr
  · rw [hother dcPin (by decide) (by decide)]
    exact hwired.dc
  · rw [hlatched', hlatched₃, hlatched₂, hlatched]
    rfl
  · rw [hreads, hreads₃, hreads₂, hmoves.reads]

/-! ## Starting -/

theorem setPinToDefault_pins (β : Board) (p : LnPin) :
    ∃ τ, setPinToDefault β p = some τ ∧
      (∀ q, τ.config q = if q = p then Board.outputConfig else β.config q) ∧
      (∀ q, τ.level q = if q = p then true else β.level q) ∧ τ.reads = β.reads ∧
      (p ≠ wrPin ∨ β.level csPin = true → τ.latched = β.latched) := by
  let γ := lnDigitalWrite p true β
  have hlevel : ∀ q, γ.level q = if q = p then true else β.level q := fun q => by
    rw [lnDigitalWrite_level, Write.apply_one]
  obtain ⟨hconfig', hlevel'⟩ := lnPinMode_pins (p := p) (m := .lnOutput) (β := γ) rfl
  obtain ⟨hlatched', hreads'⟩ := PinCall.run_latched (c := .mode p .lnOutput) (β := γ) rfl fun hwr =>
    .inl ((congrFun hlevel' wrPin).symm.trans hwr)
  refine ⟨_, rfl, fun q => ?_, fun q => ?_, hreads'.trans (Board.write_reads _ _), fun hquiet => ?_⟩
  · rw [hconfig', lnDigitalWrite_config]
    exact Write.apply_one _ p Board.outputConfig q
  · rw [hlevel']
    exact hlevel q
  · refine hlatched'.trans (write_latched_quiet fun hwr => ?_)
    rcases hquiet with hne | hcs
    · have hsame := hlevel wrPin
      rw [if_neg (Ne.symm hne)] at hsame
      exact .inl (hsame.symm.trans hwr)
    · refine .inr ((hlevel csPin).trans ?_)
      rw [hcs, ite_self]

/-- All pins of a list. -/
theorem setPinToDefault_all (β : Board) (pins : List LnPin)
    (hquiet : wrPin ∉ pins ∨ β.level csPin = true) :
    ∃ τ, pins.foldlM setPinToDefault β = some τ ∧
      (∀ q, τ.config q = if q ∈ pins then Board.outputConfig else β.config q) ∧
      (∀ q, τ.level q = if q ∈ pins then true else β.level q) ∧ τ.reads = β.reads ∧
      τ.latched = β.latched := by
  induction pins generalizing β with
  | nil => exact ⟨β, rfl, fun _ => rfl, fun _ => rfl, rfl, rfl⟩
  | cons p pins ih =>
      obtain ⟨γ, hγ, hconfig, hlevel, hreads, hlatched⟩ := setPinToDefault_pins β p
      have hquiet' : wrPin ∉ pins ∨ γ.level csPin = true := by
        rcases hquiet with hno | hcs
        · exact .inl fun hmem => hno (List.mem_cons_of_mem _ hmem)
        · refine .inr ((hlevel csPin).trans ?_)
          rw [hcs, ite_self]
      obtain ⟨τ, hτ, hconfig', hlevel', hreads', hlatched'⟩ := ih γ hquiet'
      refine ⟨τ, ?_, fun q => ?_, fun q => ?_, hreads'.trans hreads, hlatched'.trans (hlatched ?_)⟩
      · rw [List.foldlM_cons, hγ]
        exact hτ
      · rw [hconfig', hconfig]
        by_cases hhead : q = p <;> by_cases htail : q ∈ pins <;> simp [hhead, htail]
      · rw [hlevel', hlevel]
        by_cases hhead : q = p <;> by_cases htail : q ∈ pins <;> simp [hhead, htail]
      · rcases hquiet with hno | hcs
        · exact .inl fun heq => hno (heq ▸ List.mem_cons_self)
        · exact .inr hcs

/-- The pins of `ili_init` but WR. -/
theorem initPins_eq : initPins = (dataPins ++ [24, 25, dsoResetPin, csPin, dcPin]) ++ [wrPin] := by
  decide

/-- The pins before the first command. -/
def Board.started (τ : Board) : Board :=
  (lnDigitalWrite dsoResetPin true (lnDigitalWrite dsoResetPin false τ)).iliCsActive

/-- Whatever the pins were, the display listens, and has taken nothing yet. -/
theorem init_started (β : Board) : ∃ τ, initPins.foldlM setPinToDefault β = some τ ∧
    Wired true τ.started ∧ τ.started.latched = β.latched ∧ τ.started.reads = β.reads := by
  obtain ⟨γ, hγ, hconfig, hlevel, hreads, hlatched⟩ := setPinToDefault_all β
    (dataPins ++ [24, 25, dsoResetPin, csPin, dcPin]) (.inl (by decide))
  obtain ⟨τ, hτ, hconfig', hlevel', hreads', hlatched'⟩ := setPinToDefault_all γ [wrPin]
    (.inr ((hlevel csPin).trans (if_pos (by decide))))
  have hdefault : initPins.foldlM setPinToDefault β = some τ := by
    rw [initPins_eq, List.foldlM_append, hγ]
    exact hτ
  let υ := lnDigitalWrite dsoResetPin true (lnDigitalWrite dsoResetPin false τ)
  have hpin : ∀ q, q ≠ dsoResetPin → υ.level q = τ.level q := by
    intro q hq
    rw [lnDigitalWrite_level, Write.apply_one, if_neg hq, lnDigitalWrite_level, Write.apply_one,
      if_neg hq]
  have hstarted : ∀ q, τ.started.level q = if q = csPin then false else υ.level q := fun q => by
    rw [show τ.started.level = _ from writeBc_one csPin υ, Write.apply_one]
  have hwr : υ.level wrPin = true := by
    rw [hpin wrPin (by decide), hlevel']
    exact if_pos List.mem_cons_self
  have hdc : υ.level dcPin = true := by
    rw [hpin dcPin (by decide), hlevel', if_neg (by decide), hlevel]
    exact if_pos (by decide)
  have hall : ∀ p : LnPin, p.OnDisplay → τ.config p = Board.outputConfig := by
    intro p hp
    rw [hconfig', hconfig]
    by_cases hlast : p ∈ [wrPin]
    · exact if_pos hlast
    · rw [if_neg hlast]
      refine if_pos ?_
      rcases hp with hdata | rfl | rfl | rfl
      · exact List.mem_append_left _ (mem_dataPins.mpr hdata)
      · decide
      · decide
      · exact absurd List.mem_cons_self hlast
  have hsame : τ.started.config = τ.config := by
    refine (writeBc_config_same _ _ _).trans ?_
    rw [lnDigitalWrite_config, lnDigitalWrite_config]
  refine ⟨τ, hdefault, ⟨?_, ?_, ?_, ?_⟩, ?_, ?_⟩
  · exact (driven_iff _).mpr fun p hp => (congrFun hsame p).trans (hall p hp)
  · exact (hstarted csPin).trans (if_pos rfl)
  · exact (hstarted wrPin).trans hwr
  · exact (hstarted dcPin).trans hdc
  · refine (write_latched_quiet fun _ => .inl hwr).trans ?_
    have hport : dsoResetPin.port ≠ 2 := by decide
    exact (write_elsewhere hport _ _).2.trans ((write_elsewhere hport _ _).2.trans
      (hlatched'.trans hlatched))
  · refine (Board.write_reads _ _).trans ((Board.write_reads _ _).trans ?_)
    exact (Board.write_reads _ _).trans (hreads'.trans hreads)

end LnDso
