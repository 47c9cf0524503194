import LnDso.Hw.UsbPeriph

/-!
# The endpoint register macros as field assignments

Each macro of `usb.h` reads the register, works out a value and writes it back,
and the hardware then toggles, clears or keeps each bit by a rule of its own. On
the record of fields a macro is one assignment (`EpMacro.assign`), and a sequence
of macros is the sequence of their assignments.
-/

namespace LnDso

open Lib UsbPeriph

/-! ## The register and the record -/

namespace EpFields

/-- The register value that holds the fields. -/
def toReg (f : EpFields) : Half :=
  BitVec.ofBool f.ctrRx ++ BitVec.ofBool f.dtogRx ++ f.statRx ++ BitVec.ofBool f.setup ++
    f.epType ++ BitVec.ofBool f.kind ++ BitVec.ofBool f.ctrTx ++ BitVec.ofBool f.dtogTx ++
    f.statTx ++ f.ea

/-- No bit of the register is outside the fields. -/
theorem toReg_ofReg (r : Half) : (ofReg r).toReg = r := by
  apply BitVec.eq_of_getLsbD_eq
  intro i hi
  simp only [toReg, ofReg, BitVec.getLsbD_append, BitVec.getLsbD_extractLsb', BitVec.getLsbD_ofBool]
  interval_cases i <;> simp

end EpFields

/-! ## Macros and assignments -/

/-- An argument inside the field that `m` masks. -/
structure EpField (m : Half) where
  val : Half
  inside : val &&& ~~~m = 0#16

/-- A use of one of the macros, with its argument. -/
inductive EpMacro
  | setRxStat (stat : EpField usbEpRxStat)
  | setTxStat (stat : EpField usbEpTxStat)
  | clrRxDtog
  | clrTxDtog
  | clrRxCtr
  | clrTxCtr
  | setType (type : EpField usbEpType)
  | setAddr (addr : EpField usbEpAddr)

namespace EpMacro

/-- The macro, applied to endpoint register `n`. -/
def expand (n : Nat) : EpMacro → UsbPeriph → UsbPeriph
  | setRxStat stat => usbSetEpRxStat n stat.val
  | setTxStat stat => usbSetEpTxStat n stat.val
  | clrRxDtog => usbClrEpRxDtog n
  | clrTxDtog => usbClrEpTxDtog n
  | clrRxCtr => usbClrEpRxCtr n
  | clrTxCtr => usbClrEpTxCtr n
  | setType type => usbSetEpType n type.val
  | setAddr addr => usbSetEpAddr n addr.val

/-- The one field it is for, assigned. -/
def assign : EpMacro → EpFields → EpFields
  | setRxStat stat, f => { f with statRx := stat.val.extractLsb' 12 2 }
  | setTxStat stat, f => { f with statTx := stat.val.extractLsb' 4 2 }
  | clrRxDtog, f => { f with dtogRx := false }
  | clrTxDtog, f => { f with dtogTx := false }
  | clrRxCtr, f => { f with ctrRx := false }
  | clrTxCtr, f => { f with ctrTx := false }
  | setType type, f => { f with epType := type.val.extractLsb' 9 2 }
  | setAddr addr, f => { f with ea := addr.val.extractLsb' 0 4 }

/-- A sequence of macros on endpoint register `n`. -/
def run (n : Nat) (ms : List EpMacro) (u : UsbPeriph) : UsbPeriph :=
  ms.foldl (fun v m => m.expand n v) u

/-- The sequence of their assignments. -/
def assignAll (ms : List EpMacro) (f : EpFields) : EpFields := ms.foldl (fun g m => m.assign g) f

variable {n : Nat}

/-- One macro is its assignment. -/
theorem expand_ep (hn : n < 8) (m : EpMacro) (u : UsbPeriph) :
    (m.expand n u).ep n = m.assign (u.ep n) := by
  cases m with
  | setRxStat stat => exact usbSetEpRxStat_ep hn stat.inside u
  | setTxStat stat => exact usbSetEpTxStat_ep hn stat.inside u
  | clrRxDtog => exact usbClrEpRxDtog_ep hn u
  | clrTxDtog => exact usbClrEpTxDtog_ep hn u
  | clrRxCtr => exact usbClrEpRxCtr_ep hn u
  | clrTxCtr => exact usbClrEpTxCtr_ep hn u
  | setType type => exact usbSetEpType_ep hn type.inside u
  | setAddr addr => exact usbSetEpAddr_ep hn addr.inside u

/-- Every macro reads the register, and writes a value of its own. -/
theorem expand_eq (m : EpMacro) : ∃ val, ∀ n, m.expand n = epRegRmw n val := by
  cases m with
  | setRxStat stat => exact ⟨(setRxStatVal · stat.val), fun _ => rfl⟩
  | setTxStat stat => exact ⟨(setTxStatVal · stat.val), fun _ => rfl⟩
  | clrRxDtog => exact ⟨clrRxDtogVal, fun _ => rfl⟩
  | clrTxDtog => exact ⟨clrTxDtogVal, fun _ => rfl⟩
  | clrRxCtr => exact ⟨clrRxCtrVal, fun _ => rfl⟩
  | clrTxCtr => exact ⟨clrTxCtrVal, fun _ => rfl⟩
  | setType type => exact ⟨(setTypeVal · type.val), fun _ => rfl⟩
  | setAddr addr => exact ⟨(setAddrVal · addr.val), fun _ => rfl⟩

/-- No other register is written. -/
theorem expand_reg_ne {i : Nat} (hi : i ≠ n) (m : EpMacro) (u : UsbPeriph) :
    (m.expand n u).reg i = u.reg i := by
  obtain ⟨val, hval⟩ := m.expand_eq
  rw [hval]
  exact epRegRmw_reg_ne hi val u

theorem run_ep (hn : n < 8) (ms : List EpMacro) (u : UsbPeriph) :
    (run n ms u).ep n = assignAll ms (u.ep n) := by
  induction ms generalizing u with
  | nil => rfl
  | cons m ms ih =>
      have hstep := expand_ep hn m u
      have hrest := ih (m.expand n u)
      rw [hstep] at hrest
      exact hrest

theorem run_reg_ne {i : Nat} (hi : i ≠ n) (ms : List EpMacro) (u : UsbPeriph) :
    (run n ms u).reg i = u.reg i := by
  induction ms generalizing u with
  | nil => rfl
  | cons m ms ih => exact (ih (m.expand n u)).trans (expand_reg_ne hi m u)

end EpMacro

/-- **The macros refine field assignments.** Whatever the register holds, after
any sequence of macros it holds the fields after the sequence of assignments,
and the other registers are as they were. -/
theorem macros_assign_fields {n : Nat} (hn : n < 8) (ms : List EpMacro) (u : UsbPeriph) :
    (EpMacro.run n ms u).reg n = (EpMacro.assignAll ms (EpFields.ofReg (u.reg n))).toReg ∧
      ∀ i, i ≠ n → (EpMacro.run n ms u).reg i = u.reg i := by
  refine ⟨?_, fun i hi => EpMacro.run_reg_ne hi ms u⟩
  have hep : EpFields.ofReg ((EpMacro.run n ms u).reg n) =
      EpMacro.assignAll ms (EpFields.ofReg (u.reg n)) := EpMacro.run_ep hn ms u
  rw [← hep, EpFields.toReg_ofReg]

/-- Endpoint 0 after a SETUP: the reception acknowledged, both directions made valid. -/
theorem macros_assign_fields_setup :
    let u : UsbPeriph := ⟨fun _ => 0xEA60, fun _ => 0, fun _ => 0, [], []⟩
    let ms : List EpMacro := [.clrRxCtr, .setRxStat ⟨usbEpRxStatValid, by decide⟩,
      .setTxStat ⟨usbEpTxStatValid, by decide⟩]
    (EpMacro.run 0 ms u).reg 0 = 0x7A70 ∧ (EpMacro.run 0 ms u).reg 1 = 0xEA60 := by
  intro u ms
  obtain ⟨hreg, hrest⟩ := macros_assign_fields (n := 0) (by decide) ms u
  exact ⟨hreg.trans (by decide), hrest 1 (by decide)⟩

end LnDso
