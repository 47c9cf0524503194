import Mathlib.Tactic.IntervalCases
import LnDso.Lib.Mem

/-!
# The endpoint register (`usb.h`)

`USB_EPnR` mixes four write behaviours in one half-word, so every macro of
`usb.h` writes a value computed from the one it reads. `EpFields` is the record
of fields the macros are meant to assign; each macro is proved to assign
exactly its own field (`ofReg_*`).
-/

namespace LnDso

open Lib

/-! ## Masks -/

def usbEpRxCtr : Half := 0x8000
def usbEpRxStat : Half := 0x3000
def usbEpSetup : Half := 0x0800
def usbEpType : Half := 0x0600
def usbEpKind : Half := 0x0100
def usbEpTxCtr : Half := 0x0080
def usbEpTxDtog : Half := 0x0040
def usbEpRxDtog : Half := 0x4000
def usbEpTxStat : Half := 0x0030
def usbEpAddr : Half := 0x000F

/-- Masking all toggle bits. -/
def usbEpNtoggleMsk : Half :=
  usbEpRxCtr ||| usbEpSetup ||| usbEpType ||| usbEpKind ||| usbEpTxCtr ||| usbEpAddr

/-- All non toggle bits plus EP_RX toggle bits. -/
def usbEpRxStatTogMsk : Half := usbEpRxStat ||| usbEpNtoggleMsk

/-- All non toggle bits plus EP_TX toggle bits. -/
def usbEpTxStatTogMsk : Half := usbEpTxStat ||| usbEpNtoggleMsk

def usbEpRxStatDisabled : Half := 0x0000
def usbEpRxStatStall : Half := 0x1000
def usbEpRxStatNak : Half := 0x2000
def usbEpRxStatValid : Half := 0x3000

def usbEpTxStatDisabled : Half := 0x0000
def usbEpTxStatStall : Half := 0x0010
def usbEpTxStatNak : Half := 0x0020
def usbEpTxStatValid : Half := 0x0030

def usbEpTypeBulk : Half := 0x0000
def usbEpTypeControl : Half := 0x0200
def usbEpTypeIso : Half := 0x0400
def usbEpTypeInterrupt : Half := 0x0600

/-! ## Hardware write rule and macro values -/

/-- What the hardware makes of a write of `v` to an endpoint register holding
`r`: CTR bits clear where 0 is written, DTOG and STAT bits toggle where 1 is
written, SETUP is read-only, the rest is plain. -/
def epWrite (r v : Half) : Half :=
  (r &&& v &&& 0x8080#16) ||| ((r ^^^ v) &&& 0x7070#16) ||| (r &&& 0x0800#16) |||
    (v &&& 0x070F#16)

/-- The value written by `TOG_SET_REG_BIT_MSK_AND_SET`. -/
def togSetRegBitMskAndSet (r msk bit extra : Half) : Half := ((r &&& msk) ^^^ bit) ||| extra

/-- The value written by `CLR_REG_BIT_MSK_AND_SET`. -/
def clrRegBitMskAndSet (r msk bit extra : Half) : Half := (r &&& msk &&& ~~~bit) ||| extra

/-- Value written by `USB_SET_EP_RX_STAT`. -/
def setRxStatVal (r stat : Half) : Half :=
  togSetRegBitMskAndSet r usbEpRxStatTogMsk stat (usbEpRxCtr ||| usbEpTxCtr)

/-- Value written by `USB_SET_EP_TX_STAT`. -/
def setTxStatVal (r stat : Half) : Half :=
  togSetRegBitMskAndSet r usbEpTxStatTogMsk stat (usbEpRxCtr ||| usbEpTxCtr)

/-- Value written by `USB_CLR_EP_TX_DTOG`. -/
def clrTxDtogVal (r : Half) : Half := r &&& (usbEpNtoggleMsk ||| usbEpTxDtog)

/-- Value written by `USB_CLR_EP_RX_DTOG`. -/
def clrRxDtogVal (r : Half) : Half := r &&& (usbEpNtoggleMsk ||| usbEpRxDtog)

/-- Value written by `USB_CLR_EP_RX_CTR`. -/
def clrRxCtrVal (r : Half) : Half := clrRegBitMskAndSet r usbEpNtoggleMsk usbEpRxCtr usbEpTxCtr

/-- Value written by `USB_CLR_EP_TX_CTR`. -/
def clrTxCtrVal (r : Half) : Half := clrRegBitMskAndSet r usbEpNtoggleMsk usbEpTxCtr usbEpRxCtr

/-- Value written by `USB_SET_EP_TYPE`. -/
def setTypeVal (r type : Half) : Half := (r &&& (usbEpNtoggleMsk &&& ~~~usbEpType)) ||| type

/-- Value written by `USB_SET_EP_ADDR`. -/
def setAddrVal (r addr : Half) : Half := (r &&& (usbEpNtoggleMsk &&& ~~~usbEpAddr)) ||| addr

/-! ## Each macro assigns its own field -/

/-- A bit of the register after a write. -/
theorem getLsbD_epWrite (r v : Half) {i : Nat} (hi : i < 16) :
    (epWrite r v).getLsbD i =
      if i = 15 ∨ i = 7 then r.getLsbD i && v.getLsbD i
      else if i = 11 then r.getLsbD i
      else if 4 ≤ i ∧ i < 7 ∨ 12 ≤ i ∧ i < 15 then r.getLsbD i ^^ v.getLsbD i
      else v.getLsbD i := by
  interval_cases i <;> simp [epWrite]

/-- Bits of an in-field argument are zero outside its field. -/
theorem bit_of_field {s m : Half} (h : s &&& ~~~m = 0#16) {i : Nat} (hi : i < 16) :
    s.getLsbD i = (m.getLsbD i && s.getLsbD i) := by
  have hb : (s &&& ~~~m).getLsbD i = false := by rw [h]; exact BitVec.getLsbD_zero
  rw [BitVec.getLsbD_and, BitVec.getLsbD_not] at hb
  clear h
  cases hs : s.getLsbD i <;> cases hm : m.getLsbD i <;> simp_all

theorem bit_outside {s m : Half} (h : s &&& ~~~m = 0#16) {i : Nat} (hi : i < 16)
    (hm : m.getLsbD i = false) : s.getLsbD i = false := by
  rw [bit_of_field h hi, hm, Bool.false_and]

theorem toggle_bit : ∀ {r m s : Bool}, (m = false → s = false) →
    (r ^^ (r && m ^^ s)) = (r && !m || s) := by decide

theorem ctr_bit : ∀ {r m c : Bool}, (m = true → c = false) →
    (r && (r && !m || c)) = (r && !m) := by decide

/-- A toggle field is assigned by writing where it is to change; the other toggle
bits are written as 0, the CTR flags as 1 or as they are. -/
theorem epWrite_toggle {r s m c : Half} (hm : m &&& ~~~0x7070 = 0#16) (hs : s &&& ~~~m = 0#16)
    (hc : c &&& ~~~0x8080 = 0#16) :
    epWrite r (((r &&& (m ||| usbEpNtoggleMsk)) ^^^ s) ||| c) = (r &&& ~~~m) ||| s := by
  apply BitVec.eq_of_getLsbD_eq
  intro i hi
  have hmbit := bit_outside hm hi
  have hsbit := bit_outside hs hi
  have hcbit := bit_outside hc hi
  rw [getLsbD_epWrite r _ hi]
  clear hs hm hc
  interval_cases i <;>
    simp_all [usbEpNtoggleMsk, usbEpRxCtr, usbEpTxCtr, usbEpSetup, usbEpType, usbEpKind, usbEpAddr]
  all_goals exact toggle_bit hsbit

/-- Any other field is assigned by writing it, with the toggle bits as 0 and the
other CTR flag as 1 or as it is. -/
theorem epWrite_plain {r s m c : Half} (hm : m &&& ~~~0x878F = 0#16) (hs : s &&& ~~~m = 0#16)
    (hplain : s &&& ~~~0x070F = 0#16) (hc : c &&& ~~~(0x8080 &&& ~~~m) = 0#16) :
    epWrite r ((r &&& (usbEpNtoggleMsk &&& ~~~m)) ||| (s ||| c)) = (r &&& ~~~m) ||| s := by
  apply BitVec.eq_of_getLsbD_eq
  intro i hi
  have hmbit := bit_outside hm hi
  have hsbit := bit_outside hs hi
  have hpbit := bit_outside hplain hi
  have hcbit := bit_outside hc hi
  rw [getLsbD_epWrite r _ hi]
  clear hs hplain hm hc
  interval_cases i <;>
    simp_all [usbEpNtoggleMsk, usbEpRxCtr, usbEpTxCtr, usbEpSetup, usbEpType, usbEpKind, usbEpAddr]
  all_goals exact ctr_bit hcbit

theorem epWrite_setRxStat (r s : Half) (hs : s &&& ~~~usbEpRxStat = 0#16) :
    epWrite r (setRxStatVal r s) = (r &&& ~~~usbEpRxStat) ||| s :=
  epWrite_toggle (by decide) hs (by decide)

theorem epWrite_setTxStat (r s : Half) (hs : s &&& ~~~usbEpTxStat = 0#16) :
    epWrite r (setTxStatVal r s) = (r &&& ~~~usbEpTxStat) ||| s :=
  epWrite_toggle (by decide) hs (by decide)

/-- A toggle bit is cleared by writing it as it is. -/
theorem epWrite_dtog {r m : Half} (hm : m &&& ~~~0x7070 = 0#16) :
    epWrite r (r &&& (usbEpNtoggleMsk ||| m)) = r &&& ~~~m := by
  have htoggle := epWrite_toggle (r := r) hm (BitVec.zero_and : 0#16 &&& ~~~m = 0#16)
    (BitVec.zero_and : 0#16 &&& ~~~0x8080 = 0#16)
  rwa [BitVec.xor_zero, BitVec.or_zero, BitVec.or_zero, BitVec.or_comm m] at htoggle

theorem epWrite_clrTxDtog (r : Half) :
    epWrite r (clrTxDtogVal r) = r &&& ~~~usbEpTxDtog := epWrite_dtog (by decide)

theorem epWrite_clrRxDtog (r : Half) :
    epWrite r (clrRxDtogVal r) = r &&& ~~~usbEpRxDtog := epWrite_dtog (by decide)

/-- A CTR flag is cleared by writing it as 0 and the other as 1. -/
theorem epWrite_ctr {r m c : Half} (hm : m &&& ~~~0x878F = 0#16)
    (hc : c &&& ~~~(0x8080 &&& ~~~m) = 0#16) :
    epWrite r (clrRegBitMskAndSet r usbEpNtoggleMsk m c) = r &&& ~~~m := by
  have hplain := epWrite_plain (r := r) hm (BitVec.zero_and : 0#16 &&& ~~~m = 0#16)
    (BitVec.zero_and : 0#16 &&& ~~~0x070F = 0#16) hc
  rwa [BitVec.zero_or, BitVec.or_zero, ← BitVec.and_assoc] at hplain

theorem epWrite_clrRxCtr (r : Half) :
    epWrite r (clrRxCtrVal r) = r &&& ~~~usbEpRxCtr := epWrite_ctr (by decide) (by decide)

theorem epWrite_clrTxCtr (r : Half) :
    epWrite r (clrTxCtrVal r) = r &&& ~~~usbEpTxCtr := epWrite_ctr (by decide) (by decide)

/-- A plain field is assigned by writing it. -/
theorem epWrite_field {r s m : Half} (hm : m &&& ~~~0x070F = 0#16) (hs : s &&& ~~~m = 0#16) :
    epWrite r ((r &&& (usbEpNtoggleMsk &&& ~~~m)) ||| s) = (r &&& ~~~m) ||| s := by
  have hwide : ∀ {x y : Half}, x &&& ~~~y = 0#16 → x &&& y = x := fun {x y} h => by
    apply BitVec.eq_of_getLsbD_eq
    intro i hi
    rw [BitVec.getLsbD_and, Bool.and_comm, ← bit_of_field h hi]
  have hm' : m &&& ~~~0x878F = 0#16 := by
    rw [← hwide hm, BitVec.and_assoc]
    exact BitVec.and_zero
  have hplain : s &&& ~~~0x070F = 0#16 := by
    rw [← hwide hs, BitVec.and_assoc, hm]
    exact BitVec.and_zero
  have hwrite := epWrite_plain (r := r) (c := 0#16) hm' hs hplain BitVec.zero_and
  rwa [BitVec.or_zero] at hwrite

theorem epWrite_setType (r t : Half) (ht : t &&& ~~~usbEpType = 0#16) :
    epWrite r (setTypeVal r t) = (r &&& ~~~usbEpType) ||| t := epWrite_field (by decide) ht

theorem epWrite_setAddr (r a : Half) (ha : a &&& ~~~usbEpAddr = 0#16) :
    epWrite r (setAddrVal r a) = (r &&& ~~~usbEpAddr) ||| a := epWrite_field (by decide) ha

/-! ## The record of fields -/

/-- The fields of an endpoint register. -/
@[ext] structure EpFields where
  ctrRx : Bool
  dtogRx : Bool
  statRx : BitVec 2
  setup : Bool
  epType : BitVec 2
  kind : Bool
  ctrTx : Bool
  dtogTx : Bool
  statTx : BitVec 2
  ea : BitVec 4
deriving DecidableEq

/-- The fields a register value holds. -/
def EpFields.ofReg (r : Half) : EpFields where
  ctrRx := r.getLsbD 15
  dtogRx := r.getLsbD 14
  statRx := r.extractLsb' 12 2
  setup := r.getLsbD 11
  epType := r.extractLsb' 9 2
  kind := r.getLsbD 8
  ctrTx := r.getLsbD 7
  dtogTx := r.getLsbD 6
  statTx := r.extractLsb' 4 2
  ea := r.extractLsb' 0 4

namespace EpFields

/-- Assigning the field masked by `m` changes the bits of `m` alone. -/
theorem getLsbD_assign {r s m : Half} (hs : s &&& ~~~m = 0#16) {i : Nat} (hi : i < 16) :
    ((r &&& ~~~m) ||| s).getLsbD i = if m.getLsbD i then s.getLsbD i else r.getLsbD i := by
  have hb := bit_of_field hs hi
  clear hs
  rw [BitVec.getLsbD_or, BitVec.getLsbD_and, BitVec.getLsbD_not]
  cases hm : m.getLsbD i <;> simp_all

theorem extract_congr {r s : Half} {lo n : Nat}
    (h : ∀ i < n, r.getLsbD (lo + i) = s.getLsbD (lo + i)) :
    r.extractLsb' lo n = s.extractLsb' lo n := by
  apply BitVec.eq_of_getLsbD_eq
  intro i hi
  rw [BitVec.getLsbD_extractLsb', BitVec.getLsbD_extractLsb', h i hi]

/-- A field that the mask covers or leaves out. -/
theorem extract_assign {r s m : Half} (hs : s &&& ~~~m = 0#16) {lo n : Nat} (hn : lo + n ≤ 16)
    (hm : m.extractLsb' lo n = 0 ∨ m.extractLsb' lo n = BitVec.allOnes n) :
    ((r &&& ~~~m) ||| s).extractLsb' lo n =
      if m.extractLsb' lo n = 0 then r.extractLsb' lo n else s.extractLsb' lo n := by
  have hbit : ∀ i < n, m.getLsbD (lo + i) = (m.extractLsb' lo n).getLsbD i := fun i hi => by
    rw [BitVec.getLsbD_extractLsb', decide_eq_true hi, Bool.true_and]
  split
  · next hzero =>
    refine extract_congr fun i hi => ?_
    have hclear : m.getLsbD (lo + i) = false := by
      rw [hbit i hi, hzero]
      exact BitVec.getLsbD_zero
    rw [getLsbD_assign hs (by omega), hclear]
    rfl
  · next hne =>
    refine extract_congr fun i hi => ?_
    have hset : m.getLsbD (lo + i) = true := by
      rw [hbit i hi, hm.resolve_left hne, BitVec.getLsbD_allOnes, decide_eq_true hi]
    rw [getLsbD_assign hs (by omega), hset]
    rfl

/-- The mask covers or leaves out each field. -/
def Whole (m : EpFields) : Prop :=
  (m.statRx = 0 ∨ m.statRx = BitVec.allOnes 2) ∧ (m.epType = 0 ∨ m.epType = BitVec.allOnes 2) ∧
    (m.statTx = 0 ∨ m.statTx = BitVec.allOnes 2) ∧ (m.ea = 0 ∨ m.ea = BitVec.allOnes 4)

instance (m : EpFields) : Decidable m.Whole := inferInstanceAs (Decidable (_ ∧ _))

/-- The fields of `s` that the mask `m` covers, the others of `f`. -/
def pick (m s f : EpFields) : EpFields where
  ctrRx := if m.ctrRx then s.ctrRx else f.ctrRx
  dtogRx := if m.dtogRx then s.dtogRx else f.dtogRx
  statRx := if m.statRx = 0 then f.statRx else s.statRx
  setup := if m.setup then s.setup else f.setup
  epType := if m.epType = 0 then f.epType else s.epType
  kind := if m.kind then s.kind else f.kind
  ctrTx := if m.ctrTx then s.ctrTx else f.ctrTx
  dtogTx := if m.dtogTx then s.dtogTx else f.dtogTx
  statTx := if m.statTx = 0 then f.statTx else s.statTx
  ea := if m.ea = 0 then f.ea else s.ea

/-- The fields after an assignment under a mask. -/
theorem ofReg_assign {r s m : Half} (hs : s &&& ~~~m = 0#16) (hm : (ofReg m).Whole) :
    ofReg ((r &&& ~~~m) ||| s) = pick (ofReg m) (ofReg s) (ofReg r) := by
  obtain ⟨hstatRx, htype, hstatTx, hea⟩ := hm
  have hbit {i : Nat} (hi : i < 16) := getLsbD_assign (r := r) hs hi
  exact EpFields.ext (hbit (by decide)) (hbit (by decide)) (extract_assign hs (by decide) hstatRx)
    (hbit (by decide)) (extract_assign hs (by decide) htype) (hbit (by decide)) (hbit (by decide))
    (hbit (by decide)) (extract_assign hs (by decide) hstatTx) (extract_assign hs (by decide) hea)

theorem ofReg_clear {r m : Half} (hm : (ofReg m).Whole) :
    ofReg (r &&& ~~~m) = pick (ofReg m) (ofReg 0#16) (ofReg r) := by
  have hassign := ofReg_assign (r := r) (s := 0#16) BitVec.zero_and hm
  rwa [BitVec.or_zero] at hassign

theorem ofReg_setRxStat (r s : Half) (hs : s &&& ~~~usbEpRxStat = 0#16) :
    ofReg (epWrite r (setRxStatVal r s)) =
      { ofReg r with statRx := s.extractLsb' 12 2 } := by
  rw [epWrite_setRxStat r s hs]
  exact ofReg_assign hs (by decide)

theorem ofReg_setTxStat (r s : Half) (hs : s &&& ~~~usbEpTxStat = 0#16) :
    ofReg (epWrite r (setTxStatVal r s)) =
      { ofReg r with statTx := s.extractLsb' 4 2 } := by
  rw [epWrite_setTxStat r s hs]
  exact ofReg_assign hs (by decide)

theorem ofReg_clrTxDtog (r : Half) :
    ofReg (epWrite r (clrTxDtogVal r)) = { ofReg r with dtogTx := false } := by
  rw [epWrite_clrTxDtog r]
  exact ofReg_clear (by decide)

theorem ofReg_clrRxDtog (r : Half) :
    ofReg (epWrite r (clrRxDtogVal r)) = { ofReg r with dtogRx := false } := by
  rw [epWrite_clrRxDtog r]
  exact ofReg_clear (by decide)

theorem ofReg_clrRxCtr (r : Half) :
    ofReg (epWrite r (clrRxCtrVal r)) = { ofReg r with ctrRx := false } := by
  rw [epWrite_clrRxCtr r]
  exact ofReg_clear (by decide)

theorem ofReg_clrTxCtr (r : Half) :
    ofReg (epWrite r (clrTxCtrVal r)) = { ofReg r with ctrTx := false } := by
  rw [epWrite_clrTxCtr r]
  exact ofReg_clear (by decide)

theorem ofReg_setType (r t : Half) (ht : t &&& ~~~usbEpType = 0#16) :
    ofReg (epWrite r (setTypeVal r t)) = { ofReg r with epType := t.extractLsb' 9 2 } := by
  rw [epWrite_setType r t ht]
  exact ofReg_assign ht (by decide)

theorem ofReg_setAddr (r a : Half) (ha : a &&& ~~~usbEpAddr = 0#16) :
    ofReg (epWrite r (setAddrVal r a)) = { ofReg r with ea := a.extractLsb' 0 4 } := by
  rw [epWrite_setAddr r a ha]
  exact ofReg_assign ha (by decide)

/-! ## Field tests -/

/-- Under the mask of a field a register has all bits just if the field has. -/
theorem and_eq_self_iff (r m : Half) (lo n : Nat)
    (hm : ∀ i < 16, m.getLsbD i = decide (lo ≤ i ∧ i < lo + n)) (hn : lo + n ≤ 16) :
    r &&& m = m ↔ r.extractLsb' lo n = BitVec.allOnes n := by
  constructor
  · intro h
    apply BitVec.eq_of_getLsbD_eq
    intro i hi
    have hmask : m.getLsbD (lo + i) = true := by
      rw [hm _ (by omega)]
      exact decide_eq_true ⟨by omega, by omega⟩
    have hbit := congrArg (BitVec.getLsbD · (lo + i)) h
    simp only [BitVec.getLsbD_and, hmask, Bool.and_true] at hbit
    rw [BitVec.getLsbD_extractLsb', BitVec.getLsbD_allOnes, hbit, Bool.and_true]
  · intro h
    apply BitVec.eq_of_getLsbD_eq
    intro i hi
    rw [BitVec.getLsbD_and]
    cases hmask : m.getLsbD i with
    | false => exact Bool.and_false _
    | true =>
        rw [hm i hi] at hmask
        obtain ⟨hlo, hhi⟩ := of_decide_eq_true hmask
        have hbit := congrArg (BitVec.getLsbD · (i - lo)) h
        simp only [BitVec.getLsbD_extractLsb', BitVec.getLsbD_allOnes] at hbit
        rw [decide_eq_true (by omega : i - lo < n), Bool.true_and, Nat.add_sub_cancel' hlo] at hbit
        rw [hbit]
        rfl

theorem and_rxStat_eq_valid (r : Half) :
    r &&& usbEpRxStat = usbEpRxStatValid ↔ (ofReg r).statRx = 3#2 :=
  and_eq_self_iff r usbEpRxStat 12 2 (by decide) (by decide)

theorem and_txStat_eq_valid (r : Half) :
    r &&& usbEpTxStat = usbEpTxStatValid ↔ (ofReg r).statTx = 3#2 :=
  and_eq_self_iff r usbEpTxStat 4 2 (by decide) (by decide)

/-- A single-bit mask test reads that bit. -/
theorem and_bit_ne_zero (r : Half) {i : Nat} (hi : i < 16) :
    r &&& BitVec.twoPow 16 i ≠ 0#16 ↔ r.getLsbD i = true := by
  rw [BitVec.and_twoPow]
  cases h : r.getLsbD i with
  | false => simp
  | true =>
    have hne : BitVec.twoPow 16 i ≠ 0#16 := fun h0 => by
      have := congrArg (·.getLsbD i) h0
      simp [hi] at this
    simpa using hne

theorem and_setup_ne_zero (r : Half) :
    r &&& usbEpSetup ≠ 0#16 ↔ (ofReg r).setup = true :=
  and_bit_ne_zero r (i := 11) (by decide)

end EpFields

end LnDso
