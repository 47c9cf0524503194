import Mathlib.Data.List.Find
import LnDso.Hw.EpReg

/-!
# The USB peripheral (`usb.h`, packet memory)

The register file above `USB_DEV_FS_BASE`, the buffer descriptor table and the
packet memory, as software and the bus see them. `USB_EP_REG(EP)` indexes the
same file as the control, status, address and table registers, so an endpoint
number past 7 reaches those.

The descriptor table and the packet buffers are kept as two memories: the
table is read and written through `USB_EP_TX_ADDR` and its siblings only, the
buffers through the two copy loops only, and buffers are allocated above the
table (`USBD_PM_TOP`).
-/

namespace LnDso

open Lib

/-! ## Registers, by their index in 32-bit words above the base -/

def usbCntrReg : Nat := 0x40 / 4
def usbIstrReg : Nat := 0x44 / 4
def usbFnrReg : Nat := 0x48 / 4
def usbDaddrReg : Nat := 0x4C / 4
def usbBtableReg : Nat := 0x50 / 4

def usbCntrSofm : Half := 0x0200

def usbIstrCtr : Half := 0x8000
def usbIstrWkup : Half := 0x1000
def usbIstrSusp : Half := 0x0800
def usbIstrReset : Half := 0x0400
def usbIstrSof : Half := 0x0200
def usbIstrDir : Half := 0x0010
def usbIstrEpId : Half := 0x000F

def usbDaddrEf : Half := 0x0080
def usbDaddrAddr : Half := 0x007F

/-- The peripheral. `touched` records every index used through `USB_EP_REG`
and `queued` every packet handed to the bus, oldest first. -/
structure UsbPeriph where
  /-- Register file; the ISTR entry holds the latched flags only. -/
  reg : Nat → Half
  /-- Descriptor table words, by packet-memory offset. -/
  desc : Nat → Half
  /-- Packet memory: 16-bit words, each in a 32-bit slot. -/
  pm : Nat → Half
  touched : List Nat
  queued : List (List Byte)

namespace UsbPeriph

/-- The fields of endpoint register `ep`. -/
def ep (u : UsbPeriph) (ep : Nat) : EpFields := EpFields.ofReg (u.reg ep)

/-- An endpoint with a transaction to report. -/
def ctrPending (u : UsbPeriph) (ep : Nat) : Bool := (u.ep ep).ctrRx || (u.ep ep).ctrTx

/-- CTR, DIR and EP_ID of ISTR, which follow the endpoint registers: the first
endpoint with a CTR flag is reported, as a reception when CTR_RX is set. -/
def ctrBits (u : UsbPeriph) : Half :=
  match (List.range 8).find? u.ctrPending with
  | none => 0
  | some n =>
    usbIstrCtr ||| (if (u.ep n).ctrRx then usbIstrDir else 0) ||| BitVec.ofNat 16 n

/-- `GET_REG` of the register at index `i`. -/
def getReg (u : UsbPeriph) (i : Nat) : Half :=
  if i = usbIstrReg then (u.reg i &&& 0x7F00) ||| u.ctrBits else u.reg i

/-- What a write of `v` leaves in register `i`: endpoint registers follow
`epWrite`, ISTR flags clear where 0 is written, the frame number is read-only. -/
def regWrite (i : Nat) (r v : Half) : Half :=
  if i < 8 then epWrite r v
  else if i = usbIstrReg then r &&& v
  else if i = usbFnrReg then r
  else v

/-- `SET_REG` of the register at index `i`. -/
def setReg (u : UsbPeriph) (i : Nat) (v : Half) : UsbPeriph :=
  { u with reg := Function.update u.reg i (regWrite i (u.reg i) v) }

/-- An access through `USB_EP_REG(n)`. -/
def touch (u : UsbPeriph) (n : Nat) : UsbPeriph := { u with touched := u.touched ++ [n] }

end UsbPeriph

open UsbPeriph

/-! ## Endpoint register macros -/

/-- Read-modify-write of endpoint register `n` through `USB_EP_REG`: the shape
of all the macros below, `f` being the value each computes. -/
def epRegRmw (n : Nat) (f : Half → Half) (u : UsbPeriph) : UsbPeriph :=
  (u.touch n).setReg n (f (u.getReg n))

def usbSetEpRxStat (n : Nat) (stat : Half) : UsbPeriph → UsbPeriph :=
  epRegRmw n (setRxStatVal · stat)
def usbSetEpTxStat (n : Nat) (stat : Half) : UsbPeriph → UsbPeriph :=
  epRegRmw n (setTxStatVal · stat)
def usbClrEpTxDtog (n : Nat) : UsbPeriph → UsbPeriph := epRegRmw n clrTxDtogVal
def usbClrEpRxDtog (n : Nat) : UsbPeriph → UsbPeriph := epRegRmw n clrRxDtogVal
def usbClrEpRxCtr (n : Nat) : UsbPeriph → UsbPeriph := epRegRmw n clrRxCtrVal
def usbClrEpTxCtr (n : Nat) : UsbPeriph → UsbPeriph := epRegRmw n clrTxCtrVal
def usbSetEpType (n : Nat) (type : Half) : UsbPeriph → UsbPeriph :=
  epRegRmw n (setTypeVal · type)
def usbSetEpAddr (n : Nat) (addr : Half) : UsbPeriph → UsbPeriph :=
  epRegRmw n (setAddrVal · addr)

/-! ## Buffer descriptor table -/

namespace UsbPeriph

/-- Offset of word `k` of the descriptor of endpoint `n`. -/
def descOff (u : UsbPeriph) (n k : Nat) : Nat := (u.getReg usbBtableReg).toNat + n * 8 + k

def setDesc (u : UsbPeriph) (off : Nat) (v : Half) : UsbPeriph :=
  { u with desc := Function.update u.desc off v }

end UsbPeriph

def usbGetEpTxAddr (n : Nat) (u : UsbPeriph) : Half := u.desc (u.descOff n 0)
def usbGetEpTxCount (n : Nat) (u : UsbPeriph) : Half := u.desc (u.descOff n 2)
def usbGetEpRxAddr (n : Nat) (u : UsbPeriph) : Half := u.desc (u.descOff n 4)
def usbGetEpRxCount (n : Nat) (u : UsbPeriph) : Half := u.desc (u.descOff n 6)

def usbSetEpTxAddr (n : Nat) (addr : Half) (u : UsbPeriph) : UsbPeriph :=
  u.setDesc (u.descOff n 0) addr
def usbSetEpTxCount (n : Nat) (count : Half) (u : UsbPeriph) : UsbPeriph :=
  u.setDesc (u.descOff n 2) count
def usbSetEpRxAddr (n : Nat) (addr : Half) (u : UsbPeriph) : UsbPeriph :=
  u.setDesc (u.descOff n 4) addr
def usbSetEpRxCount (n : Nat) (count : Half) (u : UsbPeriph) : UsbPeriph :=
  u.setDesc (u.descOff n 6) count

/-- Slot of packet memory at which the transmit buffer starts. -/
def usbGetEpTxBuff (n : Nat) (u : UsbPeriph) : Nat := (usbGetEpTxAddr n u).toNat / 2

/-- Slot of packet memory at which the receive buffer starts. -/
def usbGetEpRxBuff (n : Nat) (u : UsbPeriph) : Nat := (usbGetEpRxAddr n u).toNat / 2

/-! ## Lemmas -/

@[simp] theorem epRegRmw_desc (n : Nat) (f : Half → Half) (u : UsbPeriph) :
    (epRegRmw n f u).desc = u.desc := rfl

@[simp] theorem epRegRmw_pm (n : Nat) (f : Half → Half) (u : UsbPeriph) :
    (epRegRmw n f u).pm = u.pm := rfl

@[simp] theorem epRegRmw_queued (n : Nat) (f : Half → Half) (u : UsbPeriph) :
    (epRegRmw n f u).queued = u.queued := rfl

theorem getReg_of_ne {i : Nat} (h : i ≠ usbIstrReg) (u : UsbPeriph) : u.getReg i = u.reg i :=
  if_neg h

/-- The descriptor offset reads the table register, which ISTR is not. -/
theorem descOff_eq (u : UsbPeriph) (n k : Nat) :
    u.descOff n k = (u.reg usbBtableReg).toNat + n * 8 + k := by
  rw [descOff, getReg_of_ne (by decide)]

theorem epRegRmw_reg_ne {n m : Nat} (h : m ≠ n) (f : Half → Half) (u : UsbPeriph) :
    (epRegRmw n f u).reg m = u.reg m :=
  Function.update_of_ne h _ _

theorem epRegRmw_reg_self {n : Nat} (h : n < 8) (f : Half → Half) (u : UsbPeriph) :
    (epRegRmw n f u).reg n = epWrite (u.reg n) (f (u.reg n)) := by
  have hne : n ≠ usbIstrReg := by simp only [usbIstrReg]; omega
  show Function.update u.reg n (regWrite n (u.reg n) (f (u.getReg n))) n = _
  rw [Function.update_self, regWrite, if_pos h, getReg_of_ne hne]

theorem epRegRmw_ep_ne {n m : Nat} (h : m ≠ n) (f : Half → Half) (u : UsbPeriph) :
    (epRegRmw n f u).ep m = u.ep m :=
  congrArg EpFields.ofReg (epRegRmw_reg_ne h f u)

theorem usbSetEpRxStat_ep {n : Nat} (h : n < 8) {s : Half} (hs : s &&& ~~~usbEpRxStat = 0#16)
    (u : UsbPeriph) :
    (usbSetEpRxStat n s u).ep n = { u.ep n with statRx := s.extractLsb' 12 2 } :=
  (congrArg EpFields.ofReg (epRegRmw_reg_self h _ u)).trans (EpFields.ofReg_setRxStat _ _ hs)

theorem usbSetEpTxStat_ep {n : Nat} (h : n < 8) {s : Half} (hs : s &&& ~~~usbEpTxStat = 0#16)
    (u : UsbPeriph) :
    (usbSetEpTxStat n s u).ep n = { u.ep n with statTx := s.extractLsb' 4 2 } :=
  (congrArg EpFields.ofReg (epRegRmw_reg_self h _ u)).trans (EpFields.ofReg_setTxStat _ _ hs)

theorem usbClrEpTxDtog_ep {n : Nat} (h : n < 8) (u : UsbPeriph) :
    (usbClrEpTxDtog n u).ep n = { u.ep n with dtogTx := false } :=
  (congrArg EpFields.ofReg (epRegRmw_reg_self h _ u)).trans (EpFields.ofReg_clrTxDtog _)

theorem usbClrEpRxDtog_ep {n : Nat} (h : n < 8) (u : UsbPeriph) :
    (usbClrEpRxDtog n u).ep n = { u.ep n with dtogRx := false } :=
  (congrArg EpFields.ofReg (epRegRmw_reg_self h _ u)).trans (EpFields.ofReg_clrRxDtog _)

theorem usbClrEpRxCtr_ep {n : Nat} (h : n < 8) (u : UsbPeriph) :
    (usbClrEpRxCtr n u).ep n = { u.ep n with ctrRx := false } :=
  (congrArg EpFields.ofReg (epRegRmw_reg_self h _ u)).trans (EpFields.ofReg_clrRxCtr _)

theorem usbClrEpTxCtr_ep {n : Nat} (h : n < 8) (u : UsbPeriph) :
    (usbClrEpTxCtr n u).ep n = { u.ep n with ctrTx := false } :=
  (congrArg EpFields.ofReg (epRegRmw_reg_self h _ u)).trans (EpFields.ofReg_clrTxCtr _)

theorem usbSetEpType_ep {n : Nat} (h : n < 8) {t : Half} (ht : t &&& ~~~usbEpType = 0#16)
    (u : UsbPeriph) :
    (usbSetEpType n t u).ep n = { u.ep n with epType := t.extractLsb' 9 2 } :=
  (congrArg EpFields.ofReg (epRegRmw_reg_self h _ u)).trans (EpFields.ofReg_setType _ _ ht)

theorem usbSetEpAddr_ep {n : Nat} (h : n < 8) {a : Half} (ha : a &&& ~~~usbEpAddr = 0#16)
    (u : UsbPeriph) :
    (usbSetEpAddr n a u).ep n = { u.ep n with ea := a.extractLsb' 0 4 } :=
  (congrArg EpFields.ofReg (epRegRmw_reg_self h _ u)).trans (EpFields.ofReg_setAddr _ _ ha)

/-- CTR, DIR and EP_ID follow the registers of the eight endpoints. -/
theorem ctrBits_congr {u v : UsbPeriph} (h : ∀ n < 8, v.reg n = u.reg n) :
    v.ctrBits = u.ctrBits := by
  have hep : ∀ n < 8, v.ep n = u.ep n := fun n hn => congrArg EpFields.ofReg (h n hn)
  have hfind : (List.range 8).find? v.ctrPending = (List.range 8).find? u.ctrPending := by
    refine List.find?_congr fun n hn => ?_
    rw [ctrPending, ctrPending, hep n (List.mem_range.mp hn)]
  rw [ctrBits, ctrBits, hfind]
  cases hn : (List.range 8).find? u.ctrPending with
  | none => rfl
  | some n =>
      dsimp only
      rw [hep n (List.mem_range.mp (List.mem_of_find?_eq_some hn))]

theorem getReg_congr {u v : UsbPeriph} (h : ∀ n < 8, v.reg n = u.reg n) {i : Nat}
    (hi : v.reg i = u.reg i) : v.getReg i = u.getReg i := by
  rw [getReg, getReg, hi, ctrBits_congr h]

/-- A pending reception on endpoint 0 is what ISTR reports. -/
theorem ctrBits_of_ctrRx {u : UsbPeriph} (h : (u.ep 0).ctrRx = true) :
    u.ctrBits = 0x8010 := by
  have hp : u.ctrPending 0 = true := by simp [ctrPending, h]
  simp [ctrBits, show List.range 8 = 0 :: [1, 2, 3, 4, 5, 6, 7] from rfl, hp, h, usbIstrCtr,
    usbIstrDir]

/-- With no reception pending on endpoint 0, a pending completion is. -/
theorem ctrBits_of_ctrTx {u : UsbPeriph} (h : (u.ep 0).ctrRx = false)
    (ht : (u.ep 0).ctrTx = true) : u.ctrBits = 0x8000 := by
  have hp : u.ctrPending 0 = true := by simp [ctrPending, ht]
  simp [ctrBits, show List.range 8 = 0 :: [1, 2, 3, 4, 5, 6, 7] from rfl, hp, h, usbIstrCtr]

end LnDso
