import LnDso.Logic.Acts

/-!
# Endpoint 0, exactly

What the packet helpers do to endpoint 0 while its status is not VALID, which
is the state the hardware leaves it in after every transaction: a read hands
over the bytes on the bus, a write queues its bytes, a stall stalls both
directions. Then what a poll does for each of the three transactions.
-/

namespace LnDso

open Lib

namespace UsbPeriph

/-- Only the register of endpoint 0 may differ. -/
structure OnEp0 (u v : UsbPeriph) : Prop where
  reg : ∀ i ≠ 0, v.reg i = u.reg i
  desc : v.desc = u.desc
  pm : v.pm = u.pm
  queued : v.queued = u.queued

theorem OnEp0.trans {u v w : UsbPeriph} (h : OnEp0 u v) (h' : OnEp0 v w) : OnEp0 u w :=
  ⟨fun i hi => (h'.reg i hi).trans (h.reg i hi), h'.desc.trans h.desc, h'.pm.trans h.pm,
    h'.queued.trans h.queued⟩

theorem OnEp0.rxPacket {u v : UsbPeriph} (h : OnEp0 u v) : v.rxPacket 0 = u.rxPacket 0 :=
  rxPacket_congr (h.reg usbBtableReg (by decide)) h.desc h.pm 0

theorem OnEp0.noReset {u v : UsbPeriph} (h : OnEp0 u v) (hu : u.NoReset) : v.NoReset := by
  rw [NoReset, h.reg usbIstrReg (by decide)]
  exact hu

theorem touch_onEp0 (n : Nat) (u : UsbPeriph) : OnEp0 u (u.touch n) :=
  ⟨fun _ _ => rfl, rfl, rfl, rfl⟩

theorem epRegRmw_onEp0 (f : Half → Half) (u : UsbPeriph) : OnEp0 u (epRegRmw 0 f u) :=
  ⟨fun _ hi => epRegRmw_reg_ne hi f u, rfl, rfl, rfl⟩

@[simp] theorem touch_ep (n m : Nat) (u : UsbPeriph) : (u.touch n).ep m = u.ep m := rfl

theorem getReg_zero (u : UsbPeriph) : u.getReg 0 = u.reg 0 := getReg_of_ne (by decide) u

end UsbPeriph

open UsbPeriph

/-! ## Packet helpers -/

theorem usbSetEpRxStat_ep0 (u : UsbPeriph) (nak : Bool) :
    (usbSetEpRxStat 0 (if nak then usbEpRxStatNak else usbEpRxStatValid) u).ep 0 =
      { u.ep 0 with statRx := if nak then 2 else 3 } := by
  rw [usbSetEpRxStat_ep (by decide) (by cases nak <;> decide)]
  cases nak <;> rfl

/-- Reading endpoint 0: the bytes, at most `len` of them, land at `buf + off`. -/
theorem usbdEpReadPacket_zero {u : UsbPeriph} (h : (u.ep 0).statRx ≠ 3) (forceNak : Nat → Bool)
    (buf : Mem) (off : Nat) (len : Half) :
    ∃ v, usbdEpReadPacket forceNak 0 buf off len u =
        (BitVec.ofNat 16 (min (u.rxPacket 0).length len.toNat),
          buf.write off ((u.rxPacket 0).take len.toNat), v) ∧
      OnEp0 u v ∧
      v.ep 0 = { u.ep 0 with ctrRx := false,
                             statRx := if forceNak 0 then (u.ep 0).statRx else 3 } := by
  have hvalid : ¬ (u.touch 0).getReg 0 &&& usbEpRxStat = usbEpRxStatValid := by
    rw [getReg_zero, EpFields.and_rxStat_eq_valid]
    exact h
  let count := usbGetEpRxCount 0 (u.touch 0) &&& 0x3ff
  have hlength : (u.rxPacket 0).length = count.toNat := length_pmBytes _ _ _
  have hsize : (if count < len then count else len) =
      BitVec.ofNat 16 (min (u.rxPacket 0).length len.toNat) := by
    apply BitVec.eq_of_toNat_eq
    rw [hlength, BitVec.toNat_ofNat, Nat.mod_eq_of_lt (by omega)]
    split
    · next hlt => exact (Nat.min_eq_left (Nat.le_of_lt hlt)).symm
    · next hlt => exact (Nat.min_eq_right (Nat.not_lt.mp hlt)).symm
  have hread : ∀ n : Half, n = BitVec.ofNat 16 (min (u.rxPacket 0).length len.toNat) →
      stUsbfsCopyFromPm buf off (u.touch 0).pm (usbGetEpRxBuff 0 (u.touch 0)) n =
        buf.write off ((u.rxPacket 0).take len.toNat) := by
    rintro n rfl
    rw [stUsbfsCopyFromPm_eq, BitVec.toNat_ofNat, Nat.mod_eq_of_lt (by omega), hlength,
      Nat.min_comm, rxPacket, pmBytes_take]
    rfl
  let w := usbClrEpRxCtr 0 (u.touch 0)
  have hclr : OnEp0 u w := (touch_onEp0 0 u).trans (epRegRmw_onEp0 _ _)
  have hclrep : w.ep 0 = { u.ep 0 with ctrRx := false } := usbClrEpRxCtr_ep (by decide) _
  refine ⟨if forceNak 0 then w else usbSetEpRxStat 0 usbEpRxStatValid w, ?_, ?_, ?_⟩
  · rw [usbdEpReadPacket]
    show (if (u.touch 0).getReg 0 &&& usbEpRxStat = usbEpRxStatValid then _ else _) = _
    rw [if_neg hvalid]
    exact Prod.ext hsize (Prod.ext (hread _ hsize) rfl)
  · split
    · exact hclr
    · exact hclr.trans (epRegRmw_onEp0 _ _)
  · cases forceNak 0 with
    | true => exact hclrep
    | false =>
        show (usbSetEpRxStat 0 usbEpRxStatValid w).ep 0 = _
        rw [usbSetEpRxStat_ep (by decide) (by decide), hclrep]
        rfl

/-- Writing endpoint 0 queues the bytes. -/
theorem usbdEpWritePacket_zero {u : UsbPeriph} (h : (u.ep 0).statTx ≠ 3) (buf : Mem) (len : Half) :
    let v := (usbdEpWritePacket 0 buf len u).2
    v.queued = u.queued ++ [buf.read 0 len.toNat] ∧ v.ep 0 = { u.ep 0 with statTx := 3 } ∧
      ∀ i ≠ 0, v.reg i = u.reg i := by
  have hvalid : ¬ (u.touch 0).getReg 0 &&& usbEpTxStat = usbEpTxStatValid := by
    rw [getReg_zero, EpFields.and_txStat_eq_valid]
    exact h
  let u2 : UsbPeriph := { u.touch 0 with
    pm := stUsbfsCopyToPm (usbGetEpTxBuff 0 (u.touch 0)) buf len u.pm }
  let u4 := usbSetEpTxStat 0 usbEpTxStatValid (usbSetEpTxCount 0 len u2)
  have heq : (usbdEpWritePacket 0 buf len u).2 =
      { u4 with queued := u4.queued ++ [u4.txPacket 0] } := by
    rw [usbdEpWritePacket]
    show (if (u.touch 0).getReg 0 &&& usbEpTxStat = usbEpTxStatValid then _ else _ :
      Half × UsbPeriph).2 = _
    rw [if_neg hvalid]
    rfl
  have hreg : ∀ i ≠ 0, u4.reg i = u.reg i := fun i hi => epRegRmw_reg_ne hi _ _
  have hoff : ∀ k, u4.descOff 0 k = u2.descOff 0 k := fun k => by
    rw [descOff_eq, descOff_eq, hreg usbBtableReg (by decide)]
    rfl
  have hdesc : u4.desc = Function.update u2.desc (u2.descOff 0 2) len := rfl
  have hcount : usbGetEpTxCount 0 u4 = len := by
    rw [usbGetEpTxCount, hoff, hdesc, Function.update_self]
  have hbuff : usbGetEpTxBuff 0 u4 = usbGetEpTxBuff 0 (u.touch 0) := by
    have hne : u2.descOff 0 0 ≠ u2.descOff 0 2 := by
      rw [descOff_eq, descOff_eq]
      omega
    rw [usbGetEpTxBuff, usbGetEpTxAddr, hoff, hdesc, Function.update_of_ne hne]
    rfl
  have hpacket : u4.txPacket 0 = buf.read 0 len.toNat := by
    rw [txPacket, hcount, hbuff]
    exact pmBytes_copyToPm _ buf len u.pm
  have hep : u4.ep 0 = { u.ep 0 with statTx := 3 } := by
    rw [show u4 = usbSetEpTxStat 0 usbEpTxStatValid (usbSetEpTxCount 0 len u2) from rfl,
      usbSetEpTxStat_ep (by decide) (by decide)]
    rfl
  rw [heq]
  exact ⟨by rw [hpacket]; rfl, hep, hreg⟩

/-- Stalling endpoint 0 stalls both directions. -/
theorem epStallSet_zero (u : UsbPeriph) :
    OnEp0 u (epStallSet 0 true u) ∧
      (epStallSet 0 true u).ep 0 = { u.ep 0 with statTx := 1, statRx := 1 } := by
  have heq : epStallSet 0 true u =
      usbSetEpRxStat 0 usbEpRxStatStall (usbSetEpTxStat 0 usbEpTxStatStall u) := rfl
  rw [heq]
  refine ⟨(epRegRmw_onEp0 _ _).trans (epRegRmw_onEp0 _ _), ?_⟩
  rw [usbSetEpRxStat_ep (by decide) (by decide), usbSetEpTxStat_ep (by decide) (by decide)]
  rfl

/-! ## Transactions -/

theorem ackIstr_fields (istr bit : Half) (u : UsbPeriph) :
    (∀ i ≠ usbIstrReg, (ackIstr istr bit u).reg i = u.reg i) ∧
      (ackIstr istr bit u).queued = u.queued := by
  unfold ackIstr
  split
  · exact ⟨fun i hi => Function.update_of_ne hi _ _, rfl⟩
  · exact ⟨fun _ _ => rfl, rfl⟩

theorem pollTail_ep (istr : Half) (u : UsbPeriph) {n : Nat} (hn : n < 8) :
    (pollTail istr u).ep n = u.ep n := by
  have hi : n ≠ usbIstrReg := by simp only [usbIstrReg]; omega
  have hc : n ≠ usbCntrReg := by simp only [usbCntrReg]; omega
  refine congrArg EpFields.ofReg ((Function.update_of_ne hc _ _).trans ?_)
  rw [(ackIstr_fields _ _ _).1 n hi, (ackIstr_fields _ _ _).1 n hi, (ackIstr_fields _ _ _).1 n hi]

theorem pollTail_queued (istr : Half) (u : UsbPeriph) : (pollTail istr u).queued = u.queued := by
  show (ackIstr istr usbIstrSof _).queued = _
  rw [(ackIstr_fields _ _ _).2, (ackIstr_fields _ _ _).2, (ackIstr_fields _ _ _).2]

namespace Dev

@[simp] theorem tail_pipe (istr : Half) (σ : Dev) : (σ.tail istr).pipe = σ.pipe := rfl
@[simp] theorem tail_buffer (istr : Half) (σ : Dev) :
    (σ.tail istr).usbdControlBuffer = σ.usbdControlBuffer := rfl
@[simp] theorem tail_dfu (istr : Half) (σ : Dev) : (σ.tail istr).dfu = σ.dfu := rfl
@[simp] theorem tail_flash (istr : Half) (σ : Dev) : (σ.tail istr).flash = σ.flash := rfl
@[simp] theorem tail_calls (istr : Half) (σ : Dev) : (σ.tail istr).calls = σ.calls := rfl

@[simp] theorem tail_queued (istr : Half) (σ : Dev) : (σ.tail istr).usb.queued = σ.usb.queued :=
  pollTail_queued istr σ.usb

@[simp] theorem tail_ep (istr : Half) (σ : Dev) : (σ.tail istr).usb.ep 0 = σ.usb.ep 0 :=
  pollTail_ep istr σ.usb (by decide)

/-- An access through `USB_EP_REG(0)`. -/
def touch0 (σ : Dev) : Dev := { σ with usb := σ.usb.touch 0 }

end Dev

/-- ISTR as a poll reads it, with no reset latched. -/
theorem getReg_istr {u : UsbPeriph} (hreset : u.NoReset) {bits : Half} (hbits : u.ctrBits = bits) :
    u.getReg usbIstrReg &&& usbIstrReset = 0 ∧
      ∀ mask : Half, mask &&& 0x7F00 = 0 → u.getReg usbIstrReg &&& mask = bits &&& mask := by
  refine ⟨(getReg_and_reset u).trans hreset, fun mask hmask => ?_⟩
  rw [getReg, if_pos rfl, hbits, BitVec.and_or_distrib_right, BitVec.and_assoc,
    BitVec.and_comm 0x7F00, hmask]
  show u.reg usbIstrReg &&& 0#16 ||| bits &&& mask = _
  rw [BitVec.and_zero, BitVec.zero_or]

/-- A poll with a reception on endpoint 0 to report. -/
theorem doUsbPoll_rx {cfg : Config} {σ : Dev} (hreset : σ.usb.NoReset)
    (hrx : (σ.usb.ep 0).ctrRx = true) :
    doUsbPoll cfg σ =
      (if (σ.usb.ep 0).setup then usbdControlSetup cfg σ.touch0
        else usbdControlOut cfg σ.touch0).tail (σ.usb.getReg usbIstrReg) := by
  obtain ⟨hnone, hmask⟩ := getReg_istr hreset (ctrBits_of_ctrRx hrx)
  have hctr : σ.usb.getReg usbIstrReg &&& usbIstrCtr ≠ 0 := by
    rw [hmask _ (by decide)]
    decide
  have hdir : σ.usb.getReg usbIstrReg &&& usbIstrDir ≠ 0 := by
    rw [hmask _ (by decide)]
    decide
  have hep : (σ.usb.getReg usbIstrReg &&& usbIstrEpId).toNat = 0 := by
    rw [hmask _ (by decide)]
    decide
  rw [doUsbPoll, if_neg (not_not.mpr hnone), if_pos hctr, pollCtr]
  dsimp only
  rw [if_pos hdir, hep]
  by_cases hsetup : (σ.usb.ep 0).setup = true
  · rw [if_pos hsetup, if_pos]
    · rfl
    · rw [getReg_zero]
      exact (EpFields.and_setup_ne_zero _).mpr hsetup
  · rw [if_neg hsetup, if_neg]
    · rfl
    · rw [getReg_zero]
      exact fun h => hsetup ((EpFields.and_setup_ne_zero _).mp h)

/-- A poll with only a completion on endpoint 0 to report. -/
theorem doUsbPoll_tx {cfg : Config} {σ : Dev} (hreset : σ.usb.NoReset)
    (hrx : (σ.usb.ep 0).ctrRx = false) (htx : (σ.usb.ep 0).ctrTx = true) :
    doUsbPoll cfg σ =
      (usbdControlIn cfg { σ with usb := usbClrEpTxCtr 0 σ.usb }).tail
        (σ.usb.getReg usbIstrReg) := by
  obtain ⟨hnone, hmask⟩ := getReg_istr hreset (ctrBits_of_ctrTx hrx htx)
  have hctr : σ.usb.getReg usbIstrReg &&& usbIstrCtr ≠ 0 := by
    rw [hmask _ (by decide)]
    decide
  have hdir : σ.usb.getReg usbIstrReg &&& usbIstrDir = 0 := by
    rw [hmask _ (by decide)]
    decide
  have hep : (σ.usb.getReg usbIstrReg &&& usbIstrEpId).toNat = 0 := by
    rw [hmask _ (by decide)]
    decide
  rw [doUsbPoll, if_neg (not_not.mpr hnone), if_pos hctr, pollCtr]
  dsimp only
  rw [if_neg (not_not.mpr hdir), hep]

end LnDso
