import LnDso.Hw.UsbPeriph

/-!
# Packet memory and bus events

The two copy loops between RAM and packet memory, and what the hardware does
to the peripheral for each event on the bus. `stUsbfsCopyFromPm_eq` and
`pmBytes_copyToPm` say what the loops move; `rxPacket_storeRx` that software
reads the bytes the host sent.
-/

namespace LnDso

open Lib UsbPeriph

/-! ## The copy loops -/

/-- The loop of `st_usbfs_copy_to_pm`, `n` half-words to go. -/
def copyToPmLoop (buf : Mem) : (n pm off : Nat) → (Nat → Half) → Nat → Half
  | 0, _, _, PM => PM
  | n + 1, pm, off, PM =>
      copyToPmLoop buf n (pm + 1) (off + 2)
        (Function.update PM pm (Half.ofBytes (buf off) (buf (off + 1))))

/-- `st_usbfs_copy_to_pm`: whole half-words, rounding the length up. -/
def stUsbfsCopyToPm (pm : Nat) (buf : Mem) (len : Half) (PM : Nat → Half) : Nat → Half :=
  copyToPmLoop buf ((len.toNat + 1) / 2) pm 0 PM

/-- The loop of `st_usbfs_copy_from_pm`, `n` half-words to go. -/
def copyFromPmLoop (PM : Nat → Half) : (n pm off : Nat) → Mem → Mem
  | 0, _, _, buf => buf
  | n + 1, pm, off, buf =>
      copyFromPmLoop PM n (pm + 1) (off + 2)
        (Function.update (Function.update buf off (Half.lo (PM pm))) (off + 1) (Half.hi (PM pm)))

/-- `st_usbfs_copy_from_pm`: whole half-words, then the odd byte. -/
def stUsbfsCopyFromPm (buf : Mem) (off : Nat) (PM : Nat → Half) (pm : Nat) (len : Half) : Mem :=
  let n := len.toNat / 2
  let buf := copyFromPmLoop PM n pm off buf
  if len.toNat % 2 = 1 then Function.update buf (off + 2 * n) (Half.lo (PM (pm + n))) else buf

/-- Byte `i` of a packet-memory buffer that starts at slot `pm`. -/
def pmByte (PM : Nat → Half) (pm i : Nat) : Byte :=
  if i % 2 = 0 then Half.lo (PM (pm + i / 2)) else Half.hi (PM (pm + i / 2))

/-- The first `len` bytes of a packet-memory buffer. -/
def pmBytes (PM : Nat → Half) (pm len : Nat) : List Byte := (List.range len).map (pmByte PM pm)

@[simp] theorem length_pmBytes (PM : Nat → Half) (pm len : Nat) :
    (pmBytes PM pm len).length = len := by simp [pmBytes]

theorem getElem?_pmBytes (PM : Nat → Half) (pm len i : Nat) :
    (pmBytes PM pm len)[i]? = if i < len then some (pmByte PM pm i) else none := by
  by_cases h : i < len
  · simp [pmBytes, h]
  · simp [pmBytes, h]

theorem pmBytes_take (PM : Nat → Half) (pm len k : Nat) :
    (pmBytes PM pm len).take k = pmBytes PM pm (min k len) := by
  apply List.ext_getElem?
  intro i
  rw [List.getElem?_take, getElem?_pmBytes, getElem?_pmBytes]
  split <;> split <;> first | rfl | omega | (split <;> first | rfl | omega)

/-! ## What the copy loops move -/

theorem copyToPmLoop_apply (buf : Mem) (n pm off : Nat) (PM : Nat → Half) (k : Nat) :
    copyToPmLoop buf n pm off PM k =
      if pm ≤ k ∧ k < pm + n then
        Half.ofBytes (buf (off + 2 * (k - pm))) (buf (off + 2 * (k - pm) + 1))
      else PM k := by
  induction n generalizing pm off PM with
  | zero =>
      rw [if_neg (by omega)]
      rfl
  | succ n ih =>
      rw [copyToPmLoop, ih]
      by_cases hk : k = pm
      · subst hk
        rw [if_neg (by omega), if_pos (by omega), Function.update_self]
        simp
      · rw [Function.update_of_ne hk]
        by_cases hin : pm ≤ k ∧ k < pm + (n + 1)
        · rw [if_pos (by omega), if_pos hin,
            show off + 2 + 2 * (k - (pm + 1)) = off + 2 * (k - pm) by omega]
        · rw [if_neg (by omega), if_neg hin]

/-- Copying out to packet memory and reading the buffer back gives the bytes. -/
theorem pmBytes_copyToPm (pm : Nat) (buf : Mem) (len : Half) (PM : Nat → Half) :
    pmBytes (stUsbfsCopyToPm pm buf len PM) pm len.toNat = buf.read 0 len.toNat := by
  apply List.ext_getElem?
  intro i
  rw [getElem?_pmBytes, Mem.getElem?_read]
  split
  · next hi =>
    have hslot : pm ≤ pm + i / 2 ∧ pm + i / 2 < pm + (len.toNat + 1) / 2 := by omega
    rw [pmByte, stUsbfsCopyToPm, copyToPmLoop_apply, if_pos hslot, Half.lo_ofBytes,
      Half.hi_ofBytes]
    split
    · rw [show 0 + 2 * (pm + i / 2 - pm) = 0 + i by omega]
    · rw [show 0 + 2 * (pm + i / 2 - pm) + 1 = 0 + i by omega]
  · rfl

theorem copyFromPmLoop_eq (PM : Nat → Half) (n pm off : Nat) (buf : Mem) :
    copyFromPmLoop PM n pm off buf = buf.write off (pmBytes PM pm (2 * n)) := by
  induction n generalizing pm off buf with
  | zero => simp [copyFromPmLoop, pmBytes]
  | succ n ih =>
      rw [copyFromPmLoop, ih]
      funext j
      simp only [Mem.write_apply, getElem?_pmBytes]
      by_cases h0 : j < off
      · rw [if_neg (by omega), if_neg (by omega), Function.update_of_ne (by omega),
          Function.update_of_ne (by omega)]
      · by_cases h1 : j < off + 2
        · rw [if_neg (by omega), if_pos (by omega), if_pos (by omega)]
          rcases (show j = off ∨ j = off + 1 by omega) with rfl | rfl
          · rw [Function.update_of_ne (by omega), Function.update_self]
            simp [pmByte]
          · rw [Function.update_self]
            simp [pmByte]
        · rw [if_pos (show off + 2 ≤ j by omega), if_pos (show off ≤ j by omega)]
          by_cases h2 : j - off < 2 * (n + 1)
          · rw [if_pos (show j - (off + 2) < 2 * n by omega), if_pos h2]
            simp only [Option.getD_some, pmByte]
            rw [show (j - (off + 2)) % 2 = (j - off) % 2 by omega,
              show pm + 1 + (j - (off + 2)) / 2 = pm + (j - off) / 2 by omega]
          · rw [if_neg (show ¬ j - (off + 2) < 2 * n by omega), if_neg h2]
            simp only [Option.getD_none]
            rw [Function.update_of_ne (by omega), Function.update_of_ne (by omega)]

/-- `st_usbfs_copy_from_pm` stores exactly the first `len` bytes of the buffer. -/
theorem stUsbfsCopyFromPm_eq (buf : Mem) (off : Nat) (PM : Nat → Half) (pm : Nat) (len : Half) :
    stUsbfsCopyFromPm buf off PM pm len = buf.write off (pmBytes PM pm len.toNat) := by
  rw [stUsbfsCopyFromPm, copyFromPmLoop_eq]
  funext j
  by_cases hodd : len.toNat % 2 = 1
  · rw [if_pos hodd]
    by_cases hj : j = off + 2 * (len.toNat / 2)
    · subst hj
      rw [Function.update_self, Mem.write_apply, if_pos (by omega), getElem?_pmBytes,
        if_pos (by omega), Option.getD_some, pmByte, if_pos (by omega),
        show (off + 2 * (len.toNat / 2) - off) / 2 = len.toNat / 2 by omega]
    · rw [Function.update_of_ne hj]
      simp only [Mem.write_apply, getElem?_pmBytes]
      split
      · split <;> split <;> first | rfl | omega
      · rfl
  · rw [if_neg hodd, show 2 * (len.toNat / 2) = len.toNat by omega]

namespace UsbPeriph

/-- Bytes of the packet last received on endpoint `n`. -/
def rxPacket (u : UsbPeriph) (n : Nat) : List Byte :=
  pmBytes u.pm (usbGetEpRxBuff n u) (usbGetEpRxCount n u &&& 0x3ff).toNat

/-- The packet endpoint `n` puts on the bus when its STAT_TX is VALID. -/
def txPacket (u : UsbPeriph) (n : Nat) : List Byte :=
  pmBytes u.pm (usbGetEpTxBuff n u) (usbGetEpTxCount n u).toNat

/-! ## What the hardware does on the bus -/

/-- Received bytes land in the receive buffer of endpoint 0 and their number
in the low ten bits of its COUNT_RX. -/
def storeRx (bytes : List Byte) (u : UsbPeriph) : UsbPeriph :=
  let buff := usbGetEpRxBuff 0 u
  let count := (usbGetEpRxCount 0 u &&& 0xFC00) ||| (BitVec.ofNat 16 bytes.length &&& 0x3ff)
  { u with
    pm := fun k =>
      if buff ≤ k ∧ 2 * (k - buff) < bytes.length then
        Half.ofBytes (bytes.getD (2 * (k - buff)) 0) (bytes.getD (2 * (k - buff) + 1) 0)
      else u.pm k
    desc := Function.update u.desc (u.descOff 0 6) count }

/-- SETUP reception: data toggles 1, both directions NAK, CTR_RX and SETUP set. -/
def hwSetup (bytes : List Byte) (u : UsbPeriph) : UsbPeriph :=
  let u := storeRx bytes u
  { u with reg := Function.update u.reg 0 ((u.reg 0 &&& 0x078F) ||| 0xE860) }

/-- OUT reception: STAT_RX NAK, CTR_RX set, SETUP clear, receive toggle flipped. -/
def hwOut (bytes : List Byte) (u : UsbPeriph) : UsbPeriph :=
  let u := storeRx bytes u
  { u with reg := Function.update u.reg 0 (((u.reg 0 ^^^ 0x4000) &&& 0x47FF) ||| 0xA000) }

/-- IN completion: STAT_TX NAK, CTR_TX set, transmit toggle flipped. -/
def hwIn (u : UsbPeriph) : UsbPeriph :=
  { u with reg := Function.update u.reg 0 (((u.reg 0 ^^^ 0x0040) &&& 0xFFCF) ||| 0x00A0) }

/-- Bus reset: the endpoint registers keep only their CTR flags, the address
register is cleared and ISTR.RESET latched. -/
def hwReset (u : UsbPeriph) : UsbPeriph :=
  { u with reg := fun i =>
      if i < 8 then u.reg i &&& (usbEpRxCtr ||| usbEpTxCtr)
      else if i = usbDaddrReg then 0
      else if i = usbIstrReg then u.reg i ||| usbIstrReset
      else u.reg i }

/-- Suspend, wake-up, start-of-frame and error flags; never RESET. -/
def hwFlags (flags : Half) (u : UsbPeriph) : UsbPeriph :=
  { u with reg := Function.update u.reg usbIstrReg (u.reg usbIstrReg ||| (flags &&& 0x7B00)) }

/-! ## Lemmas on bus events -/

theorem count_field (c : Half) {n : Nat} (hn : n < 1024) :
    (((c &&& 0xFC00) ||| (BitVec.ofNat 16 n &&& 0x3ff)) &&& 0x3ff).toNat = n := by
  have h : ((c &&& 0xFC00) ||| (BitVec.ofNat 16 n &&& 0x3ff)) &&& 0x3ff =
      BitVec.ofNat 16 n &&& 0x3ff := by
    apply BitVec.eq_of_getLsbD_eq
    intro i hi
    simp only [BitVec.getLsbD_and, BitVec.getLsbD_or]
    interval_cases i <;> simp
  rw [h, BitVec.toNat_and, BitVec.toNat_ofNat, show (0x3ff : Half).toNat = 2 ^ 10 - 1 from rfl,
    Nat.and_two_pow_sub_one_eq_mod]
  omega

@[simp] theorem storeRx_reg (bytes : List Byte) (u : UsbPeriph) :
    (storeRx bytes u).reg = u.reg := rfl

@[simp] theorem storeRx_queued (bytes : List Byte) (u : UsbPeriph) :
    (storeRx bytes u).queued = u.queued := rfl

/-- Software reads the packet the bus delivered. -/
theorem rxPacket_storeRx {bytes : List Byte} (h : bytes.length < 1024) (u : UsbPeriph) :
    (storeRx bytes u).rxPacket 0 = bytes := by
  have hcount : (usbGetEpRxCount 0 (storeRx bytes u) &&& 0x3ff).toNat = bytes.length := by
    rw [← count_field (usbGetEpRxCount 0 u) h]
    simp [usbGetEpRxCount, storeRx, descOff_eq]
  have hbuff : usbGetEpRxBuff 0 (storeRx bytes u) = usbGetEpRxBuff 0 u := by
    simp [usbGetEpRxBuff, usbGetEpRxAddr, storeRx, descOff_eq]
  apply List.ext_getElem?
  intro i
  rw [rxPacket, hcount, hbuff, getElem?_pmBytes]
  split
  · next hi =>
    have hslot : usbGetEpRxBuff 0 u ≤ usbGetEpRxBuff 0 u + i / 2 ∧
        2 * (usbGetEpRxBuff 0 u + i / 2 - usbGetEpRxBuff 0 u) < bytes.length := by omega
    have hpm : (storeRx bytes u).pm (usbGetEpRxBuff 0 u + i / 2) =
        Half.ofBytes (bytes.getD (2 * (i / 2)) 0) (bytes.getD (2 * (i / 2) + 1) 0) := by
      simp only [storeRx]
      rw [if_pos hslot, Nat.add_sub_cancel_left]
    rw [pmByte, hpm, Half.lo_ofBytes, Half.hi_ofBytes]
    split
    · rw [show 2 * (i / 2) = i by omega, List.getD_eq_getElem?_getD,
        List.getElem?_eq_getElem hi, Option.getD_some]
    · rw [show 2 * (i / 2) + 1 = i by omega, List.getD_eq_getElem?_getD,
        List.getElem?_eq_getElem hi, Option.getD_some]
  · next hi => rw [List.getElem?_eq_none (by omega)]

@[simp] theorem hwSetup_queued (bytes : List Byte) (u : UsbPeriph) :
    (hwSetup bytes u).queued = u.queued := rfl

@[simp] theorem hwOut_queued (bytes : List Byte) (u : UsbPeriph) :
    (hwOut bytes u).queued = u.queued := rfl

@[simp] theorem hwIn_queued (u : UsbPeriph) : (hwIn u).queued = u.queued := rfl

theorem hwSetup_reg_ne {i : Nat} (h : i ≠ 0) (bytes : List Byte) (u : UsbPeriph) :
    (hwSetup bytes u).reg i = u.reg i := Function.update_of_ne h _ _

theorem hwOut_reg_ne {i : Nat} (h : i ≠ 0) (bytes : List Byte) (u : UsbPeriph) :
    (hwOut bytes u).reg i = u.reg i := Function.update_of_ne h _ _

theorem hwIn_reg_ne {i : Nat} (h : i ≠ 0) (u : UsbPeriph) :
    (hwIn u).reg i = u.reg i := Function.update_of_ne h _ _

/-- The packet last received depends on the descriptor table and packet memory. -/
theorem rxPacket_congr {u v : UsbPeriph} (hb : v.reg usbBtableReg = u.reg usbBtableReg)
    (hd : v.desc = u.desc) (hp : v.pm = u.pm) (n : Nat) : v.rxPacket n = u.rxPacket n := by
  simp only [rxPacket, usbGetEpRxBuff, usbGetEpRxAddr, usbGetEpRxCount, descOff_eq, hb, hd, hp]

theorem rxPacket_hwSetup {bytes : List Byte} (h : bytes.length < 1024) (u : UsbPeriph) :
    (hwSetup bytes u).rxPacket 0 = bytes :=
  (rxPacket_congr (u := storeRx bytes u) (hwSetup_reg_ne (by decide) bytes u) rfl rfl 0).trans
    (rxPacket_storeRx h u)

theorem rxPacket_hwOut {bytes : List Byte} (h : bytes.length < 1024) (u : UsbPeriph) :
    (hwOut bytes u).rxPacket 0 = bytes :=
  (rxPacket_congr (u := storeRx bytes u) (hwOut_reg_ne (by decide) bytes u) rfl rfl 0).trans
    (rxPacket_storeRx h u)

/-- Fields of endpoint 0 after a SETUP reception. -/
theorem hwSetup_ep (bytes : List Byte) (u : UsbPeriph) :
    (hwSetup bytes u).ep 0 =
      { u.ep 0 with ctrRx := true, dtogRx := true, statRx := 2, setup := true,
                    dtogTx := true, statTx := 2 } := by
  apply EpFields.ext <;>
    simp only [UsbPeriph.ep, EpFields.ofReg, hwSetup, storeRx_reg, Function.update_self]
  all_goals first
    | (simp; done)
    | (apply BitVec.eq_of_getLsbD_eq; intro i hi
       simp only [BitVec.getLsbD_extractLsb', BitVec.getLsbD_or, BitVec.getLsbD_and]
       interval_cases i <;> simp)

/-- Fields of endpoint 0 after an OUT reception. -/
theorem hwOut_ep (bytes : List Byte) (u : UsbPeriph) :
    (hwOut bytes u).ep 0 =
      { u.ep 0 with ctrRx := true, dtogRx := !(u.ep 0).dtogRx, statRx := 2, setup := false } := by
  apply EpFields.ext <;>
    simp only [UsbPeriph.ep, EpFields.ofReg, hwOut, storeRx_reg, Function.update_self]
  all_goals first
    | (simp; done)
    | (apply BitVec.eq_of_getLsbD_eq; intro i hi
       simp only [BitVec.getLsbD_extractLsb', BitVec.getLsbD_or, BitVec.getLsbD_and,
         BitVec.getLsbD_xor]
       interval_cases i <;> simp)

/-- Fields of endpoint 0 after an IN completion. -/
theorem hwIn_ep (u : UsbPeriph) :
    (hwIn u).ep 0 = { u.ep 0 with ctrTx := true, dtogTx := !(u.ep 0).dtogTx, statTx := 2 } := by
  apply EpFields.ext <;>
    simp only [UsbPeriph.ep, EpFields.ofReg, hwIn, Function.update_self]
  all_goals first
    | (simp; done)
    | (apply BitVec.eq_of_getLsbD_eq; intro i hi
       simp only [BitVec.getLsbD_extractLsb', BitVec.getLsbD_or, BitVec.getLsbD_and,
         BitVec.getLsbD_xor]
       interval_cases i <;> simp)

end UsbPeriph

end LnDso
