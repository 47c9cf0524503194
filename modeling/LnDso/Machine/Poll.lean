import LnDso.Lib.TSys
import LnDso.Machine.Control

/-!
# The poll loop (`usb.cpp`) and the device as a transition system

One event on the bus, then one call of `do_usb_poll`. A quiet poll is the
event `flags 0`.

Two things are assumed of the hardware. Between two polls at most one transaction
completes: the loop polls again before the next one is over. And the peripheral
follows BTABLE to whatever offset it holds, also after a write through
`USB_EP_REG` has overwritten it: the table and the packet memory have no end.
-/

namespace LnDso

open Lib UsbPeriph

/-! ## Bus reset and endpoint setup -/

/-- `_set_ep_rx_bufsize` -/
def setEpRxBufsize (ep : Nat) (size : Word) (u : UsbPeriph) : UsbPeriph :=
  if 62 < size then
    let size := if size &&& 0x1f ≠ 0 then size - 32 else size
    usbSetEpRxCount ep (((size <<< 5) ||| 0x8000).setWidth 16) u
  else
    let size := if size &&& 1 ≠ 0 then size + 1 else size
    usbSetEpRxCount ep ((size <<< 10).setWidth 16) u

def usbEndpointAttrControl : Byte := 0
def usbEndpointAttrIsochronous : Byte := 1
def usbEndpointAttrBulk : Byte := 2

/-- `typelookup`: USB standard type codes to STM32. -/
def typelookup (type : Byte) : Half :=
  if type = usbEndpointAttrControl then usbEpTypeControl
  else if type = usbEndpointAttrIsochronous then usbEpTypeIso
  else if type = usbEndpointAttrBulk then usbEpTypeBulk
  else usbEpTypeInterrupt

/-- The transmit half of `_usbd_ep_setup`. -/
def epSetupTx (ep : Nat) (maxSize usbPmTop : Half) (u : UsbPeriph) : Half × UsbPeriph :=
  let u := usbSetEpTxAddr ep usbPmTop u
  let u := usbClrEpTxDtog ep u
  (usbPmTop + maxSize, usbSetEpTxStat ep usbEpTxStatNak u)

/-- The receive half of `_usbd_ep_setup`. -/
def epSetupRx (ep : Nat) (maxSize usbPmTop : Half) (u : UsbPeriph) : Half × UsbPeriph :=
  let u := usbSetEpRxAddr ep usbPmTop u
  let u := setEpRxBufsize ep (maxSize.setWidth 32) u
  let u := usbClrEpRxDtog ep u
  (usbPmTop + maxSize, usbSetEpRxStat ep usbEpRxStatValid u)

/-- `_usbd_ep_setup`: the new `usb_pm_top` and the peripheral. -/
def usbdEpSetup (addr type : Byte) (maxSize usbPmTop : Half) (u : UsbPeriph) : Half × UsbPeriph :=
  let dir := addr &&& 0x80 ≠ 0
  let ep := (addr &&& 0x7f).toNat
  -- Assign address.
  let u := usbSetEpAddr ep (BitVec.ofNat 16 ep) u
  let u := usbSetEpType ep (typelookup type) u
  let (top, u) := if dir ∨ ep = 0 then epSetupTx ep maxSize usbPmTop u else (usbPmTop, u)
  if dir then (top, u) else epSetupRx ep maxSize top u

/-- `CLR_REG_BIT` on ISTR. -/
def clrIstr (bit : Half) (u : UsbPeriph) : UsbPeriph := u.setReg usbIstrReg (~~~bit)

/-- The RESET branch of `do_usb_poll`. -/
def pollReset (σ : Dev) : Dev :=
  let (top, u) := usbdEpSetup 0 usbEndpointAttrControl (bMaxPacketSize0.setWidth 16) usbdPmTop
    (clrIstr usbIstrReset σ.usb)
  -- Set driver addr to zero
  { σ with usb := u.setReg usbDaddrReg usbDaddrEf, pipe := { σ.pipe with usbPmTop := top } }

/-! ## The poll -/

/-- The CTR branch of `do_usb_poll`. -/
def pollCtr (cfg : Config) (istr : Half) (σ : Dev) : Dev :=
  let ep := (istr &&& usbIstrEpId).toNat
  if istr &&& usbIstrDir ≠ 0 then
    let σ' := { σ with usb := σ.usb.touch ep }
    if σ.usb.getReg ep &&& usbEpSetup ≠ 0 then usbdControlSetup cfg σ' else usbdControlOut cfg σ'
  else usbdControlIn cfg { σ with usb := usbClrEpTxCtr ep σ.usb }

/-- Acknowledge a flag that `istr` reports. -/
def ackIstr (istr bit : Half) (u : UsbPeriph) : UsbPeriph :=
  if istr &&& bit ≠ 0 then clrIstr bit u else u

/-- The end of `do_usb_poll`: acknowledge the other flags, mask SOF. -/
def pollTail (istr : Half) (u : UsbPeriph) : UsbPeriph :=
  let u := ackIstr istr usbIstrSusp u
  let u := ackIstr istr usbIstrWkup u
  let u := ackIstr istr usbIstrSof u
  u.setReg usbCntrReg (u.getReg usbCntrReg &&& ~~~usbCntrSofm)

/-- The end of a poll that read `istr`. -/
def Dev.tail (istr : Half) (σ : Dev) : Dev := { σ with usb := pollTail istr σ.usb }

/-- `do_usb_poll` -/
def doUsbPoll (cfg : Config) (σ : Dev) : Dev :=
  let istr := σ.usb.getReg usbIstrReg
  if istr &&& usbIstrReset ≠ 0 then pollReset σ
  else
    Dev.tail istr (if istr &&& usbIstrCtr ≠ 0 then pollCtr cfg istr σ else σ)

/-! ## Events -/

/-- A data packet on the bus: the packet memory counts at most 1023 bytes. -/
structure Packet where
  bytes : List Byte
  length_lt : bytes.length < 1024

/-- A packet of what fits of `bs`. -/
def Packet.ofBytes (bs : List Byte) : Packet :=
  ⟨bs.take 1023, Nat.lt_succ_of_le (List.length_take_le 1023 bs)⟩

/-- What happens on the bus before a poll. -/
inductive Event
  | reset
  | setup (req : UsbSetupData)
  | out (pkt : Packet)
  | inDone
  | flags (f : Half)

/-- The effect of an event on the peripheral. -/
def hw : Event → UsbPeriph → UsbPeriph
  | .reset => hwReset
  | .setup req => hwSetup req.bytes
  | .out pkt => hwOut pkt.bytes
  | .inDone => hwIn
  | .flags f => hwFlags f

/-- An event on the bus. -/
def Dev.onBus (e : Event) (σ : Dev) : Dev := { σ with usb := hw e σ.usb }

/-- An event and the poll that follows it. -/
def poll (cfg : Config) (σ : Dev) (e : Event) : Dev := doUsbPoll cfg (σ.onBus e)

/-- The state `runDfu` enters its loop in: C initial values, flash controller
at rest, peripheral as `usb_init` leaves it. Buffers and memories hold anything. -/
structure Dev.Boot (σ : Dev) : Prop where
  cntr : σ.usb.reg usbCntrReg = 0x9C00
  istr : σ.usb.reg usbIstrReg = 0
  btable : σ.usb.reg usbBtableReg = 0
  ep : ∀ n < 8, σ.usb.reg n = 0
  usbFsmState : σ.pipe.usbFsmState = .idle
  datasize : σ.pipe.datasize = 0
  dataoff : σ.pipe.dataoff = 0
  usbPmTop : σ.pipe.usbPmTop = 0
  usbNeedsZlp : σ.pipe.usbNeedsZlp = false
  usbForceNak : ∀ n < 8, σ.pipe.usbForceNak n = false
  usbCompleteCb : σ.pipe.usbCompleteCb = none
  usbdfuState : σ.dfu.usbdfuState = .dfuIdle
  addr : σ.dfu.prog.addr = 0
  len : σ.dfu.prog.len = 0
  blocknum : σ.dfu.prog.blocknum = 0
  buf : ∀ i < 1024, σ.dfu.prog.buf i = 0
  controlBuffer : ∀ i < 1024, σ.usbdControlBuffer i = 0
  erased : σ.dfu.erased = false
  flash : σ.flash.Idle
  log : σ.flash.log = []
  calls : σ.calls = []
  queued : σ.usb.queued = []

/-- A device that enters the loop over flash content `mem`, all other memory zero. -/
def Dev.fresh (mem : Nor.Cells 32) : Dev where
  usb := { reg := fun i => if i = usbCntrReg then 0x9C00 else 0, desc := fun _ => 0,
           pm := fun _ => 0, touched := [], queued := [] }
  pipe := { usbFsmState := .idle, datasize := 0, dataoff := 0, usbPmTop := 0, usbNeedsZlp := false,
            usbReq := ⟨0, 0, 0, 0, 0⟩, usbForceNak := fun _ => false, usbCompleteCb := none }
  usbdControlBuffer := fun _ => 0
  dfu := { usbdfuState := .dfuIdle, prog := ⟨fun _ => 0, 0, 0, 0⟩, erased := false }
  flash := { mem := mem, cr := ⟨true, false, false, false⟩, keyr := .idle, ar := 0, bsy := false,
             log := [] }
  calls := []

theorem Dev.fresh_boot (mem : Nor.Cells 32) : (Dev.fresh mem).Boot where
  cntr := rfl
  istr := rfl
  btable := rfl
  ep := fun n hn => if_neg (by simp only [usbCntrReg]; omega)
  usbFsmState := rfl
  datasize := rfl
  dataoff := rfl
  usbPmTop := rfl
  usbNeedsZlp := rfl
  usbForceNak := fun _ _ => rfl
  usbCompleteCb := rfl
  usbdfuState := rfl
  addr := rfl
  len := rfl
  blocknum := rfl
  buf := fun _ _ => rfl
  controlBuffer := fun _ _ => rfl
  erased := rfl
  flash := ⟨rfl, rfl, rfl⟩
  log := rfl
  calls := rfl
  queued := rfl

/-- The bootloader and the bus. -/
def machine (cfg : Config) : TSys Dev Event where
  init := Dev.Boot
  step := poll cfg

@[simp] theorem machine_step (cfg : Config) (σ : Dev) (e : Event) :
    (machine cfg).step σ e = poll cfg σ e := rfl

end LnDso
