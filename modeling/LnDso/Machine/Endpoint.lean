import LnDso.Machine.State

/-!
# Packet helpers and chunked transfers (`usb.cpp`)
-/

namespace LnDso

open Lib UsbPeriph

/-- `dev_desc.bMaxPacketSize0` -/
def bMaxPacketSize0 : Byte := 64

/-- `_usbd_ep_write_packet`: queue a packet unless one is already on offer. -/
def usbdEpWritePacket (addr : Byte) (buf : Mem) (len : Half) (u : UsbPeriph) : Half × UsbPeriph :=
  let ep := (addr &&& 0x7F).toNat
  let u := u.touch ep
  if u.getReg ep &&& usbEpTxStat = usbEpTxStatValid then (0, u)
  else
    let u := { u with pm := stUsbfsCopyToPm (usbGetEpTxBuff ep u) buf len u.pm }
    let u := usbSetEpTxCount ep len u
    let u := usbSetEpTxStat ep usbEpTxStatValid u
    (len, { u with queued := u.queued ++ [u.txPacket ep] })

/-- `_usbd_ep_read_packet`: at most `len` bytes to `buf + off`; the number of
bytes read and the memory after. -/
def usbdEpReadPacket (forceNak : Nat → Bool) (addr : Byte) (buf : Mem) (off : Nat) (len : Half)
    (u : UsbPeriph) : Half × Mem × UsbPeriph :=
  let ep := addr.toNat
  let u := u.touch ep
  if u.getReg ep &&& usbEpRxStat = usbEpRxStatValid then (0, buf, u)
  else
    let count := usbGetEpRxCount ep u &&& 0x3ff
    let len := if count < len then count else len
    let buf := stUsbfsCopyFromPm buf off u.pm (usbGetEpRxBuff ep u) len
    let u := usbClrEpRxCtr ep u
    let u := if forceNak ep then u else usbSetEpRxStat ep usbEpRxStatValid u
    (len, buf, u)

/-- `_usbd_ep_nak_set` -/
def usbdEpNakSet (addr : Byte) (nak : Bool) (σ : Dev) : Dev :=
  -- It does not make sense to force NAK on IN endpoints.
  if addr &&& 0x80 ≠ 0 then σ
  else
    { σ with
      pipe := { σ.pipe with usbForceNak := Function.update σ.pipe.usbForceNak addr.toNat nak }
      usb := usbSetEpRxStat addr.toNat (if nak then usbEpRxStatNak else usbEpRxStatValid) σ.usb }

/-- `_ep_stall_set` -/
def epStallSet (addr : Byte) (stall : Bool) (u : UsbPeriph) : UsbPeriph :=
  let txStat := if stall then usbEpTxStatStall else usbEpTxStatNak
  let rxStat := if stall then usbEpRxStatStall else usbEpRxStatValid
  let u := if addr = 0 then usbSetEpTxStat addr.toNat txStat u else u
  if addr &&& 0x80 ≠ 0 then
    let ep := (addr &&& 0x7F).toNat
    let u := usbSetEpTxStat ep txStat u
    -- Reset to DATA0 if clearing stall condition.
    if stall then u else usbClrEpTxDtog ep u
  else
    -- Reset to DATA0 if clearing stall condition.
    let u := if stall then u else usbClrEpRxDtog addr.toNat u
    usbSetEpRxStat addr.toNat rxStat u

/-- `_ep_stall_get` -/
def epStallGet (addr : Byte) (u : UsbPeriph) : Bool × UsbPeriph :=
  if addr &&& 0x80 ≠ 0 then
    let ep := (addr &&& 0x7F).toNat
    (decide (u.getReg ep &&& usbEpTxStat = usbEpTxStatStall), u.touch ep)
  else
    let ep := addr.toNat
    (decide (u.getReg ep &&& usbEpRxStat = usbEpRxStatStall), u.touch ep)

/-- `_stall_transaction` -/
def stallTransaction (σ : Dev) : Dev :=
  ({ σ with usb := epStallSet 0 true σ.usb }.setFsm .idle).call .stall

/-- Queue a packet of endpoint 0 from `buf`. -/
def Dev.writePacket0 (buf : Mem) (len : Half) (σ : Dev) : Dev :=
  { σ with usb := (usbdEpWritePacket 0 buf len σ.usb).2 }

/-- `usb_control_send_chunk`: sends or keeps sending data to host. -/
def usbControlSendChunk (σ : Dev) : Dev :=
  let chunk := σ.usbdControlBuffer.from_ σ.pipe.dataoff.toNat
  let max : Half := bMaxPacketSize0.setWidth 16
  if max < σ.pipe.datasize then
    -- Data stage, normal transmission
    let σ := (σ.writePacket0 chunk max).call (.send σ.pipe.dataoff.toNat max.toNat)
    { σ with pipe := { σ.pipe with
        usbFsmState := .dataIn
        dataoff := σ.pipe.dataoff + max
        datasize := σ.pipe.datasize - max } }
  else
    -- Data stage, end of transmission
    let σ := (σ.writePacket0 chunk σ.pipe.datasize).call
      (.send σ.pipe.dataoff.toNat σ.pipe.datasize.toNat)
    { σ with pipe := { σ.pipe with
        usbFsmState := if σ.pipe.usbNeedsZlp then .dataIn else .lastDataIn
        usbNeedsZlp := false
        datasize := 0 } }

/-- `usb_req.wLength - datasize`, an `int`. -/
def Pipe.remaining (p : Pipe) : Int := p.usbReq.wLength.toNat - p.datasize.toNat

/-- `usb_control_recv_chunk`: receives data from host; -1 after a stall. -/
def usbControlRecvChunk (σ : Dev) : Int × Dev :=
  let packetsize : Half := BitVec.ofInt 16 (min (bMaxPacketSize0.toNat : Int) σ.pipe.remaining)
  let (size, buf, u) := usbdEpReadPacket σ.pipe.usbForceNak 0 σ.usbdControlBuffer
    σ.pipe.datasize.toNat packetsize σ.usb
  let σ := { σ with usbdControlBuffer := buf, usb := u }
  if size ≠ packetsize then (-1, stallTransaction σ)
  else
    ((packetsize.toNat : Int),
      { σ with pipe := { σ.pipe with datasize := σ.pipe.datasize + size } })

end LnDso
