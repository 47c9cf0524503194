import LnDso.Machine.Requests

/-!
# Control transfers (`usb.cpp`)

The SETUP, OUT and IN handlers of endpoint 0.
-/

namespace LnDso

open Lib UsbPeriph

/-- `sizeof(usbd_control_buffer)` -/
def controlBufferSize : Nat := dfuTransferSize

/-- `_needs_zlp` -/
def needsZlp (len wLength : Half) (epSize : Byte) : Bool :=
  decide (len < wLength) && (decide (len ≠ 0) && decide (len % epSize.setWidth 16 = 0))

/-- `_usb_control_setup_read` -/
def usbControlSetupRead (cfg : Config) (σ : Dev) : Dev :=
  let maxdataout := σ.pipe.usbReq.wLength
  -- Restart transmission counter
  let σ := { σ with pipe := { σ.pipe with dataoff := 0 } }
  match usbControlRequestDispatch cfg σ with
  | (.notsupp, σ) => stallTransaction σ
  | (_, σ) =>
    -- Truncate output
    let datasize := if maxdataout < σ.pipe.datasize then maxdataout else σ.pipe.datasize
    let σ := { σ with pipe := { σ.pipe with datasize := datasize } }
    if maxdataout ≠ 0 then
      usbControlSendChunk { σ with pipe := { σ.pipe with
        usbNeedsZlp := needsZlp datasize maxdataout bMaxPacketSize0 } }
    else (σ.writePacket0 (fun _ => 0) 0).setFsm .statusIn

/-- `_usb_control_setup_write` -/
def usbControlSetupWrite (σ : Dev) : Dev :=
  -- Stall EP if we have too much data?
  if controlBufferSize < σ.pipe.usbReq.wLength.toNat then stallTransaction σ
  else
    let σ := { σ with pipe := { σ.pipe with datasize := 0 } }
    -- Wait for DATA OUT stage.
    let σ := σ.setFsm
      (if bMaxPacketSize0.setWidth 16 < σ.pipe.usbReq.wLength then .dataOut else .lastDataOut)
    usbdEpNakSet 0 false σ

/-- The start of `_usbd_control_setup`: drop the callback, read the packet into
`usb_req`; the number of bytes read. -/
def readSetup (σ : Dev) : Half × Dev :=
  let σ := { σ with pipe := { σ.pipe with usbCompleteCb := none } }
  let σ := usbdEpNakSet 0 true σ
  let (size, req, u) := usbdEpReadPacket σ.pipe.usbForceNak 0 σ.pipe.usbReq.toMem 0 8 σ.usb
  (size, { σ with pipe := { σ.pipe with usbReq := UsbSetupData.ofMem req }, usb := u })

/-- `_usbd_control_setup` -/
def usbdControlSetup (cfg : Config) (σ : Dev) : Dev :=
  let (size, σ) := readSetup σ
  if size ≠ 8 then stallTransaction σ
  else
    let σ := σ.call (.setup σ.pipe.usbReq)
    if σ.pipe.usbReq.wLength = 0 ∨ σ.pipe.usbReq.DirIn then usbControlSetupRead cfg σ
    else usbControlSetupWrite σ

/-- Run the completion callback if one is registered. -/
def completeTransfer (cfg : Config) (stage : UsbFsmState) (σ : Dev) : Dev :=
  match σ.pipe.usbCompleteCb with
  | some cb => runComplete cfg cb stage σ
  | none => σ

/-- `_usbd_control_out` -/
def usbdControlOut (cfg : Config) (σ : Dev) : Dev :=
  match σ.pipe.usbFsmState with
  | .dataOut =>
    let (r, σ) := usbControlRecvChunk σ
    if r < 0 then σ
    -- Check for last packet
    else if σ.pipe.remaining ≤ bMaxPacketSize0.toNat then σ.setFsm .lastDataOut
    else σ
  | .lastDataOut =>
    let (r, σ) := usbControlRecvChunk σ
    if r < 0 then σ
    else
      -- We have now received the full data payload.
      match usbControlRequestDispatch cfg σ with
      | (.notsupp, σ) => stallTransaction σ
      | (_, σ) => (σ.writePacket0 (fun _ => 0) 0).setFsm .statusIn
  | .statusOut =>
    let (_, _, u) := usbdEpReadPacket σ.pipe.usbForceNak 0 (fun _ => 0) 0 0 σ.usb
    let σ := { σ with usb := u }.setFsm .idle
    let σ := completeTransfer cfg .statusOut σ
    { σ with pipe := { σ.pipe with usbCompleteCb := none } }
  | _ => stallTransaction σ

/-- `_usbd_control_in` -/
def usbdControlIn (cfg : Config) (σ : Dev) : Dev :=
  match σ.pipe.usbFsmState with
  | .dataIn => usbControlSendChunk σ
  | .lastDataIn => usbdEpNakSet 0 false (σ.setFsm .statusOut)
  | .statusIn =>
    let σ := completeTransfer cfg .statusIn σ
    -- Exception: Handle SET ADDRESS function here...
    let req := σ.pipe.usbReq
    let σ :=
      if req.bmRequestType = 0 ∧ req.bRequest = usbReqSetAddress then
        { σ with usb := σ.usb.setReg usbDaddrReg ((req.wValue &&& usbDaddrAddr) ||| usbDaddrEf) }
      else σ
    σ.setFsm .idle
  | _ => stallTransaction σ

end LnDso
