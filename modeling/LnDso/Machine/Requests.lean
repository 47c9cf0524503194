import LnDso.Machine.Endpoint
import LnDso.Machine.Dfu

/-!
# Descriptors, standard requests and dispatch (`usb.cpp`)
-/

namespace LnDso

open Lib UsbPeriph

/-! ## Descriptors -/

/-- A little-endian half-word of a descriptor. -/
def le16 (h : Half) : List Byte := [Half.lo h, Half.hi h]

/-- `dev_desc` -/
def devDesc : List Byte :=
  [18, usbDtDevice] ++ le16 0x0200 ++ [0, 0, 0, bMaxPacketSize0] ++ le16 0x1d50 ++ le16 0x6021 ++
    le16 0x0200 ++ [1, 2, 3, 1]

/-- `config_desc.config.bConfigurationValue` -/
def bConfigurationValue : Byte := 1

def usbDfuCanDownload : Byte := 0x01
def usbDfuCanUpload : Byte := 0x02
def usbDfuWillDetach : Byte := 0x08

/-- `config_desc`: configuration, interface and DFU function descriptors. -/
def configDesc (cfg : Config) : List Byte :=
  [9, usbDtConfiguration] ++ le16 27 ++ [1, bConfigurationValue, 5, 0xC0, 0x32] ++
    [9, usbDtInterface, 0, 0, 0, 0xFE, 1, 2, 4] ++
    [9, dfuFunctional, (if cfg.enableDfuUpload then usbDfuCanUpload else 0) |||
      usbDfuCanDownload ||| usbDfuWillDetach] ++
    le16 255 ++ le16 (BitVec.ofNat 16 dfuTransferSize) ++ le16 0x011A

/-- The characters of a C string literal. -/
def cString (s : String) : List Byte := s.toList.map fun c => BitVec.ofNat 8 c.toNat

/-- `strlen` -/
def strlen (s : List Byte) : Nat := (s.takeWhile (· ≠ 0)).length

/-- `hcharset` -/
def hcharset : List Byte := cString "0123456789abcdef"

/-- `get_dev_unique_id`: the serial number, two digits a byte of the chip's
unique identifier. -/
def getDevUniqueId (cfg : Config) : List Byte :=
  cString "DSO150" ++ (List.finRange 9).flatMap fun i =>
    [hcharset.getD (cfg.uniqueId i / 16).toNat 0, hcharset.getD (cfg.uniqueId i % 16).toNat 0]

/-- `_usb_strings` -/
def usbStrings (cfg : Config) : List (List Byte) :=
  [ cString "davidgf.net (libopencm3 based)",
    cString ("lnDSO bootloader [" ++ cfg.version ++ "]"),
    getDevUniqueId cfg,
    cString ("@Internal Flash /0x08000000/" ++ toString cfg.bootldrSizeKb ++ "*001Ka," ++
      toString cfg.payloadSizeKb ++ "*001Kg"),
    cString ("Bootloader config: " ++
      (match cfg.enableWatchdog with
        | some s => "WtDg[" ++ toString s ++ "s] "
        | none => "") ++
      (if cfg.enableSafewrite then "SafeWr " else "") ++
      (if cfg.enableProtections then "RDO/DBG " else "") ++
      (if cfg.enableChecksum then "FW-CRC " else "")) ]

/-- The bytes of a string descriptor over the half-words `wData`; `bLength` is
the length modulo 256. -/
def stringDescriptor (wData : List Half) : List Byte :=
  [BitVec.ofNat 8 (wData.length * 2 + 2), usbDtString] ++ wData.flatMap le16

/-- Stage a string descriptor; `datasize` takes the value of `bLength`. -/
def replyString (wData : List Half) (σ : Dev) : Dev :=
  σ.reply (stringDescriptor wData) ((BitVec.ofNat 8 (wData.length * 2 + 2)).setWidth 16)

/-- `usb_standard_get_descriptor` -/
def usbStandardGetDescriptor (cfg : Config) (σ : Dev) : ReqCode × Dev :=
  let descrIdx := Half.lo σ.pipe.usbReq.wValue
  let descrType := Half.hi σ.pipe.usbReq.wValue
  if descrType = usbDtDevice then
    (.handled, σ.reply devDesc (BitVec.ofNat 16 devDesc.length))
  else if descrType = usbDtConfiguration then
    (.handled, σ.reply (configDesc cfg) (BitVec.ofNat 16 (configDesc cfg).length))
  else if descrType = usbDtString then
    let σ := { σ with usbdControlBuffer := σ.usbdControlBuffer.write 1 [usbDtString] }
    if descrIdx = 0 then
      -- Send sane Language ID descriptor...
      (.handled, replyString [usbLangidEnglishUs] σ)
    else
      match (usbStrings cfg)[descrIdx.toNat - 1]? with
      -- Check that string index is in range.
      | none => (.notsupp, σ)
      | some s =>
        -- Strings with another Language ID are not supported.
        if σ.pipe.usbReq.wIndex ≠ usbLangidEnglishUs then (.notsupp, σ)
        else (.handled, replyString ((s.take (strlen s)).map (·.setWidth 16)) σ)
  else (.notsupp, σ)

/-! ## Standard requests -/

/-- The loop of SET_CONFIGURATION: endpoints `i` to 7 are disabled. -/
def resetEndpoints : (n i : Nat) → UsbPeriph → UsbPeriph
  | 0, _, u => u
  | n + 1, i, u =>
      resetEndpoints n (i + 1)
        (usbSetEpRxStat i usbEpRxStatDisabled (usbSetEpTxStat i usbEpTxStatDisabled u))

/-- `USBD_PM_TOP` -/
def usbdPmTop : Half := 0x40

/-- `_usbd_standard_request_device` -/
def usbdStandardRequestDevice (cfg : Config) (σ : Dev) : ReqCode × Dev :=
  let req := σ.pipe.usbReq
  if req.bRequest = usbReqSetAddress then
    -- The actual address is only latched at the STATUS IN stage.
    if req.bmRequestType ≠ 0 ∨ 128 ≤ req.wValue then (.notsupp, σ) else (.handled, σ)
  else if req.bRequest = usbReqSetConfiguration then
    if req.wValue = bConfigurationValue.setWidth 16 then
      (.handled, { σ with
        usb := resetEndpoints 7 1 σ.usb
        pipe := { σ.pipe with usbPmTop := usbdPmTop + 2 * bMaxPacketSize0.setWidth 16 } })
    else (.notsupp, σ)
  else if req.bRequest = usbReqGetConfiguration then (.handled, σ.reply [1] 1)
  else if req.bRequest = usbReqGetDescriptor then usbStandardGetDescriptor cfg σ
  -- GET_STATUS always responds with zero reply.
  else if req.bRequest = usbReqGetStatus then (.handled, σ.reply [0, 0] 2)
  else (.notsupp, σ)

/-- `_usbd_standard_request_interface` -/
def usbdStandardRequestInterface (σ : Dev) : ReqCode × Dev :=
  let req := σ.pipe.usbReq
  if req.bRequest = usbReqGetInterface then (.handled, σ.reply [1] 1)
  else if req.bRequest = usbReqSetInterface then (.handled, σ.reply [] 0)
  -- The reply is staged, then the request refused.
  else if req.bRequest = usbReqGetStatus then (.notsupp, σ.reply [0, 0] 2)
  else (.notsupp, σ)

/-- `_usbd_standard_request_endpoint`; the endpoint is the low byte of wIndex. -/
def usbdStandardRequestEndpoint (σ : Dev) : ReqCode × Dev :=
  let req := σ.pipe.usbReq
  if req.bRequest = usbReqClearFeature ∨ req.bRequest = usbReqSetFeature then
    if req.wValue = usbFeatEndpointHalt then
      (.handled, { σ with
        usb := epStallSet (Half.lo req.wIndex) (decide (req.bRequest = usbReqSetFeature)) σ.usb })
    else (.notsupp, σ)
  else if req.bRequest = usbReqGetStatus then
    let (stalled, u) := epStallGet (Half.lo req.wIndex) σ.usb
    (.handled, { σ with usb := u }.reply [if stalled then 1 else 0, 0] 2)
  else (.notsupp, σ)

/-- `_usbd_standard_request` -/
def usbdStandardRequest (cfg : Config) (σ : Dev) : ReqCode × Dev :=
  let req := σ.pipe.usbReq
  if req.bmRequestType &&& usbReqTypeType ≠ usbReqTypeStandard then (.notsupp, σ)
  else if req.bmRequestType &&& usbReqTypeRecipient = usbReqTypeDevice then
    usbdStandardRequestDevice cfg σ
  else if req.bmRequestType &&& usbReqTypeRecipient = usbReqTypeInterface then
    usbdStandardRequestInterface σ
  else if req.bmRequestType &&& usbReqTypeRecipient = usbReqTypeEndpoint then
    usbdStandardRequestEndpoint σ
  else (.notsupp, σ)

/-! ## Dispatch -/

/-- The filter of `usb_control_request_dispatch`: class requests to the interface. -/
def UsbSetupData.ClassInterface (r : UsbSetupData) : Prop :=
  r.bmRequestType &&& (usbReqTypeType ||| usbReqTypeRecipient) =
    usbReqTypeClass ||| usbReqTypeInterface

instance (r : UsbSetupData) : Decidable r.ClassInterface := inferInstanceAs (Decidable (_ = _))

/-- `usb_control_request_dispatch` -/
def usbControlRequestDispatch (cfg : Config) (σ : Dev) : ReqCode × Dev :=
  let σ := σ.call (.dispatch σ.pipe.usbReq σ.usbdControlBuffer)
  if σ.pipe.usbReq.ClassInterface then
    let σ := { σ with pipe := { σ.pipe with datasize := σ.pipe.usbReq.wLength } }
    match usbdfuControlRequest cfg σ with
    -- Try standard request if not already handled.
    | (.nextCallback, σ) => usbdStandardRequest cfg σ
    | (result, σ) => (result, σ)
  else usbdStandardRequest cfg σ

end LnDso
