import LnDso.Hw.PacketMemory
import LnDso.Machine.FlashOps

/-!
# Types and globals (`usb.h`, `usb.cpp`, `dfu.cpp`)

The device state: the peripheral, the globals of the two source files, the
flash, and a record of what the firmware did (`calls`).
-/

namespace LnDso

open Lib

/-- `enum dfu_req` -/
inductive DfuReq
  | detach
  | dnload
  | upload
  | getstatus
  | clrstatus
  | getstate
  | abort
deriving DecidableEq

/-- The request a `bRequest` code names. -/
def DfuReq.ofByte (b : Byte) : Option DfuReq :=
  if b = 0 then some .detach
  else if b = 1 then some .dnload
  else if b = 2 then some .upload
  else if b = 3 then some .getstatus
  else if b = 4 then some .clrstatus
  else if b = 5 then some .getstate
  else if b = 6 then some .abort
  else none

/-- `enum dfu_state` -/
inductive DfuState
  | appIdle
  | appDetach
  | dfuIdle
  | dfuDnloadSync
  | dfuDnbusy
  | dfuDnloadIdle
  | dfuManifestSync
  | dfuManifest
  | dfuManifestWaitReset
  | dfuUploadIdle
  | dfuError
deriving DecidableEq

/-- The number of a state, as sent to the host. -/
def DfuState.toByte : DfuState → Byte
  | .appIdle => 0
  | .appDetach => 1
  | .dfuIdle => 2
  | .dfuDnloadSync => 3
  | .dfuDnbusy => 4
  | .dfuDnloadIdle => 5
  | .dfuManifestSync => 6
  | .dfuManifest => 7
  | .dfuManifestWaitReset => 8
  | .dfuUploadIdle => 9
  | .dfuError => 10

/-- `DFU_STATUS_OK` -/
def dfuStatusOk : Byte := 0

/-- `DFU_TRANSFER_SIZE` -/
def dfuTransferSize : Nat := 1024

/-- `enum usbd_request_return_codes` -/
inductive ReqCode
  | notsupp
  | handled
  | nextCallback
deriving DecidableEq

/-- `struct usb_setup_data` -/
structure UsbSetupData where
  bmRequestType : Byte
  bRequest : Byte
  wValue : Half
  wIndex : Half
  wLength : Half
deriving DecidableEq

namespace UsbSetupData

/-- The packed structure in memory. -/
def toMem (r : UsbSetupData) : Mem := fun i =>
  match i with
  | 0 => r.bmRequestType
  | 1 => r.bRequest
  | 2 => Half.lo r.wValue
  | 3 => Half.hi r.wValue
  | 4 => Half.lo r.wIndex
  | 5 => Half.hi r.wIndex
  | 6 => Half.lo r.wLength
  | 7 => Half.hi r.wLength
  | _ => 0

/-- The structure that memory holds. -/
def ofMem (m : Mem) : UsbSetupData where
  bmRequestType := m 0
  bRequest := m 1
  wValue := Half.ofBytes (m 2) (m 3)
  wIndex := Half.ofBytes (m 4) (m 5)
  wLength := Half.ofBytes (m 6) (m 7)

/-- The eight bytes of the packet on the bus. -/
def bytes (r : UsbSetupData) : List Byte := r.toMem.read 0 8

@[simp] theorem ofMem_toMem (r : UsbSetupData) : ofMem r.toMem = r := by
  simp [ofMem, toMem]

@[simp] theorem length_bytes (r : UsbSetupData) : r.bytes.length = 8 := Mem.length_read ..

/-- Storing the bytes of a packet over a structure yields the packet. -/
theorem ofMem_write_bytes (m : Mem) (r : UsbSetupData) : ofMem (m.write 0 r.bytes) = r := by
  have hw : ∀ i < 8, m.write 0 r.bytes i = r.toMem i := fun i hi => by
    rw [Mem.write_apply, if_pos (by omega), bytes, Mem.getElem?_read, if_pos (by omega),
      Option.getD_some]
    simp
  have hmem : ofMem (m.write 0 r.bytes) = ofMem r.toMem := by
    unfold ofMem
    rw [hw 0 (by decide), hw 1 (by decide), hw 2 (by decide), hw 3 (by decide), hw 4 (by decide),
      hw 5 (by decide), hw 6 (by decide), hw 7 (by decide)]
  exact hmem.trans (ofMem_toMem r)

/-- Direction bit of `bmRequestType`: device to host. -/
def DirIn (r : UsbSetupData) : Prop := r.bmRequestType &&& 0x80 ≠ 0

instance (r : UsbSetupData) : Decidable r.DirIn := inferInstanceAs (Decidable (_ ≠ _))

end UsbSetupData

def usbReqTypeType : Byte := 0x60
def usbReqTypeStandard : Byte := 0x00
def usbReqTypeClass : Byte := 0x20
def usbReqTypeRecipient : Byte := 0x1F
def usbReqTypeDevice : Byte := 0x00
def usbReqTypeInterface : Byte := 0x01
def usbReqTypeEndpoint : Byte := 0x02

def usbReqGetStatus : Byte := 0
def usbReqClearFeature : Byte := 1
def usbReqSetFeature : Byte := 3
def usbReqSetAddress : Byte := 5
def usbReqGetDescriptor : Byte := 6
def usbReqGetConfiguration : Byte := 8
def usbReqSetConfiguration : Byte := 9
def usbReqGetInterface : Byte := 10
def usbReqSetInterface : Byte := 11

def usbDtDevice : Byte := 1
def usbDtConfiguration : Byte := 2
def usbDtString : Byte := 3
def usbDtInterface : Byte := 4
def dfuFunctional : Byte := 0x21

def usbFeatEndpointHalt : Half := 0
def usbLangidEnglishUs : Half := 0x409

/-- The USB FSM state. -/
inductive UsbFsmState
  | idle
  | stalled
  | dataIn
  | lastDataIn
  | statusIn
  | dataOut
  | lastDataOut
  | statusOut
deriving DecidableEq

/-- The functions `usb_complete_cb` can point to. -/
inductive CompleteCb
  | usbdfuGetstatusComplete
deriving DecidableEq

/-- Globals of `usb.cpp`. -/
structure Pipe where
  usbFsmState : UsbFsmState
  datasize : Half
  dataoff : Half
  usbPmTop : Half
  usbNeedsZlp : Bool
  usbReq : UsbSetupData
  usbForceNak : Nat → Bool
  usbCompleteCb : Option CompleteCb

/-- `prog` of `dfu.cpp`. -/
structure Prog where
  buf : Mem
  len : Half
  addr : Word
  blocknum : Half

/-- The bytes downloaded, `prog.buf[0..prog.len)`. -/
def Prog.data (p : Prog) : List Byte := p.buf.read 0 p.len.toNat

/-- Statics of `dfu.cpp`, with the flag of `check_do_erase`. -/
structure Dfu where
  usbdfuState : DfuState
  prog : Prog
  erased : Bool

/-- A downloaded block as it was accepted. -/
structure Block where
  blocknum : Half
  len : Half
  data : List Byte
deriving DecidableEq

/-- The block `prog` holds. -/
def Prog.block (p : Prog) : Block := ⟨p.blocknum, p.len, p.data⟩

/-- What the firmware did. -/
inductive Call
  /-- `_usbd_control_setup` has read a SETUP packet. -/
  | setup (req : UsbSetupData)
  /-- `usb_control_request_dispatch` is entered, with the control buffer it finds. -/
  | dispatch (req : UsbSetupData) (buf : Mem)
  /-- DFU_DNLOAD with data is accepted. -/
  | dnload (b : Block)
  /-- DFU_UPLOAD stages bytes of flash; whether the wipe had run by then. -/
  | upload (erased : Bool)
  /-- DFU_GETSTATUS registers the completion callback. -/
  | getstatus
  /-- A status stage that ends in state `stage` calls the completion callback. -/
  | complete (stage : UsbFsmState)
  /-- The DNBUSY branch of `usbdfu_getstatus_complete` runs on the block. -/
  | dnbusy (b : Block)
  /-- `usb_control_send_chunk` hands `len` bytes at `off` to the endpoint. -/
  | send (off len : Nat)
  /-- `_stall_transaction` -/
  | stall

/-- The device. -/
structure Dev where
  usb : UsbPeriph
  pipe : Pipe
  /-- `usbd_control_buffer`, then the RAM after it. -/
  usbdControlBuffer : Mem
  dfu : Dfu
  flash : Flash
  calls : List Call

namespace Dev

/-- Record a call. -/
def call (c : Call) (σ : Dev) : Dev := { σ with calls := σ.calls ++ [c] }

def setFsm (s : UsbFsmState) (σ : Dev) : Dev := { σ with pipe := { σ.pipe with usbFsmState := s } }

def setDfuState (s : DfuState) (σ : Dev) : Dev :=
  { σ with dfu := { σ.dfu with usbdfuState := s } }

/-- Stage a reply: its first bytes and its length. -/
def reply (bytes : List Byte) (len : Half) (σ : Dev) : Dev :=
  { σ with usbdControlBuffer := σ.usbdControlBuffer.write 0 bytes
           pipe := { σ.pipe with datasize := len } }

@[simp] theorem call_usb (c : Call) (σ : Dev) : (σ.call c).usb = σ.usb := rfl
@[simp] theorem call_pipe (c : Call) (σ : Dev) : (σ.call c).pipe = σ.pipe := rfl
@[simp] theorem call_buffer (c : Call) (σ : Dev) :
    (σ.call c).usbdControlBuffer = σ.usbdControlBuffer := rfl
@[simp] theorem call_dfu (c : Call) (σ : Dev) : (σ.call c).dfu = σ.dfu := rfl
@[simp] theorem call_flash (c : Call) (σ : Dev) : (σ.call c).flash = σ.flash := rfl
@[simp] theorem call_calls (c : Call) (σ : Dev) : (σ.call c).calls = σ.calls ++ [c] := rfl

@[simp] theorem setFsm_usb (s : UsbFsmState) (σ : Dev) : (σ.setFsm s).usb = σ.usb := rfl
@[simp] theorem setFsm_pipe (s : UsbFsmState) (σ : Dev) :
    (σ.setFsm s).pipe = { σ.pipe with usbFsmState := s } := rfl
@[simp] theorem setFsm_buffer (s : UsbFsmState) (σ : Dev) :
    (σ.setFsm s).usbdControlBuffer = σ.usbdControlBuffer := rfl
@[simp] theorem setFsm_dfu (s : UsbFsmState) (σ : Dev) : (σ.setFsm s).dfu = σ.dfu := rfl
@[simp] theorem setFsm_flash (s : UsbFsmState) (σ : Dev) : (σ.setFsm s).flash = σ.flash := rfl
@[simp] theorem setFsm_calls (s : UsbFsmState) (σ : Dev) : (σ.setFsm s).calls = σ.calls := rfl

@[simp] theorem setDfuState_usb (s : DfuState) (σ : Dev) : (σ.setDfuState s).usb = σ.usb := rfl
@[simp] theorem setDfuState_pipe (s : DfuState) (σ : Dev) :
    (σ.setDfuState s).pipe = σ.pipe := rfl
@[simp] theorem setDfuState_buffer (s : DfuState) (σ : Dev) :
    (σ.setDfuState s).usbdControlBuffer = σ.usbdControlBuffer := rfl
@[simp] theorem setDfuState_dfu (s : DfuState) (σ : Dev) :
    (σ.setDfuState s).dfu = { σ.dfu with usbdfuState := s } := rfl
@[simp] theorem setDfuState_flash (s : DfuState) (σ : Dev) :
    (σ.setDfuState s).flash = σ.flash := rfl
@[simp] theorem setDfuState_calls (s : DfuState) (σ : Dev) :
    (σ.setDfuState s).calls = σ.calls := rfl

@[simp] theorem reply_usb (bs : List Byte) (n : Half) (σ : Dev) : (σ.reply bs n).usb = σ.usb := rfl
@[simp] theorem reply_pipe (bs : List Byte) (n : Half) (σ : Dev) :
    (σ.reply bs n).pipe = { σ.pipe with datasize := n } := rfl
@[simp] theorem reply_buffer (bs : List Byte) (n : Half) (σ : Dev) :
    (σ.reply bs n).usbdControlBuffer = σ.usbdControlBuffer.write 0 bs := rfl
@[simp] theorem reply_dfu (bs : List Byte) (n : Half) (σ : Dev) : (σ.reply bs n).dfu = σ.dfu := rfl
@[simp] theorem reply_flash (bs : List Byte) (n : Half) (σ : Dev) :
    (σ.reply bs n).flash = σ.flash := rfl
@[simp] theorem reply_calls (bs : List Byte) (n : Half) (σ : Dev) :
    (σ.reply bs n).calls = σ.calls := rfl

end Dev

end LnDso
