import LnDso.Machine.State

/-!
# The DFU request handler and completion callback (`dfu.cpp`)
-/

namespace LnDso

open Lib

/-- `CMD_SETADDR` -/
def cmdSetaddr : Byte := 0x21

/-- `CMD_ERASE` -/
def cmdErase : Byte := 0x41

/-- `baseaddr >= start_addr && baseaddr + len <= end_addr`, with the sum taken
modulo 2^32: the shape of all three address guards. -/
def addrGuard (cfg : Config) (baseaddr len : Word) : Bool :=
  decide (cfg.startAddr ≤ baseaddr) && decide (baseaddr + len ≤ cfg.endAddr)

/-- The guard of CMD_ERASE. -/
def eraseGuard (cfg : Config) (baseaddr : Word) : Bool :=
  addrGuard cfg baseaddr (BitVec.ofNat 32 dfuTransferSize)

/-- The guard of a data block. -/
def blockGuard (cfg : Config) (baseaddr : Word) (len : Half) : Bool :=
  addrGuard cfg baseaddr (len.setWidth 32)

/-- The guard of DFU_UPLOAD. -/
def uploadGuard (cfg : Config) (baseaddr : Word) : Bool :=
  addrGuard cfg baseaddr (BitVec.ofNat 32 dfuTransferSize)

/-- Address_Pointer + ((wBlockNum - 2) * wTransferSize): the offset is an `int`,
the sum wraps modulo 2^32. -/
def blockAddr (addr : Word) (blocknum : Half) : Word :=
  addr + BitVec.ofInt 32 (((blocknum.toNat : Int) - 2) * dfuTransferSize)

/-- `usbdfu_getstatus`: the status, the poll timeout and the next state. -/
def usbdfuGetstatus (s : DfuState) : Byte × Word × DfuState :=
  match s with
  | .dfuDnloadSync => (dfuStatusOk, 100, .dfuDnbusy)
  -- Device will reset when read is complete.
  | .dfuManifestSync => (dfuStatusOk, 0, .dfuManifest)
  -- The state number goes out as the status.
  | .dfuError => (DfuState.dfuError.toByte, 0, .dfuError)
  | s => (dfuStatusOk, 0, s)

/-- `check_do_erase` where the build has it. -/
def safewriteErase (cfg : Config) (σ : Dev) : Dev :=
  if cfg.enableSafewrite then
    let (erased, fl) := checkDoErase cfg σ.dfu.erased σ.flash
    { σ with dfu := { σ.dfu with erased := erased }, flash := fl }
  else σ

/-- The address operand of a command, little endian. -/
def Prog.operand (p : Prog) : Word := p.buf.word 1

/-- DNBUSY on block number 0: a command. -/
def dnbusyCommand (cfg : Config) (σ : Dev) : Dev :=
  if σ.dfu.prog.buf 0 = cmdErase then
    let σ := safewriteErase cfg σ
    -- Clear this page here.
    let baseaddr := σ.dfu.prog.operand
    if eraseGuard cfg baseaddr then { σ with flash := flashEraseIfNeeded baseaddr σ.flash } else σ
  else if σ.dfu.prog.buf 0 = cmdSetaddr then
    { σ with dfu := { σ.dfu with prog := { σ.dfu.prog with addr := σ.dfu.prog.operand } } }
  else σ

/-- DNBUSY on any other block number: a data block. -/
def dnbusyBlock (cfg : Config) (σ : Dev) : Dev :=
  let σ := safewriteErase cfg σ
  let prog := σ.dfu.prog
  let baseaddr := blockAddr prog.addr prog.blocknum
  if blockGuard cfg baseaddr prog.len then
    -- Program buffer in one go after erasing.
    let fl := flashEraseIfNeeded baseaddr σ.flash
    { σ with flash := flashProgramBuffer cfg.reprogram baseaddr prog.buf prog.len.toNat fl }
  else σ

/-- `usbdfu_getstatus_complete` -/
def usbdfuGetstatusComplete (cfg : Config) (σ : Dev) : Dev :=
  match σ.dfu.usbdfuState with
  | .dfuDnbusy =>
      let σ := σ.call (.dnbusy σ.dfu.prog.block)
      let σ := { σ with flash := flashUnlock σ.flash }
      let σ := if σ.dfu.prog.blocknum = 0 then dnbusyCommand cfg σ else dnbusyBlock cfg σ
      let σ := { σ with flash := flashLock σ.flash }
      -- Jump straight to dfuDNLOAD-IDLE, skipping dfuDNLOAD-SYNC.
      σ.setDfuState .dfuDnloadIdle
  | _ => σ

/-- Call the completion callback, from a status stage that ends in `stage`. -/
def runComplete (cfg : Config) (cb : CompleteCb) (stage : UsbFsmState) (σ : Dev) : Dev :=
  match cb with
  | .usbdfuGetstatusComplete => usbdfuGetstatusComplete cfg (σ.call (.complete stage))

/-! ## Requests -/

/-- DFU_DNLOAD; `*len` is `datasize`. -/
def dfuDnload (σ : Dev) : Dev :=
  if σ.pipe.datasize = 0 then
    -- wLength = 0 means leave DFU
    σ.setDfuState .dfuManifestSync
  else
    -- Copy download data for use on GET_STATUS.
    let len : Half :=
      if 1024 < σ.pipe.datasize then BitVec.ofNat 16 dfuTransferSize else σ.pipe.datasize
    let prog : Prog := { σ.dfu.prog with
      blocknum := σ.pipe.usbReq.wValue
      len := len
      buf := σ.dfu.prog.buf.write 0 (σ.usbdControlBuffer.read 0 len.toNat) }
    let σ := { σ with dfu := { σ.dfu with prog := prog, usbdfuState := .dfuDnloadSync } }
    σ.call (.dnload σ.dfu.prog.block)

/-- The byte loads of the upload copy, `n` to go from offset `i`. -/
def uploadLoads (baseaddr : Word) : (n i : Nat) → Flash → Flash
  | 0, _, fl => fl
  | n + 1, i, fl => uploadLoads baseaddr n (i + 1) (fl.record (.copy (baseaddr + BitVec.ofNat 32 i)))

/-- DFU_UPLOAD of a block, where the build has it. -/
def dfuUploadBlock (cfg : Config) (σ : Dev) : Dev :=
  let baseaddr := blockAddr σ.dfu.prog.addr σ.pipe.usbReq.wValue
  if uploadGuard cfg baseaddr then
    let bytes := (List.range dfuTransferSize).map fun i =>
      σ.flash.mem (baseaddr + BitVec.ofNat 32 i)
    let σ := { σ with flash := uploadLoads baseaddr dfuTransferSize 0 σ.flash }
    (σ.reply bytes (BitVec.ofNat 16 dfuTransferSize)).call (.upload σ.dfu.erased)
  else (σ.setDfuState .dfuError).reply [] 0

/-- DFU_UPLOAD -/
def dfuUpload (cfg : Config) (σ : Dev) : Dev :=
  let σ := σ.setDfuState .dfuUploadIdle
  if σ.pipe.usbReq.wValue = 0 then
    -- Send back supported commands.
    σ.reply [0x00, cmdSetaddr, cmdErase] 3
  else if cfg.enableDfuUpload then dfuUploadBlock cfg σ
  else (σ.setDfuState .dfuError).reply [] 0

/-- DFU_GETSTATUS: perform the action and register the completion callback. -/
def dfuGetstatus (σ : Dev) : Dev :=
  let (status, bwPollTimeout, s) := usbdfuGetstatus σ.dfu.usbdfuState
  let σ := σ.setDfuState s
  let σ := σ.reply [status, Word.byte bwPollTimeout 0, Word.byte bwPollTimeout 1,
    Word.byte bwPollTimeout 2, s.toByte, 0] 6
  { σ with pipe := { σ.pipe with usbCompleteCb := some .usbdfuGetstatusComplete } }.call .getstatus

/-- `usbdfu_control_request` -/
def usbdfuControlRequest (cfg : Config) (σ : Dev) : ReqCode × Dev :=
  match DfuReq.ofByte σ.pipe.usbReq.bRequest with
  | some .dnload => (.handled, dfuDnload σ)
  | some .clrstatus =>
      -- Just clears errors.
      (.handled, if σ.dfu.usbdfuState = .dfuError then σ.setDfuState .dfuIdle else σ)
  | some .abort =>
      -- Abort just returns to IDLE state.
      (.handled, σ.setDfuState .dfuIdle)
  | some .detach => (.handled, σ.setDfuState .dfuManifest)
  | some .upload => (.handled, dfuUpload cfg σ)
  | some .getstatus => (.handled, dfuGetstatus σ)
  | some .getstate =>
      -- Return state with no state transision.
      (.handled, σ.reply [σ.dfu.usbdfuState.toByte] 1)
  | none => (.nextCallback, σ)

end LnDso
