import LnDso.Lib.Service
import LnDso.Logic.Exchange
import LnDso.Theorems.Commands
import LnDso.Theorems.UploadBack

/-!
# The bootloader as a DFU server

What the bootloader is to its host: a server that answers whole DFU requests.
It remembers a phase, a command that waits for its GETSTATUS, the address pointer
and the flash, and nothing of packets, endpoint registers or the transfer FSM.
-/

namespace LnDso

open Lib Lib.Packets FlashCmd

/-! ## The server -/

/-- What the server waits for. -/
inductive Phase
  | idle
  /-- A command was downloaded; the next GETSTATUS carries it out. -/
  | waiting (c : FlashCmd)
  | downloading
  | leaving
  | left
  | uploading
  | error

/-- The DFU state of a phase, between two requests. -/
def Phase.state : Phase → DfuState
  | .idle => .dfuIdle
  | .waiting _ => .dfuDnloadSync
  | .downloading => .dfuDnloadIdle
  | .leaving => .dfuManifestSync
  | .left => .dfuManifest
  | .uploading => .dfuUploadIdle
  | .error => .dfuError

structure DfuServer where
  phase : Phase
  store : Store

/-- The number of bytes a read asks for. -/
abbrev Asked := { w : Half // w ≠ 0 }

/-- A DFU request as the host sends it; `v` and `i` are wValue and wIndex where
they mean nothing. -/
inductive DfuRequest
  | download (c : FlashCmd) (i : Half)
  | leave (v i : Half)
  | getstatus (v i : Half) (w : Asked)
  | upload (n i : Half) (w : Asked)
  | getstate (v i : Half) (w : Asked)
  | clrstatus (v i : Half)
  | abort (v i : Half)
  | detach (v i : Half)

/-- The SETUP packet of a request. -/
def DfuRequest.setup : DfuRequest → UsbSetupData
  | .download c i => c.download.request i
  | .leave v i => ⟨0x21, 1, v, i, 0⟩
  | .getstatus v i w => ⟨0xA1, 3, v, i, w⟩
  | .upload n i w => ⟨0xA1, 2, n, i, w⟩
  | .getstate v i w => ⟨0xA1, 5, v, i, w⟩
  | .clrstatus v i => ⟨0x21, 4, v, i, 0⟩
  | .abort v i => ⟨0x21, 6, v, i, 0⟩
  | .detach v i => ⟨0x21, 0, v, i, 0⟩

namespace DfuServer

/-- The status that GETSTATUS reports: a command is about to be carried out, in
100 ms; the device is about to leave; or nothing changes. -/
def status : Phase → List Byte
  | .waiting _ => [0, 100, 0, 0, DfuState.dfuDnbusy.toByte, 0]
  | .leaving => [0, 0, 0, 0, DfuState.dfuManifest.toByte, 0]
  | .error => [DfuState.dfuError.toByte, 0, 0, 0, DfuState.dfuError.toByte, 0]
  | phase => [0, 0, 0, 0, phase.state.toByte, 0]

/-- The block can be read back. -/
def Reads (cfg : Config) (s : DfuServer) (n : Half) : Prop :=
  cfg.enableDfuUpload = true ∧ uploadGuard cfg (blockAddr s.store.addr n) = true

instance (cfg : Config) (s : DfuServer) (n : Half) : Decidable (s.Reads cfg n) :=
  inferInstanceAs (Decidable (_ ∧ _))

/-- What an upload of block `n` sends: the commands, or a page of flash. -/
def page (cfg : Config) (s : DfuServer) (n : Half) : List Byte :=
  if n = 0 then [0x00, cmdSetaddr, cmdErase]
  else if s.Reads cfg n then
    (List.range dfuTransferSize).map fun k =>
      s.store.cells (blockAddr s.store.addr n + BitVec.ofNat 32 k)
  else []

/-- The reply to a request. -/
def reply (cfg : Config) (s : DfuServer) : DfuRequest → List Byte
  | .getstatus _ _ w => (status s.phase).take w.val.toNat
  | .upload n _ w => (s.page cfg n).take w.val.toNat
  | .getstate _ _ w => [s.phase.state.toByte].take w.val.toNat
  | _ => []

/-- GETSTATUS carries out the command that waits, or lets the device leave. -/
def afterStatus (cfg : Config) (s : DfuServer) : DfuServer :=
  match s.phase with
  | .waiting c => ⟨.downloading, c.run cfg s.store⟩
  | .leaving => ⟨.left, s.store⟩
  | _ => s

/-- Where a request leaves the server. -/
def next (cfg : Config) (s : DfuServer) : DfuRequest → DfuServer
  | .download c _ => ⟨.waiting c, s.store⟩
  | .leave _ _ => ⟨.leaving, s.store⟩
  | .getstatus _ _ _ => s.afterStatus cfg
  | .upload n _ _ => ⟨if n = 0 ∨ s.Reads cfg n then .uploading else .error, s.store⟩
  | .getstate _ _ _ => s
  | .clrstatus _ _ =>
    match s.phase with
    | .error => ⟨.idle, s.store⟩
    | _ => s
  | .abort _ _ => ⟨.idle, s.store⟩
  | .detach _ _ => ⟨.left, s.store⟩

end DfuServer

/-! ## The device stands for a server -/

variable {cfg : Config} {s : DfuServer} {σ : Dev} {r : DfuRequest}

/-- DFU state and flash are those of the server. -/
structure Stands (s : DfuServer) (d : Dfu) (fl : Flash) : Prop where
  state : d.usbdfuState = s.phase.state
  holds : ∀ c, s.phase = .waiting c → d.prog.Holds c.download
  idle : fl.Idle
  store : s.store = ⟨d.erased, d.prog.addr, fl.mem⟩

/-- What the DFU handler finds after the SETUP of `p`. -/
theorem toHandler_fields (hreset : σ.usb.NoReset) (p : UsbSetupData) :
    let τ := (σ.asked p).toHandler
    τ.dfu = σ.dfu ∧ τ.flash = σ.flash ∧ τ.pipe.usbReq = p ∧ τ.pipe.usbCompleteCb = none ∧
      τ.pipe.datasize = p.wLength := by
  obtain ⟨hdfu, hflash, hreq, -⟩ := asked_fields hreset p
  obtain ⟨u, -, -, -, hread, -⟩ := poll_setup Config.stm32f103 hreset p
  refine ⟨hdfu, hflash, hreq, ?_, congrArg UsbSetupData.wLength hreq⟩
  show (σ.asked p).pipe.usbCompleteCb = none
  rw [Dev.asked, hread]
  rfl

/-- The part of a staged reply that the host asks for. -/
theorem reply_read (σ : Dev) {bytes : List Byte} {len : Half} (hlen : len.toNat = bytes.length)
    (w : Nat) :
    (σ.reply bytes len).usbdControlBuffer.read 0
      (min (σ.reply bytes len).pipe.datasize.toNat w) = bytes.take w := by
  rw [Dev.reply_buffer, Dev.reply_pipe, hlen,
    ← Mem.read_take _ _ (Nat.min_le_left bytes.length w), Mem.read_write, List.take_eq_take_iff]
  omega

/-- The store survives every request. -/
theorem Stands.handled (h : Stands s σ.dfu σ.flash) (hreset : σ.usb.NoReset) {p : UsbSetupData}
    {phase : Phase} (hstate : (σ.handled cfg p).dfu.usbdfuState = phase.state)
    (hno : ∀ c, phase ≠ .waiting c) :
    Stands ⟨phase, s.store⟩ (σ.handled cfg p).dfu (σ.handled cfg p).flash := by
  obtain ⟨hdfu, hflash, -⟩ := toHandler_fields hreset p
  have hover := usbdfuControlRequest_over cfg (σ := (σ.asked p).toHandler) (m := σ.flash.mem)
    ⟨hflash ▸ h.idle, congrArg Flash.mem hflash⟩
  refine ⟨hstate, fun c hc => absurd hc (hno c), hover.rest, ?_⟩
  unfold Dev.handled
  rw [usbdfuControlRequest_erased, usbdfuControlRequest_addr, hover.mem, hdfu]
  exact h.store

/-- No callback is registered, and the state is that of the server. -/
structure Settled (s : DfuServer) (ρ : Dev) : Prop where
  cb : ρ.pipe.usbCompleteCb = none
  stands : Stands s ρ.dfu ρ.flash

/-- A request that moves only the state. -/
theorem Stands.moved (h : Stands s σ.dfu σ.flash) (hreset : σ.usb.NoReset) {p : UsbSetupData}
    (phase : Phase) (hno : ∀ c, phase ≠ .waiting c)
    (hρ : σ.handled cfg p = (σ.asked p).toHandler.setDfuState phase.state) :
    Settled ⟨phase, s.store⟩ (σ.handled cfg p) := by
  obtain ⟨-, -, -, hcb, -⟩ := toHandler_fields hreset p
  refine ⟨?_, h.handled hreset ?_ hno⟩
  · rw [hρ]
    exact hcb
  · rw [hρ]
    rfl

/-- A request that moves nothing. -/
theorem Stands.asked (h : Stands s σ.dfu σ.flash) (hreset : σ.usb.NoReset) (p : UsbSetupData) :
    Settled s (σ.asked p).toHandler := by
  obtain ⟨hdfu, hflash, -, hcb, -⟩ := toHandler_fields hreset p
  refine ⟨hcb, ?_⟩
  rw [hdfu, hflash]
  exact h

end LnDso
