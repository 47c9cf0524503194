import LnDso.Machine.Control
import LnDso.Logic.FlashSpec

/-!
# The completion callback: frame and cases

`usbdfu_getstatus_complete` acts in state dfuDNBUSY only. It touches the DFU
state and the flash, never the peripheral, the transfer or the control buffer.
-/

namespace LnDso

open Lib

variable (cfg : Config)

/-- What the DNBUSY branch leaves alone. -/
structure Dev.SameUsb (σ τ : Dev) : Prop where
  usb : τ.usb = σ.usb
  pipe : τ.pipe = σ.pipe
  buffer : τ.usbdControlBuffer = σ.usbdControlBuffer
  calls : τ.calls = σ.calls

theorem safewriteErase_sameUsb (σ : Dev) : σ.SameUsb (safewriteErase cfg σ) := by
  unfold safewriteErase
  split <;> exact ⟨rfl, rfl, rfl, rfl⟩

theorem dnbusyCommand_sameUsb (σ : Dev) : σ.SameUsb (dnbusyCommand cfg σ) := by
  have hwipe := safewriteErase_sameUsb cfg σ
  unfold dnbusyCommand
  dsimp only
  split
  · split
    · exact ⟨hwipe.usb, hwipe.pipe, hwipe.buffer, hwipe.calls⟩
    · exact hwipe
  · split <;> exact ⟨rfl, rfl, rfl, rfl⟩

theorem dnbusyBlock_sameUsb (σ : Dev) : σ.SameUsb (dnbusyBlock cfg σ) := by
  have hwipe := safewriteErase_sameUsb cfg σ
  unfold dnbusyBlock
  dsimp only
  split
  · exact ⟨hwipe.usb, hwipe.pipe, hwipe.buffer, hwipe.calls⟩
  · exact hwipe

/-- The DNBUSY branch, between unlock and lock. -/
def dnbusy (σ : Dev) : Dev :=
  if σ.dfu.prog.blocknum = 0 then dnbusyCommand cfg σ else dnbusyBlock cfg σ

theorem dnbusy_sameUsb (σ : Dev) : σ.SameUsb (dnbusy cfg σ) := by
  unfold dnbusy
  split
  · exact dnbusyCommand_sameUsb cfg σ
  · exact dnbusyBlock_sameUsb cfg σ

variable {cfg}

/-- In state dfuDNBUSY the callback logs the block, runs the branch with the
controller unlocked, and goes to dfuDNLOAD-IDLE. -/
theorem usbdfuGetstatusComplete_dnbusy {σ : Dev} (h : σ.dfu.usbdfuState = .dfuDnbusy) :
    usbdfuGetstatusComplete cfg σ =
      let τ := dnbusy cfg { σ.call (.dnbusy σ.dfu.prog.block) with flash := flashUnlock σ.flash }
      { τ with flash := flashLock τ.flash }.setDfuState .dfuDnloadIdle := by
  unfold usbdfuGetstatusComplete dnbusy
  rw [h]
  rfl

/-- In any other state it does nothing. -/
theorem usbdfuGetstatusComplete_else {σ : Dev} (h : σ.dfu.usbdfuState ≠ .dfuDnbusy) :
    usbdfuGetstatusComplete cfg σ = σ := by
  unfold usbdfuGetstatusComplete
  split
  · next hs => exact absurd hs h
  · rfl

theorem usbdfuGetstatusComplete_usb (σ : Dev) :
    (usbdfuGetstatusComplete cfg σ).usb = σ.usb := by
  by_cases h : σ.dfu.usbdfuState = .dfuDnbusy
  · rw [usbdfuGetstatusComplete_dnbusy h]
    exact (dnbusy_sameUsb cfg _).usb
  · rw [usbdfuGetstatusComplete_else h]

theorem usbdfuGetstatusComplete_pipe (σ : Dev) :
    (usbdfuGetstatusComplete cfg σ).pipe = σ.pipe := by
  by_cases h : σ.dfu.usbdfuState = .dfuDnbusy
  · rw [usbdfuGetstatusComplete_dnbusy h]
    exact (dnbusy_sameUsb cfg _).pipe
  · rw [usbdfuGetstatusComplete_else h]

theorem usbdfuGetstatusComplete_buffer (σ : Dev) :
    (usbdfuGetstatusComplete cfg σ).usbdControlBuffer = σ.usbdControlBuffer := by
  by_cases h : σ.dfu.usbdfuState = .dfuDnbusy
  · rw [usbdfuGetstatusComplete_dnbusy h]
    exact (dnbusy_sameUsb cfg _).buffer
  · rw [usbdfuGetstatusComplete_else h]

theorem usbdfuGetstatusComplete_calls (cfg : Config) (σ : Dev) :
    (usbdfuGetstatusComplete cfg σ).calls =
      if σ.dfu.usbdfuState = .dfuDnbusy then σ.calls ++ [.dnbusy σ.dfu.prog.block]
      else σ.calls := by
  split
  · next h =>
    rw [usbdfuGetstatusComplete_dnbusy h]
    exact (dnbusy_sameUsb cfg _).calls
  · next h => rw [usbdfuGetstatusComplete_else h]

theorem usbdfuGetstatusComplete_state (σ : Dev) :
    (usbdfuGetstatusComplete cfg σ).dfu.usbdfuState =
      if σ.dfu.usbdfuState = .dfuDnbusy then .dfuDnloadIdle else σ.dfu.usbdfuState := by
  split
  · next h => rw [usbdfuGetstatusComplete_dnbusy h]; rfl
  · next h => rw [usbdfuGetstatusComplete_else h]

/-! ## The DFU state after it -/

theorem safewriteErase_dfu (σ : Dev) : (safewriteErase cfg σ).dfu =
    if cfg.enableSafewrite then { σ.dfu with erased := true } else σ.dfu := by
  unfold safewriteErase checkDoErase
  split
  · dsimp only
    cases σ.dfu.erased <;> rfl
  · rfl

theorem safewriteErase_prog (σ : Dev) : (safewriteErase cfg σ).dfu.prog = σ.dfu.prog := by
  rw [safewriteErase_dfu]
  split <;> rfl

theorem dnbusyCommand_dfu (σ : Dev) : (dnbusyCommand cfg σ).dfu =
    if σ.dfu.prog.buf 0 = cmdErase then (safewriteErase cfg σ).dfu
    else if σ.dfu.prog.buf 0 = cmdSetaddr then
      { σ.dfu with prog := { σ.dfu.prog with addr := σ.dfu.prog.operand } }
    else σ.dfu := by
  unfold dnbusyCommand
  dsimp only
  split
  · split <;> rfl
  · split <;> rfl

theorem dnbusyBlock_dfu (σ : Dev) : (dnbusyBlock cfg σ).dfu = (safewriteErase cfg σ).dfu := by
  unfold dnbusyBlock
  dsimp only
  split <;> rfl

/-- The branch steers by the DFU state alone. -/
theorem dnbusy_dfu_congr {σ τ : Dev} (h : τ.dfu = σ.dfu) :
    (dnbusy cfg τ).dfu = (dnbusy cfg σ).dfu := by
  unfold dnbusy
  rw [h]
  split
  · rw [dnbusyCommand_dfu, dnbusyCommand_dfu, safewriteErase_dfu, safewriteErase_dfu, h]
  · rw [dnbusyBlock_dfu, dnbusyBlock_dfu, safewriteErase_dfu, safewriteErase_dfu, h]

theorem usbdfuGetstatusComplete_dfu {σ τ : Dev} (h : τ.dfu = σ.dfu) :
    (usbdfuGetstatusComplete cfg τ).dfu = (usbdfuGetstatusComplete cfg σ).dfu := by
  by_cases hs : σ.dfu.usbdfuState = .dfuDnbusy
  · rw [usbdfuGetstatusComplete_dnbusy hs, usbdfuGetstatusComplete_dnbusy (h ▸ hs),
      Dev.setDfuState_dfu, Dev.setDfuState_dfu]
    dsimp only
    rw [dnbusy_dfu_congr]
    exact h
  · rw [usbdfuGetstatusComplete_else hs, usbdfuGetstatusComplete_else (h ▸ hs)]
    exact h

/-! ## Accesses of the DNBUSY branch -/

section Logs

open Flash

variable {Q : FlashOp → Prop}

/-- The accesses of a command, behind its guard. -/
def CommandOps (cfg : Config) (Q : FlashOp → Prop) (prog : Prog) : Prop :=
  eraseGuard cfg prog.operand = true → ScanOps Q prog.operand ∧ EraseOps Q prog.operand

/-- The accesses of a data block, behind its guard. -/
def BlockOps (cfg : Config) (Q : FlashOp → Prop) (prog : Prog) : Prop :=
  let baseaddr := blockAddr prog.addr prog.blocknum
  blockGuard cfg baseaddr prog.len = true →
    ScanOps Q baseaddr ∧ EraseOps Q baseaddr ∧ ProgramOps Q baseaddr prog.len.toNat

theorem safewriteErase_logs {σ : Dev} (h : WipeOps cfg Q) (hs : σ.flash.cr.strt = false) :
    Logs Q σ.flash (safewriteErase cfg σ).flash := by
  unfold safewriteErase
  split
  · exact checkDoErase_logs h σ.dfu.erased hs
  · exact Logs.refl _

theorem dnbusyCommand_logs {σ : Dev} (hw : WipeOps cfg Q) (h : CommandOps cfg Q σ.dfu.prog)
    (hs : σ.flash.cr.strt = false) : Logs Q σ.flash (dnbusyCommand cfg σ).flash := by
  have hwipe : Logs Q σ.flash (safewriteErase cfg σ).flash := safewriteErase_logs hw hs
  unfold dnbusyCommand
  split
  · dsimp only
    rw [safewriteErase_prog]
    split
    · next hguard =>
      obtain ⟨hscan, herase⟩ := h hguard
      exact hwipe.trans (flashEraseIfNeeded_logs (hwipe.strt hs) hscan herase)
    · exact hwipe
  · split <;> exact Logs.refl _

theorem dnbusyBlock_logs {σ : Dev} (hw : WipeOps cfg Q) (h : BlockOps cfg Q σ.dfu.prog)
    (hs : σ.flash.cr.strt = false) : Logs Q σ.flash (dnbusyBlock cfg σ).flash := by
  have hwipe : Logs Q σ.flash (safewriteErase cfg σ).flash := safewriteErase_logs hw hs
  unfold dnbusyBlock
  dsimp only
  rw [safewriteErase_prog]
  split
  · next hguard =>
    obtain ⟨hscan, herase, hprog⟩ := h hguard
    have he := hwipe.trans (flashEraseIfNeeded_logs (hwipe.strt hs) hscan herase)
    exact he.trans (flashProgramBuffer_logs cfg.reprogram _ (he.strt hs) hprog)
  · exact hwipe

theorem dnbusy_logs {σ : Dev} (hw : WipeOps cfg Q) (hc : CommandOps cfg Q σ.dfu.prog)
    (hb : BlockOps cfg Q σ.dfu.prog) (hs : σ.flash.cr.strt = false) :
    Logs Q σ.flash (dnbusy cfg σ).flash := by
  unfold dnbusy
  split
  · exact dnbusyCommand_logs hw hc hs
  · exact dnbusyBlock_logs hw hb hs

/-- The completion callback: the only place that erases or programs. -/
theorem usbdfuGetstatusComplete_logs {σ : Dev} (hw : WipeOps cfg Q)
    (hc : CommandOps cfg Q σ.dfu.prog) (hb : BlockOps cfg Q σ.dfu.prog)
    (hs : σ.flash.cr.strt = false) :
    Logs Q σ.flash (usbdfuGetstatusComplete cfg σ).flash := by
  by_cases hbusy : σ.dfu.usbdfuState = .dfuDnbusy
  · rw [usbdfuGetstatusComplete_dnbusy hbusy]
    let σ' : Dev := { σ.call (.dnbusy σ.dfu.prog.block) with flash := flashUnlock σ.flash }
    have hopen : Logs Q σ.flash σ'.flash := flashUnlock_logs hs
    have hrun : Logs Q σ'.flash (dnbusy cfg σ').flash := dnbusy_logs hw hc hb (hopen.strt hs)
    have hboth := hopen.trans hrun
    exact hboth.trans (flashLock_logs (hboth.strt hs))
  · rw [usbdfuGetstatusComplete_else hbusy]
    exact Logs.refl _

/-- The copy of an upload reads its 1024 bytes. -/
theorem uploadLoads_logs {baseaddr : Word} (n i : Nat) (fl : Flash)
    (h : ∀ j, i ≤ j → j < i + n → Q (.copy (baseaddr + BitVec.ofNat 32 j))) :
    Logs Q fl (uploadLoads baseaddr n i fl) := by
  induction n generalizing i fl with
  | zero => exact Logs.refl fl
  | succ n ih =>
      have hload : Logs Q fl (fl.record (.copy (baseaddr + BitVec.ofNat 32 i))) :=
        .one (h i (by omega) (by omega)) rfl (fun _ hne => absurd rfl hne) id
      exact hload.trans (ih (i + 1) _ fun j h1 h2 => h j (by omega) (by omega))

/-- The accesses of an upload at `baseaddr`. -/
def CopyOps (Q : FlashOp → Prop) (baseaddr : Word) : Prop :=
  ∀ j < dfuTransferSize, Q (.copy (baseaddr + BitVec.ofNat 32 j))

theorem dfuUploadBlock_logs {σ : Dev}
    (h : uploadGuard cfg (blockAddr σ.dfu.prog.addr σ.pipe.usbReq.wValue) = true →
      CopyOps Q (blockAddr σ.dfu.prog.addr σ.pipe.usbReq.wValue)) :
    Logs Q σ.flash (dfuUploadBlock cfg σ).flash := by
  unfold dfuUploadBlock
  dsimp only
  split
  · next hguard =>
    simp only [Dev.call_flash, Dev.reply_flash]
    exact uploadLoads_logs dfuTransferSize 0 σ.flash fun j _ hj => h hguard j (by simpa using hj)
  · exact Logs.refl _

theorem dfuUpload_logs {σ : Dev}
    (h : uploadGuard cfg (blockAddr σ.dfu.prog.addr σ.pipe.usbReq.wValue) = true →
      CopyOps Q (blockAddr σ.dfu.prog.addr σ.pipe.usbReq.wValue)) :
    Logs Q σ.flash (dfuUpload cfg σ).flash := by
  unfold dfuUpload
  dsimp only
  split
  · exact Logs.refl _
  split
  · exact dfuUploadBlock_logs (σ := σ.setDfuState .dfuUploadIdle) h
  · exact Logs.refl _

/-- No request handler but the upload touches flash. -/
theorem usbdfuControlRequest_logs {σ : Dev}
    (h : uploadGuard cfg (blockAddr σ.dfu.prog.addr σ.pipe.usbReq.wValue) = true →
      CopyOps Q (blockAddr σ.dfu.prog.addr σ.pipe.usbReq.wValue)) :
    Logs Q σ.flash (usbdfuControlRequest cfg σ).2.flash := by
  unfold usbdfuControlRequest
  split
  · unfold dfuDnload
    split <;> exact Logs.refl _
  · dsimp only
    split <;> exact Logs.refl _
  · exact Logs.refl _
  · exact Logs.refl _
  · exact dfuUpload_logs h
  · exact Logs.refl _
  · exact Logs.refl _
  · exact Logs.refl _

end Logs

end LnDso
