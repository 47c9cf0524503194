import LnDso.Logic.Completion

/-!
# Flashing routines: what they leave

With the controller unlocked and at rest every flashing routine is a function
of the cells. `dnbusyCells` is that function for the whole DNBUSY branch. The blank
scan of a page reads 1024 bytes from any address: cells at and past `end_addr` are
taken to be readable.
-/

namespace LnDso

open Lib

/-- Unlocked and at rest over the cells `m`. -/
structure Flash.OpenOver (m : Nor.Cells 32) (fl : Flash) : Prop where
  rest : fl.Open
  mem : fl.mem = m

/-- Locked and at rest over the cells `m`. -/
structure Flash.IdleOver (m : Nor.Cells 32) (fl : Flash) : Prop where
  rest : fl.Idle
  mem : fl.mem = m

open Flash

variable {m : Nor.Cells 32} {fl : Flash}

theorem flashUnlock_over (h : fl.IdleOver m) : (flashUnlock fl).OpenOver m := by
  obtain ⟨mem, cr, keyr, ar, bsy, log⟩ := fl
  obtain ⟨⟨hcr, hkeyr, hbsy⟩, hmem⟩ := h
  dsimp only at hcr hkeyr hbsy hmem
  subst hcr hkeyr hbsy hmem
  exact ⟨⟨rfl, rfl, rfl⟩, rfl⟩

theorem flashLock_over (h : fl.OpenOver m) : (flashLock fl).IdleOver m := by
  obtain ⟨mem, cr, keyr, ar, bsy, log⟩ := fl
  obtain ⟨⟨hcr, hkeyr, hbsy⟩, hmem⟩ := h
  dsimp only at hcr hkeyr hbsy hmem
  subst hcr hkeyr hbsy hmem
  exact ⟨⟨rfl, rfl, rfl⟩, rfl⟩

theorem flashErasePage_over (h : fl.OpenOver m) (a : Word) :
    (flashErasePage a fl).OpenOver (Nor.erasePage flashPageSize m a) := by
  obtain ⟨mem, cr, keyr, ar, bsy, log⟩ := fl
  obtain ⟨⟨hcr, hkeyr, hbsy⟩, hmem⟩ := h
  dsimp only at hcr hkeyr hbsy hmem
  subst hcr hkeyr hbsy hmem
  exact ⟨⟨rfl, rfl, rfl⟩, rfl⟩

theorem flashPageIsErased_over (h : fl.OpenOver m) (a : Word) :
    (flashPageIsErased a fl).2.OpenOver m := by
  obtain ⟨ops, heq, -⟩ := flashPageIsErased_reads a fl
  rw [heq]
  exact ⟨⟨h.rest.cr, h.rest.keyr, h.rest.bsy⟩, h.mem⟩

/-- Erase on demand. -/
theorem flashEraseIfNeeded_over (h : fl.OpenOver m) (a : Word) :
    (flashEraseIfNeeded a fl).OpenOver (Nor.ensureErased flashPageSize m a) := by
  have hscan := flashPageIsErased_over h a
  unfold flashEraseIfNeeded Nor.ensureErased
  dsimp only
  have hblank := flashPageIsErased_iff a fl
  rw [h.mem] at hblank
  by_cases herased : (flashPageIsErased a fl).1 = true
  · rw [if_pos herased, if_pos (hblank.mp herased)]
    exact hscan
  · rw [if_neg herased, if_neg (mt hblank.mpr herased)]
    exact flashErasePage_over hscan a

/-- The store loop, with programming enabled. -/
theorem flashProgramBufferLoop_cells (re : Half → Half → Half) (a : Word) (data : Mem) (n i : Nat)
    (hcr : fl.cr = ⟨false, false, false, true⟩) (hkeyr : fl.keyr = .idle) (hbsy : fl.bsy = false) :
    let fl' := flashProgramBufferLoop re a data n i fl
    fl'.cr = ⟨false, false, false, true⟩ ∧ fl'.keyr = .idle ∧ fl'.bsy = false ∧
      fl'.mem = Nor.programHalves re data.halves a n i fl.mem := by
  induction n generalizing i fl with
  | zero => exact ⟨hcr, hkeyr, hbsy, rfl⟩
  | succ n ih =>
      have hstore : ∀ (b : Word) v, (fl.storeHalf re b v).mem = Nor.programHalf re fl.mem b v ∧
          (fl.storeHalf re b v).cr = fl.cr ∧ (fl.storeHalf re b v).keyr = fl.keyr := by
        intro b v
        unfold storeHalf
        rw [hcr]
        exact ⟨rfl, hcr, rfl⟩
      obtain ⟨hmem, hcr', hkeyr'⟩ := hstore (a + BitVec.ofNat 32 (2 * i)) (data.halves i)
      rw [flashProgramBufferLoop, Nor.programHalves, ← hmem]
      exact ih (i + 1) (hcr'.trans hcr) (hkeyr'.trans hkeyr) rfl

theorem flashProgramBuffer_over (h : fl.OpenOver m) (re : Half → Half → Half) (a : Word)
    (data : Mem) (len : Nat) :
    (flashProgramBuffer re a data len fl).OpenOver
      (Nor.programHalves re data.halves a (len / 2) 0 m) := by
  obtain ⟨mem, cr, keyr, ar, bsy, log⟩ := fl
  obtain ⟨⟨hcr, hkeyr, hbsy⟩, hmem⟩ := h
  dsimp only at hcr hkeyr hbsy hmem
  subst hcr hkeyr hbsy hmem
  obtain ⟨hcr, hkeyr, hbsy, hmem⟩ := @flashProgramBufferLoop_cells
    ⟨mem, ⟨false, false, false, true⟩, .idle, ar, false, log⟩ re a data (len / 2) 0 rfl rfl rfl
  have hbuffer :
      flashProgramBuffer re a data len ⟨mem, ⟨false, false, false, false⟩, .idle, ar, false, log⟩ =
      let fl := flashProgramBufferLoop re a data (len / 2) 0
        ⟨mem, ⟨false, false, false, true⟩, .idle, ar, false, log⟩
      fl.writeCr { fl.cr with pg := false } := rfl
  rw [hbuffer]
  dsimp only
  rw [hcr, writeCr, hcr]
  exact ⟨⟨rfl, hkeyr, hbsy⟩, hmem⟩

/-! ## The wipe -/

/-- The wipe of check_do_erase erases `[start_addr, end_addr)`. -/
theorem checkDoEraseLoop_over {cfg : Config} (n : Nat) {addr : Word} (h : fl.OpenOver m)
    (halign : addr.toNat % 1024 = 0) (hle : addr.toNat ≤ cfg.endAddr.toNat)
    (hn : cfg.endAddr.toNat ≤ addr.toNat + n * 1024) :
    (checkDoEraseLoop cfg.endAddr n addr fl).OpenOver
      (Nor.eraseRange addr.toNat cfg.endAddr.toNat m) := by
  obtain ⟨-, -, hend, -, hend'⟩ := cfg.addr_bounds
  induction n generalizing addr fl m with
  | zero =>
      rw [Nor.eraseRange_empty (by omega)]
      exact h
  | succ n ih =>
      rw [checkDoEraseLoop]
      by_cases hlt : addr < cfg.endAddr
      · have hlt' : addr.toNat < cfg.endAddr.toNat := hlt
        have hnext : (addr + 1024).toNat = addr.toNat + 1024 := by
          rw [BitVec.toNat_add, show (1024 : Word).toNat = 1024 from rfl]
          exact Nat.mod_eq_of_lt (by omega)
        have hpage := flashEraseIfNeeded_over h addr
        rw [Nor.ensureErased_page (P := flashPageSize) (by decide) m halign] at hpage
        have hrest : (checkDoEraseLoop cfg.endAddr n (addr + 1024) _).OpenOver
            (Nor.eraseRange (addr + 1024).toNat _ _) := ih hpage (by omega) (by omega) (by omega)
        rw [hnext, show flashPageSize = 1024 from rfl,
          Nor.eraseRange_append (by omega) (by omega)] at hrest
        rw [if_pos hlt]
        exact hrest
      · have hge : cfg.endAddr.toNat ≤ addr.toNat := Nat.not_lt.mp hlt
        rw [if_neg hlt, Nor.eraseRange_empty hge]
        exact h

/-- The application flash erased. -/
def Config.wipe (cfg : Config) (m : Nor.Cells 32) : Nor.Cells 32 :=
  Nor.eraseRange cfg.startAddr.toNat cfg.endAddr.toNat m

theorem checkDoErase_over (cfg : Config) (erased : Bool) (h : fl.OpenOver m) :
    (checkDoErase cfg erased fl).2.OpenOver (if erased then m else cfg.wipe m) := by
  obtain ⟨-, hlt, -, halign, -⟩ := cfg.addr_bounds
  unfold checkDoErase
  cases erased with
  | true => exact h
  | false =>
      refine checkDoEraseLoop_over cfg.flashSizeKb h halign (Nat.le_of_lt hlt) ?_
      rw [cfg.startAddr_toNat, cfg.endAddr_toNat]
      omega

/-! ## The DNBUSY branch -/

/-- The cells after the wipe, where the build has it and it has not run. -/
def wipedCells (cfg : Config) (erased : Bool) (m : Nor.Cells 32) : Nor.Cells 32 :=
  if cfg.enableSafewrite && !erased then cfg.wipe m else m

/-- The cells after a command. -/
def commandCells (cfg : Config) (d : Dfu) (m : Nor.Cells 32) : Nor.Cells 32 :=
  if d.prog.buf 0 = cmdErase then
    let m := wipedCells cfg d.erased m
    if eraseGuard cfg d.prog.operand then Nor.ensureErased flashPageSize m d.prog.operand else m
  else m

/-- The cells after a data block. -/
def blockCells (cfg : Config) (d : Dfu) (m : Nor.Cells 32) : Nor.Cells 32 :=
  let m := wipedCells cfg d.erased m
  let baseaddr := blockAddr d.prog.addr d.prog.blocknum
  if blockGuard cfg baseaddr d.prog.len then
    Nor.programHalves cfg.reprogram d.prog.buf.halves baseaddr (d.prog.len.toNat / 2) 0
      (Nor.ensureErased flashPageSize m baseaddr)
  else m

/-- The cells after the DNBUSY branch. -/
def dnbusyCells (cfg : Config) (d : Dfu) (m : Nor.Cells 32) : Nor.Cells 32 :=
  if d.prog.blocknum = 0 then commandCells cfg d m else blockCells cfg d m

variable {cfg : Config} {σ : Dev}

theorem safewriteErase_over (cfg : Config) (h : σ.flash.OpenOver m) :
    (safewriteErase cfg σ).flash.OpenOver (wipedCells cfg σ.dfu.erased m) := by
  have hwipe := checkDoErase_over cfg σ.dfu.erased h
  unfold safewriteErase wipedCells
  cases cfg.enableSafewrite with
  | true =>
      cases herased : σ.dfu.erased with
      | true =>
          rw [herased] at hwipe
          exact hwipe
      | false =>
          rw [herased] at hwipe
          exact hwipe
  | false => exact h

theorem dnbusyCommand_over (h : σ.flash.OpenOver m) :
    (dnbusyCommand cfg σ).flash.OpenOver (commandCells cfg σ.dfu m) := by
  have hwipe := safewriteErase_over cfg h
  unfold dnbusyCommand commandCells
  dsimp only
  split
  · rw [safewriteErase_prog]
    split
    · exact flashEraseIfNeeded_over hwipe _
    · exact hwipe
  · split <;> exact h

theorem dnbusyBlock_over (h : σ.flash.OpenOver m) :
    (dnbusyBlock cfg σ).flash.OpenOver (blockCells cfg σ.dfu m) := by
  have hwipe := safewriteErase_over cfg h
  unfold dnbusyBlock blockCells
  dsimp only
  rw [safewriteErase_prog]
  split
  · exact flashProgramBuffer_over (flashEraseIfNeeded_over hwipe _) _ _ _ _
  · exact hwipe

theorem dnbusy_over (cfg : Config) (h : σ.flash.OpenOver m) :
    (dnbusy cfg σ).flash.OpenOver (dnbusyCells cfg σ.dfu m) := by
  unfold dnbusy dnbusyCells
  split
  · exact dnbusyCommand_over h
  · exact dnbusyBlock_over h

/-- The completion callback in state dfuDNBUSY, as a function of the cells. -/
theorem usbdfuGetstatusComplete_over (cfg : Config) (hs : σ.dfu.usbdfuState = .dfuDnbusy)
    (h : σ.flash.IdleOver m) :
    (usbdfuGetstatusComplete cfg σ).flash.IdleOver (dnbusyCells cfg σ.dfu m) := by
  have hrun := dnbusy_over cfg
    (σ := { σ.call (.dnbusy σ.dfu.prog.block) with flash := flashUnlock σ.flash })
    (flashUnlock_over h)
  rw [usbdfuGetstatusComplete_dnbusy hs]
  exact flashLock_over hrun

/-! ## Uploads -/

theorem uploadLoads_fields (base : Word) (n i : Nat) (fl : Flash) :
    (uploadLoads base n i fl).mem = fl.mem ∧ (uploadLoads base n i fl).cr = fl.cr ∧
      (uploadLoads base n i fl).keyr = fl.keyr ∧ (uploadLoads base n i fl).bsy = fl.bsy := by
  induction n generalizing i fl with
  | zero => exact ⟨rfl, rfl, rfl, rfl⟩
  | succ n ih => exact ih (i + 1) _

theorem uploadLoads_idle (base : Word) (n i : Nat) {fl : Flash} (h : fl.Idle) :
    (uploadLoads base n i fl).Idle := by
  obtain ⟨-, hcr, hkeyr, hbsy⟩ := uploadLoads_fields base n i fl
  exact ⟨hcr.trans h.cr, hkeyr.trans h.keyr, hbsy.trans h.bsy⟩

/-- No request moves the address pointer. -/
theorem usbdfuControlRequest_addr (cfg : Config) (σ : Dev) :
    (usbdfuControlRequest cfg σ).2.dfu.prog.addr = σ.dfu.prog.addr := by
  unfold usbdfuControlRequest
  split
  · unfold dfuDnload
    split <;> rfl
  · dsimp only
    split <;> rfl
  · rfl
  · rfl
  · unfold dfuUpload dfuUploadBlock
    dsimp only
    split
    · rfl
    split
    · split <;> rfl
    · rfl
  · rfl
  · rfl
  · rfl

/-- No request runs the wipe. -/
theorem usbdfuControlRequest_erased (cfg : Config) (σ : Dev) :
    (usbdfuControlRequest cfg σ).2.dfu.erased = σ.dfu.erased := by
  unfold usbdfuControlRequest
  split
  · unfold dfuDnload
    split <;> rfl
  · dsimp only
    split <;> rfl
  · rfl
  · rfl
  · unfold dfuUpload dfuUploadBlock
    dsimp only
    split
    · rfl
    split
    · split <;> rfl
    · rfl
  · rfl
  · rfl
  · rfl

/-- No request but an upload touches the flash, and an upload reads it. -/
theorem usbdfuControlRequest_flash (cfg : Config) (σ : Dev) :
    (usbdfuControlRequest cfg σ).2.flash = σ.flash ∨ ∃ base,
      (usbdfuControlRequest cfg σ).2.flash = uploadLoads base dfuTransferSize 0 σ.flash := by
  unfold usbdfuControlRequest
  split
  · unfold dfuDnload
    split <;> exact .inl rfl
  · dsimp only
    split <;> exact .inl rfl
  · exact .inl rfl
  · exact .inl rfl
  · unfold dfuUpload dfuUploadBlock
    dsimp only
    split
    · exact .inl rfl
    split
    · split
      · refine .inr ⟨blockAddr σ.dfu.prog.addr σ.pipe.usbReq.wValue, ?_⟩
        simp only [Dev.call_flash, Dev.reply_flash, Dev.setDfuState_flash, Dev.setDfuState_pipe,
          Dev.setDfuState_dfu]
      · exact .inl rfl
    · exact .inl rfl
  · exact .inl rfl
  · exact .inl rfl
  · exact .inl rfl

theorem usbdfuControlRequest_over (cfg : Config) (h : σ.flash.IdleOver m) :
    (usbdfuControlRequest cfg σ).2.flash.IdleOver m := by
  rcases usbdfuControlRequest_flash cfg σ with hsame | ⟨base, hloads⟩
  · rw [hsame]
    exact h
  · have hidle := uploadLoads_idle base dfuTransferSize 0 h.rest
    have hmem := (uploadLoads_fields base dfuTransferSize 0 σ.flash).1
    rw [hloads]
    generalize uploadLoads base dfuTransferSize 0 σ.flash = fl at hidle hmem
    exact ⟨hidle, hmem.trans h.mem⟩

/-- The completion callback leaves the controller locked and at rest. -/
theorem usbdfuGetstatusComplete_idle (cfg : Config) (h : σ.flash.Idle) :
    (usbdfuGetstatusComplete cfg σ).flash.Idle := by
  by_cases hs : σ.dfu.usbdfuState = .dfuDnbusy
  · exact (usbdfuGetstatusComplete_over cfg hs ⟨h, rfl⟩).rest
  · rw [usbdfuGetstatusComplete_else hs]
    exact h

/-! ## Downloads -/

/-- A download as the host sends it. -/
structure Download where
  blocknum : Half
  bytes : List Byte
  pos : 0 < bytes.length
  le : bytes.length ≤ dfuTransferSize

/-- `prog` holds the download. -/
structure Prog.Holds (p : Prog) (D : Download) : Prop where
  blocknum : p.blocknum = D.blocknum
  len : p.len.toNat = D.bytes.length
  bytes : p.buf.read 0 D.bytes.length = D.bytes

theorem Prog.Holds.byte {p : Prog} {D : Download} (h : p.Holds D) {i : Nat} {b : Byte}
    (hb : D.bytes[i]? = some b) : p.buf i = b := by
  have hread := congrArg (·[i]?) h.bytes
  rw [Mem.getElem?_read, if_pos (List.getElem?_eq_some_iff.mp hb).1, hb, Nat.zero_add] at hread
  exact Option.some.inj hread

/-- Where the DNBUSY branch leaves the address pointer. -/
def Dfu.nextAddr (d : Dfu) : Word :=
  if d.prog.blocknum = 0 ∧ d.prog.buf 0 = cmdSetaddr then d.prog.operand else d.prog.addr

theorem cmdSetaddr_ne_cmdErase : cmdSetaddr ≠ cmdErase := by decide

theorem dnbusy_addr (σ : Dev) : (dnbusy cfg σ).dfu.prog.addr = σ.dfu.nextAddr := by
  unfold dnbusy Dfu.nextAddr
  by_cases hzero : σ.dfu.prog.blocknum = 0
  · rw [if_pos hzero, dnbusyCommand_dfu]
    by_cases herase : σ.dfu.prog.buf 0 = cmdErase
    · rw [if_pos herase, safewriteErase_prog, if_neg]
      exact fun h => cmdSetaddr_ne_cmdErase (h.2.symm.trans herase)
    · rw [if_neg herase]
      by_cases hset : σ.dfu.prog.buf 0 = cmdSetaddr
      · rw [if_pos hset, if_pos ⟨hzero, hset⟩]
      · rw [if_neg hset, if_neg fun h => hset h.2]
  · rw [if_neg hzero, if_neg fun h => hzero h.1, dnbusyBlock_dfu, safewriteErase_prog]

/-- The completion callback moves the address pointer. -/
theorem usbdfuGetstatusComplete_addr (hs : σ.dfu.usbdfuState = .dfuDnbusy) :
    (usbdfuGetstatusComplete cfg σ).dfu.prog.addr = σ.dfu.nextAddr := by
  rw [usbdfuGetstatusComplete_dnbusy hs]
  exact dnbusy_addr _

/-- A block that writes: a data block, or an ERASE command. -/
def Dfu.Writes (d : Dfu) : Prop := d.prog.blocknum ≠ 0 ∨ d.prog.buf 0 = cmdErase

instance (d : Dfu) : Decidable d.Writes := inferInstanceAs (Decidable (_ ∨ _))

/-- Any other block leaves the cells alone. -/
theorem dnbusyCells_else {d : Dfu} (h : ¬ d.Writes) (m : Nor.Cells 32) :
    dnbusyCells cfg d m = m := by
  obtain ⟨hzero, hcmd⟩ := not_or.mp h
  unfold dnbusyCells commandCells
  rw [if_pos (not_not.mp hzero), if_neg hcmd]

/-- Whether the wipe has run, after the DNBUSY branch. -/
def Dfu.nextErased (cfg : Config) (d : Dfu) : Bool :=
  d.erased || cfg.enableSafewrite && decide d.Writes

theorem dnbusy_erased (σ : Dev) : (dnbusy cfg σ).dfu.erased = σ.dfu.nextErased cfg := by
  have hwipe : (safewriteErase cfg σ).dfu.erased = (σ.dfu.erased || cfg.enableSafewrite) := by
    rw [safewriteErase_dfu]
    cases cfg.enableSafewrite <;> simp
  unfold dnbusy Dfu.nextErased
  by_cases hzero : σ.dfu.prog.blocknum = 0
  · rw [if_pos hzero, dnbusyCommand_dfu]
    by_cases hcmd : σ.dfu.prog.buf 0 = cmdErase
    · rw [if_pos hcmd, hwipe, decide_eq_true (show σ.dfu.Writes from .inr hcmd), Bool.and_true]
    · have hwrites : ¬ σ.dfu.Writes := not_or.mpr ⟨not_not.mpr hzero, hcmd⟩
      rw [if_neg hcmd, decide_eq_false hwrites, Bool.and_false, Bool.or_false]
      split <;> rfl
  · rw [if_neg hzero, dnbusyBlock_dfu, hwipe, decide_eq_true (show σ.dfu.Writes from .inl hzero),
      Bool.and_true]

theorem usbdfuGetstatusComplete_erased (hs : σ.dfu.usbdfuState = .dfuDnbusy) :
    (usbdfuGetstatusComplete cfg σ).dfu.erased = σ.dfu.nextErased cfg := by
  rw [usbdfuGetstatusComplete_dnbusy hs]
  exact dnbusy_erased _

/-- What lasts from one download to the next. -/
structure Store where
  erased : Bool
  addr : Word
  cells : Nor.Cells 32

/-- The store after the DNBUSY branch. -/
def Dfu.next (cfg : Config) (d : Dfu) (m : Nor.Cells 32) : Store :=
  ⟨d.nextErased cfg, d.nextAddr, dnbusyCells cfg d m⟩

end LnDso
