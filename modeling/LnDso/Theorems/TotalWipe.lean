import LnDso.Logic.FlashMem
import LnDso.Logic.Applied
import LnDso.Logic.Lockstep

/-!
# Total wipe

Built with ENABLE_SAFEWRITE the first write wipes the application flash, and
what is written after it comes from the requests alone, unless a DFU_DNLOAD is
sent in the IN direction: it has no data stage of its own, and copies to `prog`
what an upload before the wipe left in the control buffer.
-/

namespace LnDso

open Lib Flash

variable {cfg : Config} {σ τ : Dev}

/-! ## The flashes of two devices -/

/-- Flashes at rest that differ in the application at most, and not at all once
the wipe has run. -/
structure WipedSame (cfg : Config) (erased : Bool) (fl fl' : Flash) : Prop where
  idle : fl.Idle
  idle' : fl'.Idle
  outside : ∀ a, ¬ cfg.App a → fl'.mem a = fl.mem a
  wiped : erased = true → fl'.mem = fl.mem

/-- What the wipe makes of cells that differ in the application at most. -/
theorem wipedCells_same (hbuild : cfg.enableSafewrite = true) {erased : Bool} {m m' : Nor.Cells 32}
    (houtside : ∀ a, ¬ cfg.App a → m' a = m a) (hwiped : erased = true → m' = m) :
    wipedCells cfg erased m' = wipedCells cfg erased m := by
  unfold wipedCells
  rw [hbuild]
  cases erased with
  | true => exact hwiped rfl
  | false => exact Nor.eraseRange_congr houtside

theorem dnbusyCells_writes (hbuild : cfg.enableSafewrite = true) {d : Dfu} (h : d.Writes)
    {m m' : Nor.Cells 32} (houtside : ∀ a, ¬ cfg.App a → m' a = m a)
    (hwiped : d.erased = true → m' = m) : dnbusyCells cfg d m' = dnbusyCells cfg d m := by
  have hsame := wipedCells_same hbuild houtside hwiped
  unfold dnbusyCells
  split
  · next hzero =>
    have herase := h.resolve_left (not_not.mpr hzero)
    unfold commandCells
    rw [if_pos herase, if_pos herase, hsame]
  · unfold blockCells
    rw [hsame]

/-- The wipe has run once a block that writes has. -/
theorem usbdfuGetstatusComplete_wiped (hbuild : cfg.enableSafewrite = true)
    (hs : σ.dfu.usbdfuState = .dfuDnbusy) :
    (usbdfuGetstatusComplete cfg σ).dfu.erased = true ↔ σ.dfu.Writes ∨ σ.dfu.erased = true := by
  rw [usbdfuGetstatusComplete_erased hs, Dfu.nextErased, hbuild]
  simp [or_comm]

theorem wipedSame_rel (hbuild : cfg.enableSafewrite = true) : FlashRel cfg (WipedSame cfg) where
  loads {e fl fl'} base n i h := by
    have hmem := (uploadLoads_fields base n i fl).1
    have hmem' := (uploadLoads_fields base n i fl').1
    refine ⟨uploadLoads_idle _ _ _ h.idle, uploadLoads_idle _ _ _ h.idle', fun a ha => ?_, fun he => ?_⟩
    · rw [hmem, hmem', h.outside a ha]
    · rw [hmem, hmem', h.wiped he]
  dnbusy {σ τ} hdfu hs h := by
    have hσ := usbdfuGetstatusComplete_over cfg hs ⟨h.idle, rfl⟩
    have hτ := usbdfuGetstatusComplete_over cfg (hdfu ▸ hs) ⟨h.idle', rfl⟩
    have herased := usbdfuGetstatusComplete_wiped hbuild hs
    rw [hdfu] at hτ
    by_cases hwrites : σ.dfu.Writes
    · have hsame := dnbusyCells_writes hbuild hwrites h.outside h.wiped
      have hmem := hτ.mem.trans (hsame.trans hσ.mem.symm)
      exact ⟨hσ.rest, hτ.rest, fun a _ => congrFun hmem a, fun _ => hmem⟩
    · rw [dnbusyCells_else hwrites] at hσ hτ
      refine ⟨hσ.rest, hτ.rest, fun a ha => ?_, fun he => ?_⟩
      · rw [hσ.mem, hτ.mem, h.outside a ha]
      · rw [hσ.mem, hτ.mem, h.wiped ((herased.mp he).resolve_left hwrites)]

/-! ## The wipe has run -/

/-- A block that the DNBUSY branch writes for: data, or an ERASE command. -/
def Block.Writes (b : Block) : Prop := b.blocknum ≠ 0 ∨ b.data.head? = some cmdErase

theorem Prog.block_writes {d : Dfu} (h : d.prog.block.Writes) : d.Writes := by
  refine h.imp_right fun hcmd => ?_
  have hhead : (d.prog.buf.read 0 d.prog.len.toNat)[0]? = some cmdErase :=
    List.head?_eq_getElem?.symm.trans hcmd
  rw [Mem.getElem?_read] at hhead
  split at hhead
  · exact Option.some.inj hhead
  · cases hhead

/-- Once a block that writes has completed, the wipe has run. -/
def Dev.WipeRan (σ : Dev) : Prop := ∀ b, b.Writes → .dnbusy b ∈ σ.calls → σ.dfu.erased = true

theorem Dev.WipeRan.records (h : σ.WipeRan) (hrec : σ.Records Call.NotDnbusy τ)
    (herased : τ.dfu.erased = σ.dfu.erased) : τ.WipeRan := by
  obtain ⟨l, hl, hnot⟩ := hrec
  intro b hb hmem
  rw [hl] at hmem
  rw [herased]
  rcases List.mem_append.mp hmem with hold | hnew
  · exact h b hb hold
  · exact absurd (hnot _ hnew) not_false

theorem act_wipeRan (hbuild : cfg.enableSafewrite = true) (h : Act cfg σ τ) (hσ : σ.WipeRan) :
    τ.WipeRan := by
  cases h with
  | plumb hsame => exact hσ.records (.of_eq hsame.calls) (congrArg Dfu.erased hsame.dfu)
  | send => exact hσ.records (.one rfl trivial) rfl
  | stall => exact hσ.records (.one rfl trivial) rfl
  | forget => exact hσ
  | setup => exact hσ.records (.one rfl trivial) rfl
  | pass => exact hσ.records (.one rfl trivial) rfl
  | request =>
      have hstart : σ.toHandler.WipeRan := hσ.records (.one rfl trivial) rfl
      exact hstart.records ((usbdfuControlRequest_handles cfg σ.toHandler).calls.mono
        fun _ hc => hc.notDnbusy) (usbdfuControlRequest_erased cfg _)
  | @complete cb stage =>
      cases cb
      let σ' := σ.call (.complete stage)
      have hstart : σ'.WipeRan := hσ.records (.one rfl trivial) rfl
      show (usbdfuGetstatusComplete cfg σ').WipeRan
      by_cases hs : σ'.dfu.usbdfuState = .dfuDnbusy
      · intro b hb hmem
        rw [usbdfuGetstatusComplete_calls _, if_pos hs] at hmem
        refine (usbdfuGetstatusComplete_wiped hbuild hs).mpr ?_
        rcases List.mem_append.mp hmem with hold | hnew
        · exact .inr (hstart b hb hold)
        · obtain rfl : b = σ'.dfu.prog.block := Call.dnbusy.inj (List.mem_singleton.mp hnew)
          exact .inl (Prog.block_writes hb)
      · rw [usbdfuGetstatusComplete_else hs]
        exact hstart

theorem run_wipeRan (hbuild : cfg.enableSafewrite = true) (hσ : σ.WipeRan) (es : List Event) :
    ((machine cfg).run σ es).WipeRan :=
  run_acts (fun _ h => h) (act_wipeRan hbuild) hσ es

/-! ## Two runs -/

/-- What a step asks of the two devices: a DFU_DNLOAD in the IN direction comes
when no upload before the wipe was answered, or copies the same bytes on both. -/
def CopiesNoFirmware (p : Dev × Dev) : Event → Prop
  | .setup req => req.DirIn → req.ClassInterface → DfuReq.ofByte req.bRequest = some .dnload →
      .upload false ∉ p.1.calls ∨ ∀ i < min req.wLength.toNat dfuTransferSize,
        p.2.usbdControlBuffer i = p.1.usbdControlBuffer i
  | _ => True

theorem Dev.Alike.mono {full full' : Prop} {F : Bool → Flash → Flash → Prop}
    (h : σ.Alike full F τ) (hf : full' → full) : σ.Alike full' F τ :=
  ⟨⟨h.usb.reg, h.usb.desc, h.usb.all ∘ hf⟩, h.pipe, h.dfu, h.buffer ∘ hf, h.calls ∘ hf, h.flash⟩

/-- Two devices in step, and in the same buffers as long as no upload before the
wipe was answered. -/
structure InStep (cfg : Config) (σ τ : Dev) : Prop where
  tidy : σ.Tidy
  alike : σ.Alike (.upload false ∉ σ.calls) (WipedSame cfg) τ
  received : σ.Received τ

theorem poll_calls_subset (σ : Dev) (e : Event) : σ.calls ⊆ (poll cfg σ e).calls := by
  obtain ⟨u, -, hacts⟩ := doUsbPoll_acts cfg (σ.onBus e)
  exact hacts.calls_subset

theorem poll_inStep (hbuild : cfg.enableSafewrite = true) {e : Event} (h : InStep cfg σ τ)
    (hC : CopiesNoFirmware (σ, τ) e) : InStep cfg (poll cfg σ e) (poll cfg τ e) := by
  have hcopy : σ.CopiesSame τ e := by
    cases e with
    | setup p =>
        intro hin hclass hreq i hi
        rcases hC hin hclass hreq with hclean | hsame
        · exact congrFun (h.alike.buffer hclean) i
        · exact hsame i hi
    | _ => trivial
  have halike : σ.Alike (.upload false ∉ (poll cfg σ e).calls) (WipedSame cfg) τ :=
    h.alike.mono fun hclean hmem => hclean (poll_calls_subset σ e hmem)
  have huploads : .upload false ∉ (poll cfg σ e).calls →
      SameUploads (WipedSame cfg) (poll cfg σ e).calls := by
    intro hclean b hb fl fl' hF
    cases b with
    | true => exact hF.wiped rfl
    | false => exact absurd hb hclean
  obtain ⟨halike', hrec'⟩ := poll_alike (wipedSame_rel hbuild) h.tidy halike h.received e hcopy
    huploads
  exact ⟨poll_tidy _ h.tidy e, halike', hrec'⟩

/-- **Total wipe.** Built with ENABLE_SAFEWRITE, two devices that enter the loop
in the same state up to their application flash hold the same flash once an
ERASE command or a data block has completed, in every common run in which no
DFU_DNLOAD in the IN direction copies what an upload before the wipe left. -/
theorem wiped_equal (cfg : Config) (hbuild : cfg.enableSafewrite = true) {σ : Dev}
    (hboot : σ.Boot) {m : Nor.Cells 32} (hm : ∀ a, ¬ cfg.App a → m a = σ.flash.mem a)
    (es : List Event)
    (hC : (machine cfg).pair.Admits CopiesNoFirmware (σ, σ.withCells m) es) {b : Block}
    (hb : b.Writes) (hran : .dnbusy b ∈ ((machine cfg).run σ es).calls) :
    ((machine cfg).run (σ.withCells m) es).flash.mem = ((machine cfg).run σ es).flash.mem := by
  have hidle := hboot.flash
  have hsame : WipedSame cfg σ.dfu.erased σ.flash (σ.withCells m).flash :=
    ⟨hidle, ⟨hidle.cr, hidle.keyr, hidle.bsy⟩, hm,
      fun he => absurd (hboot.erased.symm.trans he) Bool.false_ne_true⟩
  have hstart : InStep cfg σ (σ.withCells m) :=
    { tidy := tidy_invariant cfg _ (.init hboot)
      alike := ⟨⟨rfl, rfl, fun _ => rfl⟩, rfl, rfl, fun _ => rfl, fun _ => rfl, hsame⟩
      received := .of_noDataOut (.of_fsm hboot.usbFsmState (by simp) (by simp)) }
  have hend : InStep cfg ((machine cfg).run σ es) ((machine cfg).run (σ.withCells m) es) :=
    TSys.Admits.lockstep (machine cfg) (fun υ ω e hCe hR => poll_inStep hbuild hR hCe) hstart hC
  have hwipeRan : σ.WipeRan := fun _ _ hmem => absurd (hboot.calls ▸ hmem) List.not_mem_nil
  exact hend.alike.flash.wiped (run_wipeRan hbuild hwipeRan es b hb hran)

/-- A small part with both options. -/
def Config.wipeAndUpload : Config where
  flashSizeKb := 2
  bootldrSizeKb := 1
  payloadSizeKb := 1
  enableSafewrite := true
  enableDfuUpload := true
  enableProtections := false
  enableChecksum := false
  enableWatchdog := none
  version := "0.0"
  uniqueId := fun _ => 0
  reprogram := fun old _ => old
  bootldr_lt := by decide
  fits := by decide
  payload_le := by decide
  version_le := stm32f103.version_le
  watchdog_le := stm32f103.watchdog_le

/-- One data block. -/
def dataBlock : List Event := .reset :: download 2 (.ofBytes [0x12, 0x34])

/-- A data block, over a blank part and over a part with firmware. -/
theorem wiped_equal_oneBlock :
    ((machine .wipeAndUpload).run ((Dev.fresh fun _ => 0xff).withCells fun a =>
        if Config.wipeAndUpload.App a then 0x42 else 0xff) dataBlock).flash.mem =
      ((machine .wipeAndUpload).run (Dev.fresh fun _ => 0xff) dataBlock).flash.mem := by
  have hran : .dnbusy ⟨2, 2, [0x12, 0x34]⟩ ∈
      ((machine .wipeAndUpload).run (Dev.fresh fun _ => 0xff) dataBlock).calls :=
    mem_calls_of_dnbusyBlock? (by decide +kernel)
  have hequal := wiped_equal .wipeAndUpload rfl (Dev.fresh_boot fun _ => 0xff)
    (m := fun a => if Config.wipeAndUpload.App a then 0x42 else 0xff) (fun _ ha => if_neg ha)
    dataBlock (b := ⟨2, 2, [0x12, 0x34]⟩)
    ⟨trivial, fun hin => absurd hin (by decide), trivial, trivial,
      fun _ _ hreq => absurd hreq (by decide), trivial, trivial, trivial⟩ (.inl (by decide))
  exact hequal hran

/-- The page pointer is set, a page uploaded, and the control buffer written
back by a DFU_DNLOAD in the IN direction. -/
def writeBack : List Event :=
  [.reset] ++ download 0 (.ofBytes [0x21, 0x00, 0x04, 0x00, 0x08]) ++
    [.setup ⟨0xA1, 2, 2, 0, 2⟩, .setup ⟨0xA1, 1, 2, 0, 2⟩, .setup ⟨0xA1, 3, 0, 0, 6⟩, .inDone,
      .out (.ofBytes [])]

instance (b : Block) : Decidable b.Writes := inferInstanceAs (Decidable (_ ∨ _))

/-- A block that wrote, and a cell that tells the two devices apart. -/
theorem not_same_after_write {a : Word}
    (hblock : ∃ b ∈ σ.calls.filterMap Call.dnbusyBlock?, b.Writes)
    (hcell : τ.flash.mem a ≠ σ.flash.mem a) :
    ¬ ∀ b : Block, b.Writes → .dnbusy b ∈ σ.calls → τ.flash.mem a = σ.flash.mem a := by
  intro h
  obtain ⟨b, hb, hwrites⟩ := hblock
  exact hcell (h b hwrites (mem_calls_of_dnbusyBlock? hb))

/-- The run above over a blank part and over a part with firmware. -/
theorem writeBack_runs :
    (∃ b ∈ ((machine .wipeAndUpload).run (Dev.fresh fun _ => 0xff) writeBack).calls.filterMap
      Call.dnbusyBlock?, b.Writes) ∧
    ((machine .wipeAndUpload).run (Dev.fresh fun a =>
        if Config.wipeAndUpload.App a then 0x42 else 0xff) writeBack).flash.mem
        Config.wipeAndUpload.startAddr ≠
      ((machine .wipeAndUpload).run (Dev.fresh fun _ => 0xff) writeBack).flash.mem
        Config.wipeAndUpload.startAddr := by
  decide +kernel

/-- Firmware survives the write that should have wiped it: built with upload,
two parts that differ in their application still differ after a data block. -/
theorem firmware_written_back :
    ¬ ∀ (m : Nor.Cells 32), (∀ a, ¬ Config.wipeAndUpload.App a → m a = 0xff) →
      ∀ (es : List Event) (b : Block), b.Writes →
        .dnbusy b ∈ ((machine .wipeAndUpload).run (Dev.fresh fun _ => 0xff) es).calls →
        ∀ a, Config.wipeAndUpload.App a →
          ((machine .wipeAndUpload).run (Dev.fresh m) es).flash.mem a =
            ((machine .wipeAndUpload).run (Dev.fresh fun _ => 0xff) es).flash.mem a := by
  intro h
  have happ : Config.wipeAndUpload.App Config.wipeAndUpload.startAddr := by decide +kernel
  have hsame := h (fun a => if Config.wipeAndUpload.App a then 0x42 else 0xff)
    (fun _ ha => if_neg ha) writeBack
  exact not_same_after_write writeBack_runs.1 writeBack_runs.2 fun b hb hran =>
    hsame b hb hran _ happ

end LnDso
