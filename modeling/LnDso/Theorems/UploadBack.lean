import LnDso.Logic.Applied
import LnDso.Theorems.InStage

/-!
# Upload reads back a download

The upload computes its address and checks its range apart from the DNBUSY
branch. On a whole page the two agree: what the upload sends is the block that
was applied, padded with `0xff`, for as long as the page is left alone.
-/

namespace LnDso

open Lib Lib.Packets

variable {cfg : Config} {σ : Dev} {e : Event} {p : UsbSetupData}

/-- The address pointer is where it was, and no erase and no program since has
hit the page of `base`. -/
structure Dev.KeepsPage (base : Word) (σ τ : Dev) : Prop where
  addr : τ.dfu.prog.addr = σ.dfu.prog.addr
  spared : ∃ ops, τ.flash.log = σ.flash.log ++ ops ∧ ∀ op ∈ ops, op.Modifies →
    ∀ a, op.Hits a → a.toNat / flashPageSize ≠ base.toNat / flashPageSize

/-- A page that is left alone keeps its cells. -/
theorem Dev.KeepsPage.mem {base : Word} {es : List Event} (hstrt : σ.flash.cr.strt = false)
    (h : σ.KeepsPage base ((machine cfg).run σ es)) {a : Word}
    (ha : a.toNat / flashPageSize = base.toNat / flashPageSize) :
    ((machine cfg).run σ es).flash.mem a = σ.flash.mem a := by
  obtain ⟨ops, hlog, hspared⟩ := h.spared
  obtain ⟨ops', hlog', -, hchanges⟩ := (run_logs (AllOps.any cfg) hstrt es).ops
  obtain rfl : ops' = ops := List.append_cancel_left (hlog'.symm.trans hlog)
  by_contra hne
  obtain ⟨op, hop, hmod, hhit⟩ := hchanges a hne
  exact hspared op hop hmod a hhit ha

/-- A block as it fills its page. -/
def padded (data : List Byte) : List Byte :=
  data ++ List.replicate (dfuTransferSize - data.length) 0xff

theorem padded_eq {buf : Mem} {len : Nat} {f : Nat → Byte} (hle : len ≤ dfuTransferSize)
    (h : ∀ i < dfuTransferSize, f i = if i < len then buf i else 0xff) :
    (List.range dfuTransferSize).map f = padded (buf.read 0 len) := by
  have hlen : (buf.read 0 len).length = len := Mem.length_read ..
  unfold padded
  apply List.ext_getElem
  · simp only [List.length_map, List.length_range, List.length_append, hlen,
      List.length_replicate]
    omega
  · intro i hi _
    rw [List.length_map, List.length_range] at hi
    rw [List.getElem_map, List.getElem_range, h i hi]
    split
    · next hin =>
      have hbyte := Mem.getElem?_read buf 0 len i
      rw [if_pos hin, Nat.zero_add] at hbyte
      rw [List.getElem_append_left (by rw [hlen]; exact hin)]
      exact (List.getElem?_eq_some_iff.mp hbyte).2.symm
    · next hout =>
      rw [List.getElem_append_right (by rw [hlen]; exact Nat.not_lt.mp hout),
        List.getElem_replicate]

/-- An upload behind its guard stages the 1024 bytes at its address. -/
theorem dfuUpload_stages (hup : cfg.enableDfuUpload = true) (hn : σ.pipe.usbReq.wValue ≠ 0)
    (hguard : uploadGuard cfg (blockAddr σ.dfu.prog.addr σ.pipe.usbReq.wValue) = true) :
    (dfuUpload cfg σ).pipe.datasize.toNat = dfuTransferSize ∧
      (dfuUpload cfg σ).usbdControlBuffer.read 0 dfuTransferSize =
        (List.range dfuTransferSize).map fun i =>
          σ.flash.mem (blockAddr σ.dfu.prog.addr σ.pipe.usbReq.wValue + BitVec.ofNat 32 i) := by
  let bytes := (List.range dfuTransferSize).map fun i =>
    σ.flash.mem (blockAddr σ.dfu.prog.addr σ.pipe.usbReq.wValue + BitVec.ofNat 32 i)
  have hlen : bytes.length = dfuTransferSize := by simp [bytes]
  have hstage := Mem.read_write σ.usbdControlBuffer 0 bytes
  rw [hlen] at hstage
  unfold dfuUpload dfuUploadBlock
  simp only [Dev.setDfuState_pipe, Dev.setDfuState_dfu, Dev.setDfuState_flash, if_neg hn, hup,
    if_true, hguard, Dev.call_pipe, Dev.call_buffer, Dev.reply_pipe, Dev.reply_buffer]
  exact ⟨rfl, hstage⟩

/-- From the DNBUSY branch on, the page holds the block padded with `0xff`. -/
theorem page_holds {τ : Dev} {es : List Event} (happlied : σ.Applies cfg τ)
    (hblock : σ.dfu.prog.blocknum ≠ 0) (hpage : σ.dfu.FillsPage cfg)
    (hkeeps : τ.KeepsPage σ.dfu.baseaddr ((machine cfg).run τ es)) {k : Nat}
    (hk : k < dfuTransferSize) :
    ((machine cfg).run τ es).flash.mem (σ.dfu.baseaddr + BitVec.ofNat 32 k) =
      if k < σ.dfu.prog.len.toNat then σ.dfu.prog.buf k else 0xff := by
  have hstrt : τ.flash.cr.strt = false := by rw [happlied.flash.rest.cr]
  have hsame : (σ.dfu.baseaddr + BitVec.ofNat 32 k).toNat / flashPageSize =
      σ.dfu.baseaddr.toNat / flashPageSize := by
    have hstart := hpage.page
    rw [hpage.offset hk]
    simp only [flashPageSize, dfuTransferSize] at hk hstart ⊢
    omega
  rw [hkeeps.mem hstrt hsame, happlied.flash.mem, dnbusyCells, if_neg hblock]
  exact hpage.blockCells _ hk

/-- **Upload reads back what download wrote.** Once the DNBUSY branch has run on
a block that fills a page of the application flash, after any events that leave
the pointer where it was and the page alone, an upload of that block number
sends the block padded with `0xff`, up to wLength bytes of it. -/
theorem upload_reads_back (cfg : Config) (hup : cfg.enableDfuUpload = true)
    (hσ : (machine cfg).Reachable σ) (hrun : σ.RunsDnbusy (poll cfg σ e))
    (hblock : σ.dfu.prog.blocknum ≠ 0) (hpage : σ.dfu.FillsPage cfg) (es : List Event)
    (hkeeps : (poll cfg σ e).KeepsPage σ.dfu.baseaddr ((machine cfg).run (poll cfg σ e) es))
    (hclass : p.ClassInterface) (hdir : p.DirIn) (hreq : DfuReq.ofByte p.bRequest = some .upload)
    (hn : p.wValue = σ.dfu.prog.blocknum) (hw : p.wLength ≠ 0) :
    let τ := (machine cfg).run (poll cfg σ e) es
    let w := p.wLength.toNat
    let data := (padded σ.dfu.prog.data).take (min w dfuTransferSize)
    ∃ pkts : List (List Byte), pkts.flatten = data ∧ hostRead 64 w pkts = some (data, []) ∧
      ∀ j, ((machine cfg).run τ (.setup p :: List.replicate j .inDone)).usb.queued =
        τ.usb.queued ++ pkts.take (j + 1) := by
  intro τ w data
  have hsound := sound_invariant cfg σ hσ
  have happlied := poll_applies hsound hrun
  have hreach : (machine cfg).Reachable (poll cfg σ e) := .step e hσ
  have hτ := sound_invariant cfg τ (hreach.run _ es)
  -- the pointer, and with it the address
  have haddr : τ.dfu.prog.addr = σ.dfu.prog.addr := by
    have hkept : τ.dfu.prog.addr = (poll cfg σ e).dfu.prog.addr := hkeeps.addr
    rw [hkept, happlied.addr, Dfu.nextAddr, if_neg fun hset => hblock hset.1]
  have hbase : blockAddr τ.dfu.prog.addr p.wValue = σ.dfu.baseaddr := by
    rw [haddr, hn]
    rfl
  have hcells : ∀ k < dfuTransferSize, τ.flash.mem (σ.dfu.baseaddr + BitVec.ofNat 32 k) =
      if k < σ.dfu.prog.len.toNat then σ.dfu.prog.buf k else 0xff :=
    fun k hk => page_holds happlied hblock hpage hkeeps hk
  -- the reply
  obtain ⟨hdfu, hflash, hask, -⟩ := asked_fields hτ.tidy.noReset p
  let ρ := (τ.asked p).toHandler
  have hρreq : ρ.pipe.usbReq = p := hask
  have hρdfu : ρ.dfu = τ.dfu := hdfu
  have hρflash : ρ.flash = τ.flash := hflash
  have hd : usbControlRequestDispatch cfg (τ.asked p) = (.handled, dfuUpload cfg ρ) :=
    usbControlRequestDispatch_upload (by rw [hask]; exact hclass) (by rw [hask]; exact hreq)
  obtain ⟨hsize, hstaged⟩ := dfuUpload_stages (σ := ρ) hup (by rw [hρreq, hn]; exact hblock)
    (by rw [hρreq, hρdfu, hbase]; exact hpage.uploadGuard)
  rw [hρreq, hρdfu, hρflash, hbase, padded_eq hpage.le hcells] at hstaged
  obtain ⟨zlp, hzlp, hqueues⟩ := read_queues hτ.tidy.noReset hdir hw hd (by simp)
  have hdata : (dfuUpload cfg ρ).usbdControlBuffer.read 0
      (min (dfuUpload cfg ρ).pipe.datasize.toNat w) = data := by
    rw [hsize, Nat.min_comm, ← Mem.read_take _ _ (Nat.min_le_right w dfuTransferSize), hstaged]
    rfl
  rw [hdata] at hzlp hqueues
  have hle : data.length ≤ w := (List.length_take_le _ _).trans (Nat.min_le_left _ _)
  refine ⟨packets 64 zlp data, flatten_packets _ _ _, ?_, ?_⟩
  · exact hostRead_packets (by decide) hle hzlp
  · intro j
    exact (hqueues j).1

/-- The STM32F103 build with ENABLE_DFU_UPLOAD. -/
def Config.uploads : Config := { Config.stm32f103 with enableDfuUpload := true }

/-- A block of two bytes over a part full of `0x55`; after a GETSTATE four bytes
are asked for. -/
theorem upload_reads_back_oneBlock :
    let σ := (machine .uploads).run (Dev.fresh fun _ => 0x55) (blockDue (.ofBytes [0x12, 0x34]))
    let τ := (machine .uploads).run (poll .uploads σ (.out (.ofBytes []))) [.setup ⟨0xA1, 5, 0, 0, 1⟩]
    let data := (padded σ.dfu.prog.data).take (min 4 dfuTransferSize)
    ∃ pkts : List (List Byte), pkts.flatten = data ∧ hostRead 64 4 pkts = some (data, []) ∧
      ∀ j, ((machine .uploads).run τ
          (.setup ⟨0xA1, 2, 2, 0, 4⟩ :: List.replicate j .inDone)).usb.queued =
        τ.usb.queued ++ pkts.take (j + 1) := by
  have hreach := TSys.Reachable.run (machine .uploads) (.init (Dev.fresh_boot fun _ => 0x55))
    (blockDue (.ofBytes [0x12, 0x34]))
  have hrun := runsDnbusy_of_dnbusyBlock? (e := .out (.ofBytes [])) (b := ⟨2, 2, [0x12, 0x34]⟩)
    .uploads (sound_invariant _ _ hreach) (by decide +kernel)
  exact upload_reads_back .uploads rfl hreach hrun (by decide +kernel)
    ⟨by decide +kernel, by decide +kernel, by decide +kernel, by decide +kernel, by decide +kernel,
      by decide +kernel⟩
    [.setup ⟨0xA1, 5, 0, 0, 1⟩] ⟨by decide +kernel, [], by decide +kernel, by simp⟩
    (p := ⟨0xA1, 2, 2, 0, 4⟩) (by decide) (by decide) (by decide) (by decide +kernel) (by decide)

end LnDso
