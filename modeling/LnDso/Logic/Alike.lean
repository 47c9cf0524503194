import LnDso.Logic.Steps

/-!
# Two devices in step

`Alike` relates two devices that are in the same registers, transfer state and
DFU state, and whose flashes are related by `F`. With `full` they are in the
same buffers and record too, so that only the flash is left to differ. Every
handler keeps both forms: what steers it is never read from the flash, and from
a buffer only by DFU_DNLOAD and by the read of a SETUP packet.
-/

namespace LnDso

open Lib UsbPeriph

variable {cfg : Config} {full : Prop}

/-! ## The peripheral -/

/-- The same registers and descriptors; with `full`, the same packets too. -/
structure UsbPeriph.Alike (full : Prop) (u v : UsbPeriph) : Prop where
  reg : v.reg = u.reg
  desc : v.desc = u.desc
  all : full → v = u

namespace UsbPeriph.Alike

variable {u v : UsbPeriph}

theorem ep (h : u.Alike full v) (n : Nat) : v.ep n = u.ep n := by
  rw [UsbPeriph.ep, UsbPeriph.ep, h.reg]

theorem noReset (h : u.Alike full v) (hu : u.NoReset) : v.NoReset := by
  rw [NoReset, h.reg]
  exact hu

theorem getReg (h : u.Alike full v) (i : Nat) : v.getReg i = u.getReg i :=
  getReg_congr (fun n _ => congrFun h.reg n) (congrFun h.reg i)

theorem touch (h : u.Alike full v) (n : Nat) : (u.touch n).Alike full (v.touch n) :=
  ⟨h.reg, h.desc, fun hf => congrArg (UsbPeriph.touch · n) (h.all hf)⟩

theorem setReg (h : u.Alike full v) (i : Nat) (x : Half) :
    (u.setReg i x).Alike full (v.setReg i x) := by
  refine ⟨?_, h.desc, fun hf => congrArg (UsbPeriph.setReg · i x) (h.all hf)⟩
  show Function.update v.reg i (regWrite i (v.reg i) x) = _
  rw [h.reg]
  rfl

theorem rmw (h : u.Alike full v) (n : Nat) (f : Half → Half) :
    (epRegRmw n f u).Alike full (epRegRmw n f v) := by
  rw [epRegRmw, epRegRmw, h.getReg]
  exact (h.touch n).setReg n _

theorem txStat (h : u.Alike full v) (n : Nat) (s : Half) :
    (usbSetEpTxStat n s u).Alike full (usbSetEpTxStat n s v) :=
  h.rmw n (setTxStatVal · s)

theorem rxStat (h : u.Alike full v) (n : Nat) (s : Half) :
    (usbSetEpRxStat n s u).Alike full (usbSetEpRxStat n s v) :=
  h.rmw n (setRxStatVal · s)

theorem descOff (h : u.Alike full v) (n k : Nat) : v.descOff n k = u.descOff n k := by
  rw [descOff_eq, descOff_eq, h.reg]

theorem setDesc (h : u.Alike full v) (off : Nat) (x : Half) :
    (u.setDesc off x).Alike full (v.setDesc off x) := by
  refine ⟨h.reg, ?_, fun hf => congrArg (UsbPeriph.setDesc · off x) (h.all hf)⟩
  exact congrArg (Function.update · off x) h.desc

end UsbPeriph.Alike

variable {u v : UsbPeriph}

theorem usbdEpWritePacket_alike (h : u.Alike full v) (addr : Byte) {buf buf' : Mem}
    (hbuf : full → buf' = buf) (len : Half) :
    (usbdEpWritePacket addr buf len u).2.Alike full (usbdEpWritePacket addr buf' len v).2 := by
  let n := (addr &&& 0x7F).toNat
  have ht := h.touch n
  unfold usbdEpWritePacket
  dsimp only
  rw [ht.getReg]
  split
  · exact ht
  · -- the copy, its length, the offer
    let copied (buf : Mem) (u : UsbPeriph) : UsbPeriph :=
      { u.touch n with pm := stUsbfsCopyToPm (usbGetEpTxBuff n (u.touch n)) buf len (u.touch n).pm }
    let offer (u : UsbPeriph) : UsbPeriph :=
      usbSetEpTxStat n usbEpTxStatValid (usbSetEpTxCount n len u)
    have hcopied : (copied buf u).Alike full (copied buf' v) :=
      ⟨ht.reg, ht.desc, fun hf => by rw [hbuf hf, h.all hf]⟩
    have hoffer : (offer (copied buf u)).Alike full (offer (copied buf' v)) := by
      refine .rmw ?_ n _
      rw [usbSetEpTxCount, usbSetEpTxCount, hcopied.descOff]
      exact hcopied.setDesc _ len
    exact ⟨hoffer.reg, hoffer.desc, fun hf => by rw [hbuf hf, h.all hf]⟩

/-- A read of endpoint 0 takes the same number of bytes; the bytes are the same
where packets are. -/
theorem usbdEpReadPacket_alike (h : u.Alike full v) (forceNak : Nat → Bool) (addr : Byte)
    (buf buf' : Mem) (off : Nat) (len : Half) :
    (usbdEpReadPacket forceNak addr buf' off len v).1 =
        (usbdEpReadPacket forceNak addr buf off len u).1 ∧
      (full → buf' = buf → (usbdEpReadPacket forceNak addr buf' off len v).2.1 =
        (usbdEpReadPacket forceNak addr buf off len u).2.1) ∧
      (usbdEpReadPacket forceNak addr buf off len u).2.2.Alike full
        (usbdEpReadPacket forceNak addr buf' off len v).2.2 := by
  have ht := h.touch addr.toNat
  have hcount : usbGetEpRxCount addr.toNat (v.touch addr.toNat) =
      usbGetEpRxCount addr.toNat (u.touch addr.toNat) := by
    rw [usbGetEpRxCount, usbGetEpRxCount, ht.descOff, ht.desc]
  refine ⟨?_, fun hf hbuf => by rw [hbuf, h.all hf], ?_⟩
  · unfold usbdEpReadPacket
    dsimp only
    rw [ht.getReg, hcount]
    split <;> rfl
  · have hclr := ht.rmw addr.toNat clrRxCtrVal
    unfold usbdEpReadPacket
    dsimp only
    rw [ht.getReg]
    split
    · exact ht
    · dsimp only
      split
      · exact hclr
      · exact hclr.rmw _ _

theorem epStallSet_alike (h : u.Alike full v) (addr : Byte) (stall : Bool) :
    (epStallSet addr stall u).Alike full (epStallSet addr stall v) := by
  unfold epStallSet
  dsimp only
  generalize (if stall then usbEpTxStatStall else usbEpTxStatNak) = txStat
  generalize (if stall then usbEpRxStatStall else usbEpRxStatValid) = rxStat
  have hzero : (if addr = 0 then usbSetEpTxStat addr.toNat txStat u else u).Alike full
      (if addr = 0 then usbSetEpTxStat addr.toNat txStat v else v) := by
    split
    · exact h.txStat _ _
    · exact h
  generalize (if addr = 0 then usbSetEpTxStat addr.toNat txStat u else u) = u' at *
  generalize (if addr = 0 then usbSetEpTxStat addr.toNat txStat v else v) = v' at *
  split
  · have htx := hzero.txStat (addr &&& 0x7F).toNat txStat
    split
    · exact htx
    · exact htx.rmw _ clrTxDtogVal
  · refine .rxStat ?_ addr.toNat rxStat
    split
    · exact hzero
    · exact hzero.rmw _ clrRxDtogVal

theorem epStallGet_alike (h : u.Alike full v) (addr : Byte) :
    (epStallGet addr v).1 = (epStallGet addr u).1 ∧
      (epStallGet addr u).2.Alike full (epStallGet addr v).2 := by
  unfold epStallGet
  dsimp only
  rw [h.getReg, h.getReg]
  split
  · exact ⟨rfl, h.touch _⟩
  · exact ⟨rfl, h.touch _⟩

theorem resetEndpoints_alike (n i : Nat) (h : u.Alike full v) :
    (resetEndpoints n i u).Alike full (resetEndpoints n i v) := by
  induction n generalizing i u v with
  | zero => exact h
  | succ n ih => exact ih (i + 1) ((h.txStat i _).rxStat i _)

/-! ## The device -/

/-- Two devices in step; `F` relates their flashes, given whether the wipe has run. -/
structure Dev.Alike (full : Prop) (F : Bool → Flash → Flash → Prop) (σ τ : Dev) : Prop where
  usb : σ.usb.Alike full τ.usb
  pipe : τ.pipe = σ.pipe
  dfu : τ.dfu = σ.dfu
  buffer : full → τ.usbdControlBuffer = σ.usbdControlBuffer
  calls : full → τ.calls = σ.calls
  flash : F σ.dfu.erased σ.flash τ.flash

/-- The same device over other flash content. -/
def Dev.withCells (m : Nor.Cells 32) (σ : Dev) : Dev :=
  { σ with flash := { σ.flash with mem := m } }

variable {F : Bool → Flash → Flash → Prop} {σ τ : Dev}

namespace Dev.Alike

theorem setUsb (h : σ.Alike full F τ) (hu : u.Alike full v) :
    { σ with usb := u }.Alike full F { τ with usb := v } :=
  ⟨hu, h.pipe, h.dfu, h.buffer, h.calls, h.flash⟩

theorem setPipe (h : σ.Alike full F τ) (p : Pipe) :
    { σ with pipe := p }.Alike full F { τ with pipe := p } :=
  ⟨h.usb, rfl, h.dfu, h.buffer, h.calls, h.flash⟩

theorem setFsm (h : σ.Alike full F τ) (s : UsbFsmState) :
    (σ.setFsm s).Alike full F (τ.setFsm s) := by
  rw [Dev.setFsm, Dev.setFsm, h.pipe]
  exact h.setPipe _

theorem setDfuState (h : σ.Alike full F τ) (s : DfuState) :
    (σ.setDfuState s).Alike full F (τ.setDfuState s) := by
  rw [Dev.setDfuState, Dev.setDfuState, h.dfu]
  exact ⟨h.usb, h.pipe, rfl, h.buffer, h.calls, h.flash⟩

theorem call (h : σ.Alike full F τ) {c c' : Call} (hc : full → c' = c) :
    (σ.call c).Alike full F (τ.call c') := by
  refine ⟨h.usb, h.pipe, h.dfu, h.buffer, fun hf => ?_, h.flash⟩
  rw [call_calls, call_calls, h.calls hf, hc hf]

theorem reply (h : σ.Alike full F τ) {bytes bytes' : List Byte} (hb : full → bytes' = bytes)
    (len : Half) : (σ.reply bytes len).Alike full F (τ.reply bytes' len) := by
  refine ⟨h.usb, ?_, h.dfu, fun hf => ?_, h.calls, h.flash⟩
  · rw [reply_pipe, reply_pipe, h.pipe]
  · rw [reply_buffer, reply_buffer, h.buffer hf, hb hf]

end Dev.Alike

/-! ## Endpoint 0 -/

theorem usbdEpNakSet_alike (h : σ.Alike full F τ) (addr : Byte) (nak : Bool) :
    (usbdEpNakSet addr nak σ).Alike full F (usbdEpNakSet addr nak τ) := by
  unfold usbdEpNakSet
  split
  · exact h
  · rw [h.pipe]
    exact (h.setPipe _).setUsb (h.usb.rmw _ _)

theorem stallTransaction_alike (h : σ.Alike full F τ) :
    (stallTransaction σ).Alike full F (stallTransaction τ) :=
  ((h.setUsb (epStallSet_alike h.usb 0 true)).setFsm .idle).call fun _ => rfl

theorem writePacket0_alike (h : σ.Alike full F τ) {buf buf' : Mem} (hbuf : full → buf' = buf)
    (len : Half) : (σ.writePacket0 buf len).Alike full F (τ.writePacket0 buf' len) :=
  h.setUsb (usbdEpWritePacket_alike h.usb 0 hbuf len)

theorem usbControlSendChunk_alike (h : σ.Alike full F τ) :
    (usbControlSendChunk σ).Alike full F (usbControlSendChunk τ) := by
  have hchunk : full → τ.usbdControlBuffer.from_ σ.pipe.dataoff.toNat =
      σ.usbdControlBuffer.from_ σ.pipe.dataoff.toNat := fun hf => by rw [h.buffer hf]
  unfold usbControlSendChunk
  dsimp only
  rw [h.pipe]
  split
  · have hsent := (writePacket0_alike h hchunk (bMaxPacketSize0.setWidth 16)).call
      (c := .send σ.pipe.dataoff.toNat (bMaxPacketSize0.setWidth 16 : Half).toNat) fun _ => rfl
    rw [hsent.pipe]
    exact hsent.setPipe _
  · have hsent := (writePacket0_alike h hchunk σ.pipe.datasize).call
      (c := .send σ.pipe.dataoff.toNat σ.pipe.datasize.toNat) fun _ => rfl
    rw [hsent.pipe]
    exact hsent.setPipe _

/-! ## Standard requests -/

theorem replyString_alike (h : σ.Alike full F τ) (wData : List Half) :
    (replyString wData σ).Alike full F (replyString wData τ) :=
  h.reply (fun _ => rfl) _

/-- The same answer, and devices in step. -/
def Dev.AlikeOut (full : Prop) (F : Bool → Flash → Flash → Prop) (x y : ReqCode × Dev) : Prop :=
  y.1 = x.1 ∧ x.2.Alike full F y.2

theorem usbStandardGetDescriptor_alike (h : σ.Alike full F τ) :
    Dev.AlikeOut full F (usbStandardGetDescriptor cfg σ) (usbStandardGetDescriptor cfg τ) := by
  have htype : { σ with usbdControlBuffer := σ.usbdControlBuffer.write 1 [usbDtString] }.Alike full
      F { τ with usbdControlBuffer := τ.usbdControlBuffer.write 1 [usbDtString] } :=
    ⟨h.usb, h.pipe, h.dfu, fun hf => by rw [h.buffer hf], h.calls, h.flash⟩
  unfold usbStandardGetDescriptor
  dsimp only
  rw [h.pipe] at htype ⊢
  split
  · exact ⟨rfl, h.reply (fun _ => rfl) _⟩
  split
  · exact ⟨rfl, h.reply (fun _ => rfl) _⟩
  split
  · split
    · exact ⟨rfl, replyString_alike htype _⟩
    · split
      · exact ⟨rfl, htype⟩
      · split
        · exact ⟨rfl, htype⟩
        · exact ⟨rfl, replyString_alike htype _⟩
  · exact ⟨rfl, h⟩

theorem usbdStandardRequestDevice_alike (h : σ.Alike full F τ) :
    Dev.AlikeOut full F (usbdStandardRequestDevice cfg σ) (usbdStandardRequestDevice cfg τ) := by
  unfold usbdStandardRequestDevice
  dsimp only
  rw [h.pipe]
  split
  · split <;> exact ⟨rfl, h⟩
  split
  · split
    · exact ⟨rfl, (h.setPipe _).setUsb (resetEndpoints_alike 7 1 h.usb)⟩
    · exact ⟨rfl, h⟩
  split
  · exact ⟨rfl, h.reply (fun _ => rfl) _⟩
  split
  · exact usbStandardGetDescriptor_alike h
  split
  · exact ⟨rfl, h.reply (fun _ => rfl) _⟩
  · exact ⟨rfl, h⟩

theorem usbdStandardRequestInterface_alike (h : σ.Alike full F τ) :
    Dev.AlikeOut full F (usbdStandardRequestInterface σ) (usbdStandardRequestInterface τ) := by
  unfold usbdStandardRequestInterface
  dsimp only
  rw [h.pipe]
  split
  · exact ⟨rfl, h.reply (fun _ => rfl) _⟩
  split
  · exact ⟨rfl, h.reply (fun _ => rfl) _⟩
  split
  · exact ⟨rfl, h.reply (fun _ => rfl) _⟩
  · exact ⟨rfl, h⟩

theorem usbdStandardRequestEndpoint_alike (h : σ.Alike full F τ) :
    Dev.AlikeOut full F (usbdStandardRequestEndpoint σ) (usbdStandardRequestEndpoint τ) := by
  unfold usbdStandardRequestEndpoint
  dsimp only
  rw [h.pipe]
  split
  · split
    · have hset := h.setUsb (epStallSet_alike h.usb (Half.lo σ.pipe.usbReq.wIndex)
        (decide (σ.pipe.usbReq.bRequest = usbReqSetFeature)))
      rw [h.pipe] at hset
      exact ⟨rfl, hset⟩
    · exact ⟨rfl, h⟩
  split
  · obtain ⟨hstalled, hu⟩ := epStallGet_alike h.usb (Half.lo σ.pipe.usbReq.wIndex)
    have hget := h.setUsb hu
    rw [h.pipe] at hget
    rw [hstalled]
    exact ⟨rfl, hget.reply (fun _ => rfl) _⟩
  · exact ⟨rfl, h⟩

theorem usbdStandardRequest_alike (h : σ.Alike full F τ) :
    Dev.AlikeOut full F (usbdStandardRequest cfg σ) (usbdStandardRequest cfg τ) := by
  unfold usbdStandardRequest
  dsimp only
  rw [h.pipe]
  split
  · exact ⟨rfl, h⟩
  split
  · exact usbdStandardRequestDevice_alike h
  split
  · exact usbdStandardRequestInterface_alike h
  split
  · exact usbdStandardRequestEndpoint_alike h
  · exact ⟨rfl, h⟩

end LnDso
