import Mathlib.Logic.Relation
import LnDso.Logic.Access
import LnDso.Logic.Completion

/-!
# A poll as a sequence of acts

Transfers, packets and endpoint registers are plumbing to the DFU state, the
flash, the completion callback and the record of calls. `Act` lists what the
firmware does to those four; `doUsbPoll_acts` shows that a poll, once it has
acknowledged a transmission, is a finite sequence of acts. A property of every
run is then checked once for each act.
-/

namespace LnDso

open Lib UsbPeriph

/-- The step changed peripheral, control buffer and transfer state only, the
peripheral as software can. -/
structure Dev.Same (σ τ : Dev) : Prop where
  dfu : τ.dfu = σ.dfu
  flash : τ.flash = σ.flash
  calls : τ.calls = σ.calls
  cb : τ.pipe.usbCompleteCb = σ.pipe.usbCompleteCb
  usb : Sw σ.usb τ.usb

/-- The state in which `usb_control_request_dispatch` enters the DFU handler. -/
def Dev.toHandler (σ : Dev) : Dev :=
  let σ := σ.call (.dispatch σ.pipe.usbReq σ.usbdControlBuffer)
  { σ with pipe := { σ.pipe with datasize := σ.pipe.usbReq.wLength } }

/-- What the firmware does to the DFU state, the flash, the callback and the
record of calls. -/
inductive Act (cfg : Config) : Dev → Dev → Prop
  | plumb {σ τ : Dev} : σ.Same τ → Act cfg σ τ
  | send (σ : Dev) (off len : Nat) : Act cfg σ (σ.call (.send off len))
  | stall (σ : Dev) : Act cfg σ (σ.call .stall)
  | forget (σ : Dev) : Act cfg σ { σ with pipe := { σ.pipe with usbCompleteCb := none } }
  | setup {σ : Dev} : σ.pipe.usbCompleteCb = none → Act cfg σ (σ.call (.setup σ.pipe.usbReq))
  | pass {σ : Dev} : ¬ σ.pipe.usbReq.ClassInterface →
      Act cfg σ (σ.call (.dispatch σ.pipe.usbReq σ.usbdControlBuffer))
  | request {σ : Dev} : σ.pipe.usbReq.ClassInterface → Act cfg σ (usbdfuControlRequest cfg σ.toHandler).2
  | complete {σ : Dev} {cb : CompleteCb} {stage : UsbFsmState} :
      σ.pipe.usbCompleteCb = some cb → stage = .statusIn ∨ stage = .statusOut →
      Act cfg σ (runComplete cfg cb stage σ)

/-- A sequence of acts. -/
abbrev Acts (cfg : Config) : Dev → Dev → Prop := Relation.ReflTransGen (Act cfg)

variable {cfg : Config}

theorem Acts.preserves {P : Dev → Prop} (hact : ∀ {σ τ}, Act cfg σ τ → P σ → P τ)
    {σ τ : Dev} (h : Acts cfg σ τ) (hσ : P σ) : P τ := by
  induction h with
  | refl => exact hσ
  | tail _ hstep ih => exact hact hstep ih

theorem Acts.plumb {σ τ : Dev} (h : σ.Same τ) : Acts cfg σ τ := .single (.plumb h)

/-! ## Plumbing -/

theorem writePacket0_same (buf : Mem) (len : Half) (σ : Dev) : σ.Same (σ.writePacket0 buf len) :=
  ⟨rfl, rfl, rfl, rfl, usbdEpWritePacket_sw 0 buf len σ.usb⟩

theorem usbdEpNakSet_same (addr : Byte) (nak : Bool) (σ : Dev) :
    σ.Same (usbdEpNakSet addr nak σ) := by
  unfold usbdEpNakSet
  split
  · exact ⟨rfl, rfl, rfl, rfl, .refl⟩
  · exact ⟨rfl, rfl, rfl, rfl, usbSetEpRxStat_sw addr.toNat
      (if nak then usbEpRxStatNak else usbEpRxStatValid) σ.usb⟩

theorem usbStandardGetDescriptor_same (cfg : Config) (σ : Dev) :
    σ.Same (usbStandardGetDescriptor cfg σ).2 := by
  unfold usbStandardGetDescriptor
  dsimp only
  split
  · exact ⟨rfl, rfl, rfl, rfl, .refl⟩
  split
  · exact ⟨rfl, rfl, rfl, rfl, .refl⟩
  split
  · split
    · exact ⟨rfl, rfl, rfl, rfl, .refl⟩
    · split
      · exact ⟨rfl, rfl, rfl, rfl, .refl⟩
      · split <;> exact ⟨rfl, rfl, rfl, rfl, .refl⟩
  · exact ⟨rfl, rfl, rfl, rfl, .refl⟩

theorem usbdStandardRequestDevice_same (cfg : Config) (σ : Dev) :
    σ.Same (usbdStandardRequestDevice cfg σ).2 := by
  unfold usbdStandardRequestDevice
  dsimp only
  split
  · split <;> exact ⟨rfl, rfl, rfl, rfl, .refl⟩
  split
  · split
    · exact ⟨rfl, rfl, rfl, rfl, resetEndpoints_sw 7 1 σ.usb⟩
    · exact ⟨rfl, rfl, rfl, rfl, .refl⟩
  split
  · exact ⟨rfl, rfl, rfl, rfl, .refl⟩
  split
  · exact usbStandardGetDescriptor_same cfg σ
  split <;> exact ⟨rfl, rfl, rfl, rfl, .refl⟩

theorem usbdStandardRequestInterface_same (σ : Dev) :
    σ.Same (usbdStandardRequestInterface σ).2 := by
  unfold usbdStandardRequestInterface
  dsimp only
  split
  · exact ⟨rfl, rfl, rfl, rfl, .refl⟩
  split
  · exact ⟨rfl, rfl, rfl, rfl, .refl⟩
  split <;> exact ⟨rfl, rfl, rfl, rfl, .refl⟩

theorem usbdStandardRequestEndpoint_same (σ : Dev) :
    σ.Same (usbdStandardRequestEndpoint σ).2 := by
  unfold usbdStandardRequestEndpoint
  dsimp only
  split
  · split
    · exact ⟨rfl, rfl, rfl, rfl, epStallSet_sw _ _ _⟩
    · exact ⟨rfl, rfl, rfl, rfl, .refl⟩
  split
  · exact ⟨rfl, rfl, rfl, rfl, epStallGet_sw _ _⟩
  · exact ⟨rfl, rfl, rfl, rfl, .refl⟩

theorem usbdStandardRequest_same (cfg : Config) (σ : Dev) :
    σ.Same (usbdStandardRequest cfg σ).2 := by
  unfold usbdStandardRequest
  dsimp only
  split
  · exact ⟨rfl, rfl, rfl, rfl, .refl⟩
  split
  · exact usbdStandardRequestDevice_same cfg σ
  split
  · exact usbdStandardRequestInterface_same σ
  split
  · exact usbdStandardRequestEndpoint_same σ
  · exact ⟨rfl, rfl, rfl, rfl, .refl⟩

/-! ## Handlers -/

theorem stallTransaction_acts (cfg : Config) (σ : Dev) : Acts cfg σ (stallTransaction σ) := by
  have hset : Act cfg σ ({ σ with usb := epStallSet 0 true σ.usb }.setFsm .idle) :=
    .plumb ⟨rfl, rfl, rfl, rfl, epStallSet_sw 0 true σ.usb⟩
  exact (Relation.ReflTransGen.single hset).tail (.stall _)

theorem usbControlSendChunk_acts (cfg : Config) (σ : Dev) : Acts cfg σ (usbControlSendChunk σ) := by
  have hsend : ∀ buf len off n, Acts cfg σ ((σ.writePacket0 buf len).call (.send off n)) :=
    fun buf len off n => (Acts.plumb (writePacket0_same buf len σ)).tail (.send _ off n)
  unfold usbControlSendChunk
  dsimp only
  split
  · exact (hsend _ _ _ _).tail (.plumb ⟨rfl, rfl, rfl, rfl, .refl⟩)
  · exact (hsend _ _ _ _).tail (.plumb ⟨rfl, rfl, rfl, rfl, .refl⟩)

theorem usbControlRecvChunk_acts (σ : Dev) : Acts cfg σ (usbControlRecvChunk σ).2 := by
  unfold usbControlRecvChunk
  dsimp only
  split
  · refine .trans ?_ (stallTransaction_acts _ _)
    exact Acts.plumb ⟨rfl, rfl, rfl, rfl, usbdEpReadPacket_sw _ _ _ _ _ _⟩
  · exact Acts.plumb ⟨rfl, rfl, rfl, rfl, usbdEpReadPacket_sw _ _ _ _ _ _⟩

/-- A dispatch is the DFU handler for a class request, else plumbing. -/
theorem usbControlRequestDispatch_acts (cfg : Config) (σ : Dev) :
    Acts cfg σ (usbControlRequestDispatch cfg σ).2 := by
  unfold usbControlRequestDispatch
  dsimp only
  split
  · next hclass =>
    have hreq : Act cfg σ (usbdfuControlRequest cfg σ.toHandler).2 := .request hclass
    split
    · next τ heq =>
      rw [show τ = (usbdfuControlRequest cfg σ.toHandler).2 from (congrArg Prod.snd heq).symm]
      exact (Relation.ReflTransGen.single hreq).tail (.plumb (usbdStandardRequest_same cfg _))
    · next r τ _ heq =>
      rw [show τ = (usbdfuControlRequest cfg σ.toHandler).2 from (congrArg Prod.snd heq).symm]
      exact .single hreq
  · next hclass =>
    have hpass : Act cfg σ (σ.call (.dispatch σ.pipe.usbReq σ.usbdControlBuffer)) := .pass hclass
    exact (Relation.ReflTransGen.single hpass).tail (.plumb (usbdStandardRequest_same cfg _))

theorem usbControlSetupRead_acts (σ : Dev) : Acts cfg σ (usbControlSetupRead cfg σ) := by
  unfold usbControlSetupRead
  dsimp only
  have hstart : Acts cfg σ { σ with pipe := { σ.pipe with dataoff := 0 } } :=
    Acts.plumb ⟨rfl, rfl, rfl, rfl, .refl⟩
  have hd := hstart.trans (usbControlRequestDispatch_acts _ _)
  split
  · next τ heq =>
    rw [heq] at hd
    exact hd.trans (stallTransaction_acts _ _)
  · next τ _ heq =>
    rw [heq] at hd
    refine .trans hd ?_
    split
    · refine .trans ?_ (usbControlSendChunk_acts _ _)
      exact Acts.plumb ⟨rfl, rfl, rfl, rfl, .refl⟩
    · exact Acts.plumb ⟨rfl, rfl, rfl, rfl, usbdEpWritePacket_sw _ _ _ _⟩

theorem usbControlSetupWrite_acts (cfg : Config) (σ : Dev) : Acts cfg σ (usbControlSetupWrite σ) := by
  unfold usbControlSetupWrite
  dsimp only
  split
  · exact stallTransaction_acts _ σ
  · refine .tail ?_ (.plumb (usbdEpNakSet_same 0 false _))
    exact Acts.plumb ⟨rfl, rfl, rfl, rfl, .refl⟩

theorem readSetup_acts (cfg : Config) (σ : Dev) : Acts cfg σ (readSetup σ).2 := by
  unfold readSetup
  dsimp only
  refine .tail (.tail (.single (.forget σ)) (.plumb (usbdEpNakSet_same 0 true _))) (.plumb ?_)
  exact ⟨rfl, rfl, rfl, rfl, usbdEpReadPacket_sw _ _ _ _ _ _⟩

/-- The callback is gone before the packet is read. -/
theorem readSetup_cb (σ : Dev) : (readSetup σ).2.pipe.usbCompleteCb = none :=
  (usbdEpNakSet_same 0 true { σ with pipe := { σ.pipe with usbCompleteCb := none } }).cb

theorem usbdControlSetup_acts (σ : Dev) : Acts cfg σ (usbdControlSetup cfg σ) := by
  have hread : Acts cfg σ (readSetup σ).2 := readSetup_acts _ σ
  have hsetup := hread.tail (.setup (readSetup_cb σ))
  unfold usbdControlSetup
  dsimp only
  split
  · exact hread.trans (stallTransaction_acts _ _)
  · split
    · exact hsetup.trans (usbControlSetupRead_acts _)
    · exact hsetup.trans (usbControlSetupWrite_acts _ _)

theorem completeTransfer_acts (cfg : Config) {stage : UsbFsmState}
    (h : stage = .statusIn ∨ stage = .statusOut)
    (σ : Dev) : Acts cfg σ (completeTransfer cfg stage σ) := by
  unfold completeTransfer
  split
  · next cb hcb => exact .single (.complete hcb h)
  · exact .refl

theorem usbdControlOut_acts (cfg : Config) (σ : Dev) : Acts cfg σ (usbdControlOut cfg σ) := by
  have hrecv : Acts cfg σ (usbControlRecvChunk σ).2 := usbControlRecvChunk_acts σ
  unfold usbdControlOut
  dsimp only
  split
  · split
    · exact hrecv
    split
    · exact hrecv.tail (.plumb ⟨rfl, rfl, rfl, rfl, .refl⟩)
    · exact hrecv
  · split
    · exact hrecv
    · have hd := hrecv.trans (usbControlRequestDispatch_acts _ _)
      split
      · next τ heq =>
        rw [heq] at hd
        exact hd.trans (stallTransaction_acts _ _)
      · next τ _ heq =>
        rw [heq] at hd
        exact hd.tail (.plumb ⟨rfl, rfl, rfl, rfl, usbdEpWritePacket_sw _ _ _ _⟩)
  · refine .tail (.trans ?_ (completeTransfer_acts _ (.inr rfl) _)) (.forget _)
    exact Acts.plumb ⟨rfl, rfl, rfl, rfl, usbdEpReadPacket_sw _ _ _ _ _ _⟩
  · exact stallTransaction_acts _ σ

theorem usbdControlIn_acts (cfg : Config) (σ : Dev) : Acts cfg σ (usbdControlIn cfg σ) := by
  unfold usbdControlIn
  dsimp only
  split
  · exact usbControlSendChunk_acts _ σ
  · refine .tail ?_ (.plumb (usbdEpNakSet_same 0 false _))
    exact Acts.plumb ⟨rfl, rfl, rfl, rfl, .refl⟩
  · refine (completeTransfer_acts _ (.inl rfl) σ).tail (.plumb ?_)
    split
    · exact ⟨rfl, rfl, rfl, rfl, Sw.refl.other (by decide) _⟩
    · exact ⟨rfl, rfl, rfl, rfl, .refl⟩
  · exact stallTransaction_acts _ σ

/-- What a handler is entered with: the peripheral as it was polled, or with
CTR_TX of an endpoint acknowledged. -/
def UsbPeriph.Acked (u v : UsbPeriph) : Prop := v = u ∨ ∃ n, v = usbClrEpTxCtr n u

theorem pollCtr_acts (cfg : Config) (istr : Half) (σ : Dev) :
    ∃ u, σ.usb.Acked u ∧ Acts cfg { σ with usb := u } (pollCtr cfg istr σ) := by
  unfold pollCtr
  dsimp only
  split
  · refine ⟨σ.usb, .inl rfl, ?_⟩
    split
    · refine .trans ?_ (usbdControlSetup_acts _)
      exact Acts.plumb ⟨rfl, rfl, rfl, rfl, touch_sw _ _⟩
    · refine .trans ?_ (usbdControlOut_acts _ _)
      exact Acts.plumb ⟨rfl, rfl, rfl, rfl, touch_sw _ _⟩
  · exact ⟨_, .inr ⟨_, rfl⟩, usbdControlIn_acts _ _⟩

/-- The reset branch after the flag is cleared. -/
theorem pollReset_sw (σ : Dev) : Sw (clrIstr usbIstrReset σ.usb) (pollReset σ).usb :=
  (usbdEpSetup_sw 0 usbEndpointAttrControl (bMaxPacketSize0.setWidth 16) usbdPmTop
    (clrIstr usbIstrReset σ.usb)).other (by decide) usbDaddrEf

theorem pollReset_same (σ : Dev) : σ.Same (pollReset σ) where
  dfu := rfl
  flash := rfl
  calls := rfl
  cb := rfl
  usb := (clrIstr_sw usbIstrReset σ.usb).trans (pollReset_sw σ)

/-- `do_usb_poll` is a sequence of acts. -/
theorem doUsbPoll_acts (cfg : Config) (σ : Dev) :
    ∃ u, σ.usb.Acked u ∧ Acts cfg { σ with usb := u } (doUsbPoll cfg σ) := by
  have htail : ∀ istr (τ : Dev), Act cfg τ (τ.tail istr) :=
    fun istr τ => .plumb ⟨rfl, rfl, rfl, rfl, pollTail_sw istr τ.usb⟩
  unfold doUsbPoll
  dsimp only
  split
  · exact ⟨σ.usb, .inl rfl, Acts.plumb (pollReset_same σ)⟩
  · split
    · obtain ⟨u, hu, hacts⟩ := pollCtr_acts cfg (σ.usb.getReg usbIstrReg) σ
      exact ⟨u, hu, hacts.tail (htail _ _)⟩
    · exact ⟨σ.usb, .inl rfl, .single (htail _ σ)⟩

/-- What does not depend on the peripheral and every act preserves, every run
preserves. -/
theorem run_acts {P : Dev → Prop} (husb : ∀ {σ : Dev} (u : UsbPeriph), P σ → P { σ with usb := u })
    (hact : ∀ {σ τ}, Act cfg σ τ → P σ → P τ) {σ : Dev} (hσ : P σ) (es : List Event) :
    P ((machine cfg).run σ es) := by
  refine (machine cfg).run_preserves (fun τ e hτ => ?_) hσ es
  obtain ⟨u, -, hacts⟩ := doUsbPoll_acts cfg (τ.onBus e)
  exact hacts.preserves hact (husb u (husb (hw e τ.usb) hτ))

/-! ## The flash across acts -/

/-- The accesses of every act, whatever the request and the block. -/
structure AllOps (cfg : Config) (Q : FlashOp → Prop) : Prop where
  wipe : WipeOps cfg Q
  command : ∀ prog, CommandOps cfg Q prog
  block : ∀ prog, BlockOps cfg Q prog
  copy : ∀ baseaddr, CopyOps Q baseaddr

theorem AllOps.any (cfg : Config) : AllOps cfg fun _ => True where
  wipe := fun _ _ _ _ => ⟨fun _ _ => trivial, fun _ _ => trivial⟩
  command := fun _ _ => ⟨fun _ _ => trivial, fun _ _ => trivial⟩
  block := fun _ _ => ⟨fun _ _ => trivial, fun _ _ => trivial, fun _ _ _ _ _ => trivial⟩
  copy := fun _ _ _ => trivial

theorem act_logs {Q : FlashOp → Prop} (hQ : AllOps cfg Q) {σ τ : Dev} (h : Act cfg σ τ)
    (hs : σ.flash.cr.strt = false) : Flash.Logs Q σ.flash τ.flash := by
  cases h with
  | plumb hsame => rw [hsame.flash]; exact Flash.Logs.refl _
  | send => exact Flash.Logs.refl _
  | stall => exact Flash.Logs.refl _
  | forget => exact Flash.Logs.refl _
  | setup => exact Flash.Logs.refl _
  | pass => exact Flash.Logs.refl _
  | request => exact usbdfuControlRequest_logs (σ := σ.toHandler) fun _ => hQ.copy _
  | @complete cb stage =>
      cases cb
      exact usbdfuGetstatusComplete_logs (σ := σ.call (.complete stage)) hQ.wipe
        (hQ.command σ.dfu.prog) (hQ.block σ.dfu.prog) hs

/-- What every access meets, every access of a run meets. -/
theorem run_logs {Q : FlashOp → Prop} (hQ : AllOps cfg Q) {σ : Dev}
    (hs : σ.flash.cr.strt = false) (es : List Event) :
    Flash.Logs Q σ.flash ((machine cfg).run σ es).flash := by
  refine run_acts (P := fun τ => Flash.Logs Q σ.flash τ.flash) (fun _ hτ => hτ) ?_
    (Flash.Logs.refl _) es
  intro τ υ hact hτ
  exact hτ.trans (act_logs hQ hact (hτ.strt hs))

/-! ## The peripheral across acts -/

theorem usbdfuControlRequest_usb (σ : Dev) : (usbdfuControlRequest cfg σ).2.usb = σ.usb := by
  unfold usbdfuControlRequest
  split
  · unfold dfuDnload
    split <;> rfl
  · dsimp only
    split <;> rfl
  · rfl
  · rfl
  · unfold dfuUpload dfuUploadBlock
    dsimp only
    split
    · rfl
    split
    · split <;> rfl
    · rfl
  · rfl
  · rfl
  · rfl

theorem Acts.sw {σ τ : Dev} (h : Acts cfg σ τ) : Sw σ.usb τ.usb := by
  refine h.preserves (P := fun υ => Sw σ.usb υ.usb) (fun {υ ω} hact hυ => ?_) .refl
  cases hact with
  | plumb hsame => exact hυ.trans hsame.usb
  | send => exact hυ
  | stall => exact hυ
  | forget => exact hυ
  | setup => exact hυ
  | pass => exact hυ
  | request => exact hυ.keep (congrArg UsbPeriph.reg (usbdfuControlRequest_usb _))
  | @complete cb =>
      cases cb
      exact hυ.keep (congrArg UsbPeriph.reg (usbdfuGetstatusComplete_usb _))

/-- After a poll no bus reset is latched: it has been handled, and software
latches none. -/
theorem poll_noReset (cfg : Config) (σ : Dev) (e : Event) : (poll cfg σ e).usb.NoReset := by
  by_cases hreset : (σ.onBus e).usb.getReg usbIstrReg &&& usbIstrReset ≠ 0
  · rw [poll, doUsbPoll, if_pos hreset]
    refine (pollReset_sw (σ.onBus e)).noReset ?_
    rw [UsbPeriph.NoReset, clrIstr, setReg_reg, if_pos rfl, regWrite, if_neg (by decide),
      if_pos rfl, BitVec.and_assoc, show ~~~usbIstrReset &&& usbIstrReset = 0#16 from by decide]
    exact BitVec.and_zero
  · obtain ⟨u, hu, hacts⟩ := doUsbPoll_acts cfg (σ.onBus e)
    refine hacts.sw.noReset ?_
    have hbus : (σ.onBus e).usb.NoReset := by
      rw [UsbPeriph.NoReset, ← getReg_and_reset]
      exact not_not.mp hreset
    rcases hu with rfl | ⟨n, rfl⟩
    · exact hbus
    · exact setReg_noReset n _ hbus

/-- No bus reset is latched in a reachable state. -/
theorem noReset_invariant (cfg : Config) : (machine cfg).Invariant fun σ => σ.usb.NoReset :=
  TSys.Inductive.invariant
    { init := fun σ hboot => by
        rw [UsbPeriph.NoReset, hboot.istr]
        decide
      step := fun σ e _ => poll_noReset cfg σ e }

end LnDso
