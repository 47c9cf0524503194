import LnDso.Logic.Effects

/-!
# What a bus reset leaves behind

The reset branch of `do_usb_poll` sets up endpoint 0 and clears the address, and
returns. The FSM state, the stored request and the callback are left as they
were, so packets after the reset go on with the transfer before it.
-/

namespace LnDso

open Lib UsbPeriph

variable {cfg : Config} {σ τ υ : Dev}

/-- A class or standard request, by its type bits. -/
def UsbSetupData.ClassOrStandard (r : UsbSetupData) : Prop :=
  r.bmRequestType &&& usbReqTypeType = usbReqTypeClass ∨
    r.bmRequestType &&& usbReqTypeType = usbReqTypeStandard

instance (r : UsbSetupData) : Decidable r.ClassOrStandard := inferInstanceAs (Decidable (_ ∨ _))

/-- No callback runs, and no class or standard request is dispatched. -/
def Call.Harmless : Call → Prop
  | .complete _ => False
  | .dispatch q _ => ¬ q.ClassOrStandard
  | _ => True

instance : DecidablePred Call.Harmless
  | .complete _ => inferInstanceAs (Decidable False)
  | .dispatch q _ => inferInstanceAs (Decidable (¬ q.ClassOrStandard))
  | .setup _ | .dnload _ | .upload _ | .getstatus | .dnbusy _ | .send _ _ | .stall =>
      inferInstanceAs (Decidable True)

/-- An OUT packet or an IN completion. -/
def Event.IsData : Event → Prop
  | .out _ | .inDone => True
  | _ => False

/-- The transfer of `σ` has been abandoned, as far as `τ` shows. -/
structure Dev.Abandons (σ τ : Dev) : Prop where
  calls : σ.Records Call.Harmless τ
  dfu : τ.dfu = σ.dfu
  flash : τ.flash = σ.flash
  address : τ.usb.reg usbDaddrReg &&& usbDaddrAddr = 0

/-- No transfer is in progress that packets alone could carry to an effect. -/
structure Dev.NothingPending (σ : Dev) : Prop where
  request : σ.pipe.usbFsmState = .dataOut ∨ σ.pipe.usbFsmState = .lastDataOut →
    ¬ σ.pipe.usbReq.ClassOrStandard
  callback : σ.pipe.usbFsmState = .dataIn ∨ σ.pipe.usbFsmState = .lastDataIn ∨
    σ.pipe.usbFsmState = .statusIn ∨ σ.pipe.usbFsmState = .statusOut → σ.pipe.usbCompleteCb = none
  address : σ.pipe.usbFsmState = .statusIn → σ.pipe.usbReq.bmRequestType = 0 →
    σ.pipe.usbReq.bRequest = usbReqSetAddress → σ.pipe.usbReq.wValue &&& usbDaddrAddr = 0

/-! ## The address register -/

theorem epRegRmw_daddr (f : Half → Half) (u : UsbPeriph) :
    (epRegRmw 0 f u).reg usbDaddrReg = u.reg usbDaddrReg :=
  epRegRmw_reg_ne (by decide) f u

theorem usbdEpReadPacket_daddr (forceNak : Nat → Bool) (buf : Mem) (off : Nat) (len : Half)
    (u : UsbPeriph) :
    (usbdEpReadPacket forceNak 0 buf off len u).2.2.reg usbDaddrReg = u.reg usbDaddrReg := by
  have hclr : (usbClrEpRxCtr 0 (u.touch 0)).reg usbDaddrReg = u.reg usbDaddrReg :=
    epRegRmw_daddr _ _
  unfold usbdEpReadPacket
  dsimp only
  split
  · rfl
  · show (if forceNak 0 then usbClrEpRxCtr 0 (u.touch 0)
      else usbSetEpRxStat 0 usbEpRxStatValid (usbClrEpRxCtr 0 (u.touch 0))).reg usbDaddrReg = _
    split
    · exact hclr
    · exact (epRegRmw_daddr _ _).trans hclr

theorem writePacket0_daddr (buf : Mem) (len : Half) (σ : Dev) :
    (σ.writePacket0 buf len).usb.reg usbDaddrReg = σ.usb.reg usbDaddrReg := by
  show (usbdEpWritePacket 0 buf len σ.usb).2.reg usbDaddrReg = _
  unfold usbdEpWritePacket
  dsimp only
  split
  · rfl
  · exact epRegRmw_daddr (setTxStatVal · usbEpTxStatValid) _

theorem stallTransaction_daddr (σ : Dev) :
    (stallTransaction σ).usb.reg usbDaddrReg = σ.usb.reg usbDaddrReg :=
  (epStallSet_zero σ.usb).1.reg usbDaddrReg (by decide)

theorem usbControlSendChunk_daddr (σ : Dev) :
    (usbControlSendChunk σ).usb.reg usbDaddrReg = σ.usb.reg usbDaddrReg := by
  by_cases hmore : 64 < σ.pipe.datasize.toNat
  · rw [usbControlSendChunk_more hmore]
    exact writePacket0_daddr _ _ σ
  · rw [usbControlSendChunk_last (Nat.not_lt.mp hmore)]
    exact writePacket0_daddr _ _ σ

theorem usbControlRecvChunk_daddr (σ : Dev) :
    (usbControlRecvChunk σ).2.usb.reg usbDaddrReg = σ.usb.reg usbDaddrReg := by
  unfold usbControlRecvChunk
  dsimp only
  split
  · exact (stallTransaction_daddr _).trans (usbdEpReadPacket_daddr _ _ _ _ _)
  · exact usbdEpReadPacket_daddr _ _ _ _ _

theorem tail_daddr (istr : Half) (σ : Dev) :
    (σ.tail istr).usb.reg usbDaddrReg = σ.usb.reg usbDaddrReg := by
  have hack : ∀ bit u, (ackIstr istr bit u).reg usbDaddrReg = u.reg usbDaddrReg :=
    fun bit u => (ackIstr_fields istr bit u).1 usbDaddrReg (by decide)
  have hcntr : usbDaddrReg ≠ usbCntrReg := by decide
  show (pollTail istr σ.usb).reg usbDaddrReg = _
  rw [pollTail, setReg_reg, if_neg hcntr, hack, hack, hack]

/-! ## Nothing stays pending -/

theorem Dev.NothingPending.of_idle (h : σ.pipe.usbFsmState = .idle) : σ.NothingPending := by
  constructor <;> simp [h]

theorem Dev.NothingPending.of_pipe (h : σ.NothingPending) (hpipe : τ.pipe = σ.pipe) :
    τ.NothingPending := by
  obtain ⟨hreq, hcb, haddr⟩ := h
  constructor
  · rwa [hpipe]
  · rwa [hpipe]
  · rwa [hpipe]

/-- A state of an IN data stage, or of its status stage, with no callback. -/
theorem Dev.NothingPending.of_in (hcb : σ.pipe.usbCompleteCb = none)
    (h : σ.pipe.usbFsmState = .dataIn ∨ σ.pipe.usbFsmState = .lastDataIn ∨
      σ.pipe.usbFsmState = .statusOut) : σ.NothingPending := by
  refine ⟨fun hout => ?_, fun _ => hcb, fun hin => ?_⟩
  · rcases h with h | h | h <;> rw [h] at hout <;> simp at hout
  · rcases h with h | h | h <;> rw [h] at hin <;> simp at hin

/-- A state of an OUT data stage whose request is of another type. -/
theorem Dev.NothingPending.of_out
    (h : σ.pipe.usbFsmState = .dataOut ∨ σ.pipe.usbFsmState = .lastDataOut)
    (hreq : ¬ σ.pipe.usbReq.ClassOrStandard) : σ.NothingPending := by
  refine ⟨fun _ => hreq, fun hin => ?_, fun hin => ?_⟩
  · rcases h with h | h <;> rw [h] at hin <;> simp at hin
  · rcases h with h | h <;> rw [h] at hin <;> simp at hin

theorem usbdControlIn_nothingPending (h : σ.NothingPending) :
    (usbdControlIn cfg σ).NothingPending := by
  unfold usbdControlIn
  split
  · next hfsm =>
    have hcb := h.callback (.inl hfsm)
    by_cases hmore : 64 < σ.pipe.datasize.toNat
    · rw [usbControlSendChunk_more hmore]
      exact .of_in hcb (.inl rfl)
    · rw [usbControlSendChunk_last (Nat.not_lt.mp hmore)]
      refine .of_in hcb ?_
      dsimp only
      split
      · exact .inl rfl
      · exact .inr (.inl rfl)
  · next hfsm => exact .of_in (h.callback (.inr (.inl hfsm))) (.inr (.inr rfl))
  · exact .of_idle rfl
  · exact .of_idle rfl

theorem usbdControlIn_address (h : σ.NothingPending)
    (haddr : σ.usb.reg usbDaddrReg &&& usbDaddrAddr = 0) :
    (usbdControlIn cfg σ).usb.reg usbDaddrReg &&& usbDaddrAddr = 0 := by
  unfold usbdControlIn
  split
  · rw [usbControlSendChunk_daddr]
    exact haddr
  · show (usbSetEpRxStat 0 usbEpRxStatValid σ.usb).reg usbDaddrReg &&& _ = 0
    rw [show (usbSetEpRxStat 0 usbEpRxStatValid σ.usb).reg usbDaddrReg = _ from
      epRegRmw_daddr _ _]
    exact haddr
  · next hfsm =>
    obtain ⟨husb, hpipe, -⟩ := completeTransfer_sameUsb cfg .statusIn σ
    dsimp only
    rw [hpipe]
    split
    · next hset =>
      -- the address goes in with EF, which is not part of it
      have hzero := h.address hfsm hset.1 hset.2
      show (UsbPeriph.setReg _ usbDaddrReg _).reg usbDaddrReg &&& usbDaddrAddr = 0
      rw [hzero, setReg_reg, if_pos rfl, regWrite, if_neg (by decide), if_neg (by decide),
        if_neg (by decide)]
      decide
    · show (completeTransfer cfg .statusIn σ).usb.reg usbDaddrReg &&& _ = 0
      rw [husb]
      exact haddr
  · rw [stallTransaction_daddr]
    exact haddr

/-- A request of another type is refused. -/
theorem dispatch_other (h : ¬ σ.pipe.usbReq.ClassOrStandard) :
    usbControlRequestDispatch cfg σ =
      (.notsupp, σ.call (.dispatch σ.pipe.usbReq σ.usbdControlBuffer)) := by
  obtain ⟨hclass, hstandard⟩ := not_or.mp h
  rw [usbControlRequestDispatch_pass]
  · exact usbdStandardRequest_type (σ := σ.call _) hstandard
  · intro hint
    refine hclass ?_
    have htype := congrArg (· &&& usbReqTypeType) hint
    simp only [BitVec.and_assoc] at htype
    exact htype

/-- A chunk that is taken leaves the FSM state. -/
theorem usbControlRecvChunk_fsm (h : ¬ (usbControlRecvChunk σ).1 < 0) :
    (usbControlRecvChunk σ).2.pipe.usbFsmState = σ.pipe.usbFsmState := by
  unfold usbControlRecvChunk at h ⊢
  dsimp only at h ⊢
  split
  · next hsize =>
    rw [if_pos hsize] at h
    exact absurd (Int.negSucc_lt_zero 0) h
  · rfl

theorem usbdControlOut_nothingPending (h : σ.NothingPending) :
    (usbdControlOut cfg σ).NothingPending := by
  have hrefused : (usbControlRecvChunk σ).1 < 0 → (usbControlRecvChunk σ).2.NothingPending :=
    fun hneg => .of_idle (usbControlRecvChunk_refused hneg)
  have hreq := (usbControlRecvChunk_sameDfu σ).2.2
  unfold usbdControlOut
  split
  · next hfsm =>
    have hother := h.request (.inl hfsm)
    dsimp only
    split
    · next hneg => exact hrefused hneg
    next hpos =>
    split
    · refine .of_out (.inr rfl) ?_
      rw [Dev.setFsm_pipe, hreq]
      exact hother
    · refine .of_out (.inl ((usbControlRecvChunk_fsm hpos).trans hfsm)) ?_
      rw [hreq]
      exact hother
  · next hfsm =>
    dsimp only
    split
    · next hneg => exact hrefused hneg
    · rw [dispatch_other (by rw [hreq]; exact h.request (.inr hfsm))]
      exact .of_idle rfl
  · refine .of_idle ?_
    dsimp only
    rw [(completeTransfer_sameUsb _ _ _).2.1]
    rfl
  · exact .of_idle rfl

theorem usbdControlOut_daddr (h : σ.NothingPending) :
    (usbdControlOut cfg σ).usb.reg usbDaddrReg = σ.usb.reg usbDaddrReg := by
  have hrecv := usbControlRecvChunk_daddr σ
  unfold usbdControlOut
  split
  · dsimp only
    split
    · exact hrecv
    split
    · exact hrecv
    · exact hrecv
  · next hfsm =>
    dsimp only
    split
    · exact hrecv
    · rw [dispatch_other (by rw [(usbControlRecvChunk_sameDfu σ).2.2]; exact h.request (.inr hfsm))]
      exact (stallTransaction_daddr _).trans hrecv
  · dsimp only
    rw [(completeTransfer_sameUsb _ _ _).1]
    exact usbdEpReadPacket_daddr _ _ _ _ _
  · exact stallTransaction_daddr σ

/-! ## Packets after the reset -/

/-- What every packet after the reset keeps, while nothing is pending. -/
structure Dev.Quiescent (σ : Dev) : Prop where
  nothing : σ.NothingPending
  address : σ.usb.reg usbDaddrReg &&& usbDaddrAddr = 0

theorem Dev.Quiescent.tail {istr : Half} (h : σ.Quiescent) : (σ.tail istr).Quiescent := by
  refine ⟨h.nothing.of_pipe rfl, ?_⟩
  rw [tail_daddr]
  exact h.address

theorem stallTransaction_quiescent (haddr : σ.usb.reg usbDaddrReg &&& usbDaddrAddr = 0) :
    (stallTransaction σ).Quiescent := by
  refine ⟨.of_idle rfl, ?_⟩
  rw [stallTransaction_daddr]
  exact haddr

theorem poll_quiescent (cfg : Config) (htidy : σ.Tidy) (h : σ.Quiescent) {e : Event} (he : e.IsData) :
    (poll cfg σ e).Quiescent := by
  cases e with
  | out pkt =>
      obtain ⟨-, -, hpoll⟩ := poll_out_exact cfg htidy.noReset pkt
      have hnothing : (σ.onBus (.out pkt)).touch0.NothingPending := h.nothing.of_pipe rfl
      have hbus : (hwOut pkt.bytes σ.usb).reg usbDaddrReg = σ.usb.reg usbDaddrReg :=
        hwOut_reg_ne (by decide) _ _
      rw [hpoll]
      refine Dev.Quiescent.tail ⟨usbdControlOut_nothingPending hnothing, ?_⟩
      rw [usbdControlOut_daddr hnothing,
        show (σ.onBus (.out pkt)).touch0.usb.reg usbDaddrReg = _ from hbus]
      exact h.address
  | inDone =>
      have hbus : (σ.onBus .inDone).usb.reg usbDaddrReg = σ.usb.reg usbDaddrReg :=
        hwIn_reg_ne (by decide) _
      have haddr : (σ.onBus .inDone).usb.reg usbDaddrReg &&& usbDaddrAddr = 0 := by
        rw [hbus]
        exact h.address
      cases hrx : (σ.usb.ep 0).ctrRx with
      | true =>
          rw [poll_refused htidy (.inl rfl) hrx]
          exact (stallTransaction_quiescent (σ := (σ.onBus .inDone).touch0) haddr).tail
      | false =>
          rw [poll_done htidy (.inl rfl) hrx]
          have hnothing : { σ.onBus .inDone with
              usb := usbClrEpTxCtr 0 (σ.onBus .inDone).usb }.NothingPending :=
            h.nothing.of_pipe rfl
          refine Dev.Quiescent.tail ⟨usbdControlIn_nothingPending hnothing,
            usbdControlIn_address hnothing ?_⟩
          show (usbClrEpTxCtr 0 (σ.onBus .inDone).usb).reg usbDaddrReg &&& _ = 0
          rw [show (usbClrEpTxCtr 0 (σ.onBus .inDone).usb).reg usbDaddrReg = _ from
            epRegRmw_daddr _ _]
          exact haddr
  | _ => exact absurd he not_false

/-- With nothing pending a packet has no effect. -/
theorem poll_abandons (cfg : Config) (htidy : σ.Tidy) {t : Transfer} (htracks : σ.Tracks t)
    (h : σ.Quiescent) {e : Event} (he : e.IsData) : σ.Abandons (poll cfg σ e) := by
  have haddr := (poll_quiescent cfg htidy h he).address
  have hplain : ∀ {τ υ : Dev}, τ.Plumbed υ → τ.Records Call.Harmless υ :=
    fun hpl => hpl.calls.mono fun c hc => by
      cases c with
      | setup | send | stall => trivial
      | _ => exact absurd hc not_false
  cases poll_effect cfg htidy htracks e with
  | idle _ hpl => exact ⟨hplain hpl, hpl.dfu, hpl.flash, haddr⟩
  | @dispatch ρ hq hpl _ hpl' =>
      have hother : ¬ ρ.pipe.usbReq.ClassOrStandard := by
        cases e with
        | out pkt =>
            rw [hq.1]
            exact h.nothing.request (.inr hq.2.1)
        | inDone => exact absurd hq not_false
        | _ => exact absurd he not_false
      rw [dispatch_other hother] at hpl'
      have hcall : ρ.Records Call.Harmless
          (ρ.call (.dispatch ρ.pipe.usbReq ρ.usbdControlBuffer)) := .one rfl hother
      exact ⟨((hplain hpl).trans hcall).trans (hplain hpl'), hpl'.dfu.trans hpl.dfu,
        hpl'.flash.trans hpl.flash, haddr⟩
  | @complete ρ stage _ hst _ _ =>
      -- a callback that could run would be pending
      have hnone : σ.pipe.usbCompleteCb = none := by
        refine h.nothing.callback (.inr (.inr ?_))
        rw [hst.fsm]
        exact hst.status
      cases hst.callback.symm.trans hnone

theorem run_abandons (htidy : σ.Tidy) {t : Transfer} (htracks : σ.Tracks t) (h : σ.Quiescent)
    {es : List Event} (hes : ∀ e ∈ es, e.IsData) : σ.Abandons ((machine cfg).run σ es) := by
  induction es generalizing σ t with
  | nil => exact ⟨.of_eq rfl, rfl, rfl, h.address⟩
  | cons e es ih =>
      have he : e.IsData := hes e List.mem_cons_self
      have hstep := poll_abandons cfg htidy htracks h he
      have hrun := ih (σ := poll cfg σ e) (poll_tidy _ htidy e) (poll_tracks _ htidy htracks e)
        (poll_quiescent _ htidy h he) fun x hx => hes x (List.mem_cons_of_mem _ hx)
      exact ⟨hstep.calls.trans hrun.calls, hrun.dfu.trans hstep.dfu,
        hrun.flash.trans hstep.flash, hrun.address⟩

/-! ## What is pending takes effect -/

/-- The callback is recorded. -/
theorem completeTransfer_calls (cfg : Config) (hcb : σ.pipe.usbCompleteCb = some .usbdfuGetstatusComplete)
    (stage : UsbFsmState) :
    ∃ l, (completeTransfer cfg stage σ).calls = σ.calls ++ .complete stage :: l := by
  rw [completeTransfer_registered hcb, usbdfuGetstatusComplete_calls]
  split
  · exact ⟨[.dnbusy _], List.append_assoc _ _ _⟩
  · exact ⟨[], rfl⟩

/-- The run on some data events from `σ` ends in a poll that runs the callback. -/
def Dev.WillComplete (cfg : Config) (σ : Dev) : Prop :=
  ∃ es e, (∀ x ∈ es ++ [e], x.IsData) ∧ ∃ stage l,
    (poll cfg ((machine cfg).run σ es) e).calls =
      ((machine cfg).run σ es).calls ++ .complete stage :: l

theorem Dev.WillComplete.cons {e : Event} (he : e.IsData) (h : (poll cfg σ e).WillComplete cfg) :
    σ.WillComplete cfg := by
  obtain ⟨es, e', hes, hcalls⟩ := h
  refine ⟨e :: es, e', fun x hx => ?_, hcalls⟩
  rcases List.mem_cons.mp hx with rfl | hx
  · exact he
  · exact hes x hx

theorem Dev.Tidy.ctrRx (h : σ.Tidy) (hne : σ.pipe.usbFsmState ≠ .idle) :
    (σ.usb.ep 0).ctrRx = false :=
  Bool.eq_false_iff.mpr fun hrx => hne (h.stale hrx).2

theorem willComplete_statusOut (htidy : σ.Tidy)
    (hcb : σ.pipe.usbCompleteCb = some .usbdfuGetstatusComplete)
    (hfsm : σ.pipe.usbFsmState = .statusOut) : σ.WillComplete cfg := by
  obtain ⟨-, -, hpoll⟩ := poll_out_exact cfg htidy.noReset .full
  have hfsm' : (σ.onBus (.out .full)).touch0.pipe.usbFsmState = .statusOut := hfsm
  let ρ : Dev := (σ.onBus (.out .full)).touch0
  obtain ⟨l, hl⟩ := completeTransfer_calls cfg (σ := Dev.setFsm .idle { ρ with
    usb := (usbdEpReadPacket ρ.pipe.usbForceNak 0 (fun _ => 0) 0 0 ρ.usb).2.2 }) hcb .statusOut
  refine ⟨[], .out .full, by simp [Event.IsData], .statusOut, l, ?_⟩
  rw [TSys.run_nil, hpoll, usbdControlOut, hfsm']
  exact hl

theorem willComplete_statusIn (htidy : σ.Tidy)
    (hcb : σ.pipe.usbCompleteCb = some .usbdfuGetstatusComplete)
    (hfsm : σ.pipe.usbFsmState = .statusIn) : σ.WillComplete cfg := by
  obtain ⟨u, istr, -, -, hpoll⟩ := poll_in cfg htidy.noReset (htidy.ctrRx (by simp [hfsm]))
  have hin : (usbdControlIn cfg { σ with usb := u }).calls =
      (completeTransfer cfg .statusIn { σ with usb := u }).calls := by
    rw [usbdControlIn, show Pipe.usbFsmState (Dev.pipe { σ with usb := u }) = _ from hfsm]
    dsimp only
    split <;> rfl
  obtain ⟨l, hl⟩ := completeTransfer_calls cfg (σ := { σ with usb := u }) hcb .statusIn
  refine ⟨[], .inDone, by simp [Event.IsData], .statusIn, l, ?_⟩
  rw [TSys.run_nil, hpoll, Dev.tail_calls, hin]
  exact hl

theorem willComplete_lastDataIn (htidy : σ.Tidy)
    (hcb : σ.pipe.usbCompleteCb = some .usbdfuGetstatusComplete)
    (hfsm : σ.pipe.usbFsmState = .lastDataIn) : σ.WillComplete cfg := by
  have htidy' := poll_tidy cfg htidy .inDone
  obtain ⟨u, istr, -, -, hpoll⟩ := poll_in cfg htidy.noReset (htidy.ctrRx (by simp [hfsm]))
  refine .cons (e := .inDone) trivial ?_
  rw [hpoll, usbdControlIn, show Pipe.usbFsmState (Dev.pipe { σ with usb := u }) = _ from hfsm]
    at htidy' ⊢
  exact willComplete_statusOut htidy' hcb rfl

/-- An IN completion of the data stage sends the next chunk. -/
theorem poll_dataIn (cfg : Config) (htidy : σ.Tidy) (hfsm : σ.pipe.usbFsmState = .dataIn) :
    ∃ u istr, poll cfg σ .inDone = (usbControlSendChunk { σ with usb := u }).tail istr := by
  obtain ⟨u, istr, -, -, hpoll⟩ := poll_in cfg htidy.noReset (htidy.ctrRx (by simp [hfsm]))
  refine ⟨u, istr, ?_⟩
  rw [hpoll, usbdControlIn, show Pipe.usbFsmState (Dev.pipe { σ with usb := u }) = _ from hfsm]

theorem willComplete_dataIn (htidy : σ.Tidy)
    (hcb : σ.pipe.usbCompleteCb = some .usbdfuGetstatusComplete)
    (hfsm : σ.pipe.usbFsmState = .dataIn) : σ.WillComplete cfg := by
  -- every IN completion sends a chunk, or the empty packet that was still owed
  generalize hm : 2 * σ.pipe.datasize.toNat + (if σ.pipe.usbNeedsZlp then 1 else 0) = m
  induction m using Nat.strongRecOn generalizing σ with
  | ind m ih =>
      have htidy' := poll_tidy cfg htidy .inDone
      obtain ⟨u, istr, hpoll⟩ := poll_dataIn cfg htidy hfsm
      refine .cons (e := .inDone) trivial ?_
      by_cases hmore : 64 < σ.pipe.datasize.toNat
      · rw [usbControlSendChunk_more (σ := { σ with usb := u }) hmore] at hpoll
        have hsize : (poll cfg σ .inDone).pipe.datasize.toNat = σ.pipe.datasize.toNat - 64 := by
          rw [hpoll]
          show (σ.pipe.datasize - 64).toNat = _
          rw [BitVec.toNat_sub]
          change (2 ^ 16 - 64 + _) % _ = _
          have := σ.pipe.datasize.isLt
          omega
        have hzlp : (poll cfg σ .inDone).pipe.usbNeedsZlp = σ.pipe.usbNeedsZlp := by rw [hpoll]; rfl
        refine ih _ ?_ htidy' (by rw [hpoll]; exact hcb) (by rw [hpoll]; rfl) rfl
        rw [hsize, hzlp]
        omega
      · rw [usbControlSendChunk_last (σ := { σ with usb := u }) (Nat.not_lt.mp hmore)] at hpoll
        have hnext : (poll cfg σ .inDone).pipe.usbFsmState =
            if σ.pipe.usbNeedsZlp then .dataIn else .lastDataIn := by rw [hpoll]; rfl
        have hcb' : (poll cfg σ .inDone).pipe.usbCompleteCb = some .usbdfuGetstatusComplete := by
          rw [hpoll]
          exact hcb
        cases hzlp : σ.pipe.usbNeedsZlp with
        | true =>
            rw [hzlp, if_pos rfl] at hm hnext
            refine ih 0 (by omega) htidy' hcb' hnext ?_
            rw [hpoll]
            rfl
        | false =>
            rw [hzlp, if_neg Bool.false_ne_true] at hnext
            exact willComplete_lastDataIn htidy' hcb' hnext

/-- A callback registered in an IN transfer runs once the transfer goes on. -/
theorem willComplete (cfg : Config) (htidy : σ.Tidy)
    (hcb : σ.pipe.usbCompleteCb = some .usbdfuGetstatusComplete)
    (h : σ.pipe.usbFsmState = .dataIn ∨ σ.pipe.usbFsmState = .lastDataIn ∨
      σ.pipe.usbFsmState = .statusIn ∨ σ.pipe.usbFsmState = .statusOut) :
    σ.WillComplete cfg := by
  rcases h with h | h | h | h
  · exact willComplete_dataIn htidy hcb h
  · exact willComplete_lastDataIn htidy hcb h
  · exact willComplete_statusIn htidy hcb h
  · exact willComplete_statusOut htidy hcb h

/-! ## Every state a reset can arrive in -/

theorem run_tidy_tracks (cfg : Config) (htidy : σ.Tidy) {t : Transfer} (htracks : σ.Tracks t)
    (es : List Event) :
    ((machine cfg).run σ es).Tidy ∧ ∃ t, ((machine cfg).run σ es).Tracks t :=
  (machine cfg).run_preserves (P := fun τ => τ.Tidy ∧ ∃ t, τ.Tracks t)
    (fun _ e h => ⟨poll_tidy _ h.1 e, h.2.elim fun _ ht => ⟨_, poll_tracks _ h.1 ht e⟩⟩)
    ⟨htidy, t, htracks⟩ es

/-- The last poll of a run that abandons the transfer records nothing but harmless calls. -/
theorem Dev.Abandons.last (htidy : σ.Tidy) {t : Transfer} (htracks : σ.Tracks t) {es : List Event}
    {e : Event} (h : σ.Abandons ((machine cfg).run σ (es ++ [e]))) :
    ((machine cfg).run σ es).Records Call.Harmless (poll cfg ((machine cfg).run σ es) e) := by
  obtain ⟨htidy', t', htracks'⟩ := run_tidy_tracks cfg htidy htracks es
  have hcalls := h.calls
  rw [TSys.run_snoc] at hcalls
  exact hcalls.after (run_records cfg htidy htracks es) (poll_effect _ htidy' htracks' e).records

theorem nothingPending_of_abandons (htidy : σ.Tidy) {t : Transfer} (htracks : σ.Tracks t)
    (h : ∀ es, (∀ e ∈ es, e.IsData) → σ.Abandons ((machine cfg).run σ es)) :
    σ.NothingPending where
  request := by
    intro hfsm
    have hopen : σ.Open t := htracks.resolve_left fun hno => hfsm.elim hno.more hno.last
    obtain ⟨k, hk⟩ := hopen.receiving.reaches_dispatch cfg
    obtain ⟨htidy', t', htracks'⟩ := run_tidy_tracks cfg htidy htracks
      ((List.replicate k Packet.full).map .out)
    obtain ⟨l, buf, hl, hmem⟩ := (poll_effect cfg htidy' htracks' _).dispatched hk
    have hdata : ∀ e ∈ (List.replicate k Packet.full).map Event.out ++ [Event.out .full],
        e.IsData := by
      intro e he
      rcases List.mem_append.mp he with he | he
      · obtain ⟨pkt, -, rfl⟩ := List.mem_map.mp he
        trivial
      · rw [List.mem_singleton.mp he]
        trivial
    have hlast := (h _ hdata).last htidy htracks
    rw [hopen.receiving.usbReq]
    exact hlast.mem hl hmem
  callback := by
    intro hfsm
    by_contra hsome
    have hcb : σ.pipe.usbCompleteCb = some .usbdfuGetstatusComplete := by
      cases hcb : σ.pipe.usbCompleteCb with
      | none => exact absurd hcb hsome
      | some cb =>
          cases cb
          rfl
    obtain ⟨es, e, hes, stage, l, hl⟩ := willComplete cfg htidy hcb hfsm
    exact ((h (es ++ [e]) hes).last htidy htracks).mem hl List.mem_cons_self
  address := by
    intro hfsm htype hreq
    obtain ⟨u, istr, -, -, hpoll⟩ := poll_in cfg htidy.noReset (htidy.ctrRx (by simp [hfsm]))
    have haddr := (h [.inDone] (by simp [Event.IsData])).address
    obtain ⟨-, hpipe, -⟩ := completeTransfer_sameUsb cfg .statusIn { σ with usb := u }
    rw [TSys.run_cons, TSys.run_nil, machine_step, hpoll, tail_daddr, usbdControlIn,
      show Pipe.usbFsmState (Dev.pipe { σ with usb := u }) = _ from hfsm] at haddr
    dsimp only at haddr
    rw [hpipe, if_pos ⟨htype, hreq⟩] at haddr
    have hset : ((σ.pipe.usbReq.wValue &&& usbDaddrAddr) ||| usbDaddrEf) &&& usbDaddrAddr = 0 := by
      rw [← haddr]
      show _ = UsbPeriph.reg (UsbPeriph.setReg _ usbDaddrReg _) usbDaddrReg &&& usbDaddrAddr
      rw [setReg_reg, if_pos rfl, regWrite, if_neg (by decide), if_neg (by decide),
        if_neg (by decide)]
    rw [BitVec.and_or_distrib_right, BitVec.and_assoc, BitVec.and_self] at hset
    exact (BitVec.or_eq_zero_iff.mp hset).1

theorem NothingPending.reset_iff (cfg : Config) (htidy : σ.Tidy) :
    (poll cfg σ .reset).NothingPending ↔ σ.NothingPending := by
  rw [poll_reset htidy.noReset]
  constructor
  · exact fun h => ⟨h.request, h.callback, h.address⟩
  · exact fun h => ⟨h.request, h.callback, h.address⟩

/-- **A reset abandons the transfer.** After a bus reset packets alone have no
effect just if nothing was pending: no data stage of a class or standard
request, no IN transfer with a callback, no status stage of SET_ADDRESS. -/
theorem reset_abandons (cfg : Config) (σ : Dev) (hσ : (machine cfg).Reachable σ) :
    (∀ es, (∀ e ∈ es, e.IsData) →
      (poll cfg σ .reset).Abandons ((machine cfg).run (poll cfg σ .reset) es)) ↔
      σ.NothingPending := by
  obtain ⟨htidy, t, htracks⟩ := tracks_invariant cfg σ hσ
  have htidy' := poll_tidy cfg htidy .reset
  have htracks' := poll_tracks cfg htidy htracks .reset
  rw [← NothingPending.reset_iff cfg htidy]
  constructor
  · exact nothingPending_of_abandons htidy' htracks'
  · intro hnothing es hes
    refine run_abandons htidy' htracks' ⟨hnothing, ?_⟩ hes
    rw [poll_reset htidy.noReset]
    show (UsbPeriph.setReg _ usbDaddrReg usbDaddrEf).reg usbDaddrReg &&& usbDaddrAddr = 0
    rw [setReg_reg, if_pos rfl, regWrite, if_neg (by decide), if_neg (by decide),
      if_neg (by decide)]
    decide

/-- The rule on a GET_DESCRIPTOR that the reset cuts in its data stage. -/
theorem reset_abandons_fresh :
    let σ := (machine .stm32f103).run (Dev.fresh fun _ => 0xff)
      [.reset, .setup ⟨0x80, 6, 0x0100, 0, 18⟩]
    σ.pipe.usbFsmState = .lastDataIn ∧ (poll .stm32f103 σ .reset).Abandons
      ((machine .stm32f103).run (poll .stm32f103 σ .reset) [.inDone, .out .full, .inDone]) := by
  intro σ
  have hfsm : σ.pipe.usbFsmState = .lastDataIn := by decide +kernel
  have hσ : (machine .stm32f103).Reachable σ :=
    TSys.Reachable.run (machine .stm32f103) (.init (Dev.fresh_boot _)) _
  have hnothing : σ.NothingPending := .of_in (by decide +kernel) (.inr (.inl hfsm))
  exact ⟨hfsm, (reset_abandons .stm32f103 σ hσ).mpr hnothing _ (by simp [Event.IsData])⟩

/-- A reset between the SETUP of a DFU_DNLOAD and its packet: the packet after the
reset completes the DFU_DNLOAD from before it. -/
theorem download_survives_reset :
    ¬ ∀ σ, (machine .stm32f103).Reachable σ → ∀ es, (∀ e ∈ es, e.IsData) →
      (poll .stm32f103 σ .reset).Abandons ((machine .stm32f103).run (poll .stm32f103 σ .reset) es) := by
  intro h
  have hreach := TSys.Reachable.run (machine .stm32f103) (.init (Dev.fresh_boot fun _ => 0xff))
    [.reset, .setup ⟨0x21, 1, 2, 0, 2⟩]
  have hpacket := h _ hreach [.out (.ofBytes [0x12, 0x34])] (by simp [Event.IsData])
  obtain ⟨l, hl, hharmless⟩ := hpacket.calls
  -- the calls after the reset, a dispatch of the class request among them
  have hafter : ∀ before after : List Call, after = before ++ l → l = after.drop before.length := by
    rintro before _ rfl
    simp
  rw [hafter _ _ hl] at hharmless
  exact absurd hharmless (by decide +kernel)

end LnDso
