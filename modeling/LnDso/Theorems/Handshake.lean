import LnDso.Logic.Effects

/-!
# The handshake of endpoint 0

STAT_TX is VALID while a packet is on offer to the host, STAT_RX while one is
awaited. Both are changed by the firmware and by the hardware; the FSM state
says which of them should be VALID, and after every poll it is.
-/

namespace LnDso

open Lib UsbPeriph

variable {cfg : Config} {σ τ : Dev} {q : List (List Byte)}

/-- The states in which a packet is on offer to the host. -/
def UsbFsmState.Offers (s : UsbFsmState) : Prop := s = .dataIn ∨ s = .lastDataIn ∨ s = .statusIn

instance (s : UsbFsmState) : Decidable s.Offers := inferInstanceAs (Decidable (_ ∨ _))

/-- The handshake bits of endpoint 0 follow the FSM state. -/
structure Dev.Handshake (σ : Dev) : Prop where
  tx : (σ.usb.ep 0).statTx = 3 ↔ σ.pipe.usbFsmState.Offers
  rx : σ.TakesOut → (σ.usb.ep 0).statRx = 3 ∧ σ.pipe.usbForceNak 0 = false

/-- CLEAR_FEATURE and SET_FEATURE of an endpoint address endpoints 0 to 7. -/
def UsbSetupData.FeatureInRange (r : UsbSetupData) : Prop :=
  r.bmRequestType &&& usbReqTypeType = usbReqTypeStandard →
    r.bmRequestType &&& usbReqTypeRecipient = usbReqTypeEndpoint →
    r.bRequest = usbReqClearFeature ∨ r.bRequest = usbReqSetFeature →
    (Half.lo r.wIndex &&& 0x7F).toNat < 8

instance (r : UsbSetupData) : Decidable r.FeatureInRange := inferInstanceAs (Decidable (_ → _))

/-- What can happen on the bus: a data packet is transferred only if endpoint 0
is ready for it. There is no further bus reset. -/
def Dev.Admissible (σ : Dev) : Event → Prop
  | .reset => False
  | .setup p => p.FeatureInRange
  | .out _ => (σ.usb.ep 0).statRx = 3
  | .inDone => (σ.usb.ep 0).statTx = 3
  | .flags _ => True

/-- The poll hands a transmission to `_usbd_control_in`. -/
def Dev.EntersIn (σ : Dev) : Prop :=
  let istr := σ.usb.getReg usbIstrReg
  istr &&& usbIstrReset = 0 ∧ istr &&& usbIstrCtr ≠ 0 ∧ istr &&& usbIstrDir = 0

/-! ## The turn of a handler -/

/-- A handler that found the packets `q` queued leaves the handshake right, with
one packet more if it offers one. -/
structure Dev.Turn (q : List (List Byte)) (σ : Dev) : Prop where
  handshake : σ.Handshake
  offered : σ.pipe.usbFsmState.Offers → ∃ b, σ.usb.queued = q ++ [b]

theorem Dev.TakesOut.not_offers (h : σ.TakesOut) : ¬ σ.pipe.usbFsmState.Offers := by
  rcases h with h | h | h <;> rw [h] <;> simp [UsbFsmState.Offers]

theorem Dev.Turn.tail {istr : Half} (h : σ.Turn q) : (σ.tail istr).Turn q := by
  refine ⟨⟨?_, ?_⟩, ?_⟩
  · rw [Dev.tail_ep]
    exact h.handshake.tx
  · rw [Dev.tail_ep]
    exact h.handshake.rx
  · rw [Dev.tail_queued]
    exact h.offered

/-- The transfer is over: nothing on offer. -/
theorem Dev.Turn.of_idle (hfsm : σ.pipe.usbFsmState = .idle) (hstat : (σ.usb.ep 0).statTx ≠ 3) :
    σ.Turn q := by
  have hno : ¬ σ.pipe.usbFsmState.Offers := by simp [hfsm, UsbFsmState.Offers]
  refine ⟨⟨iff_of_false hstat hno, fun htakes => ?_⟩, fun hoffers => absurd hoffers hno⟩
  simp [Dev.TakesOut, hfsm] at htakes

/-- The next packet of the host is awaited. -/
theorem Dev.Turn.of_out (hfsm : σ.TakesOut) (htx : (σ.usb.ep 0).statTx ≠ 3)
    (hrx : (σ.usb.ep 0).statRx = 3) (hforce : σ.pipe.usbForceNak 0 = false) : σ.Turn q :=
  ⟨⟨iff_of_false htx hfsm.not_offers, fun _ => ⟨hrx, hforce⟩⟩,
    fun hoffers => absurd hoffers hfsm.not_offers⟩

/-- A packet has been handed to the endpoint. -/
theorem Dev.Turn.of_offer {buf : Mem} {len : Half} (hstat : (σ.usb.ep 0).statTx ≠ 3)
    (hq : σ.usb.queued = q) (husb : τ.usb = (σ.writePacket0 buf len).usb)
    (hfsm : τ.pipe.usbFsmState.Offers) : τ.Turn q := by
  obtain ⟨hqueued, hep, -⟩ := usbdEpWritePacket_zero hstat buf len
  have husb' : τ.usb = (usbdEpWritePacket 0 buf len σ.usb).2 := husb
  refine ⟨⟨iff_of_true ?_ hfsm, fun htakes => absurd hfsm htakes.not_offers⟩, fun _ => ?_⟩
  · rw [husb', hep]
  · exact ⟨_, by rw [husb', hqueued, hq]⟩

theorem stallTransaction_turn (σ : Dev) : (stallTransaction σ).Turn q := by
  refine .of_idle rfl ?_
  rw [(stallTransaction_stalled σ).1]
  decide

theorem usbdEpNakSet_turn (htakes : σ.TakesOut) (hstat : (σ.usb.ep 0).statTx ≠ 3) :
    (usbdEpNakSet 0 false σ).Turn q := by
  have hep : (usbdEpNakSet 0 false σ).usb.ep 0 = { σ.usb.ep 0 with statRx := 3 } :=
    usbSetEpRxStat_ep0 σ.usb false
  refine .of_out htakes ?_ ?_ rfl
  · rw [hep]
    exact hstat
  · rw [hep]

theorem usbControlSendChunk_turn (hstat : (σ.usb.ep 0).statTx ≠ 3) (hq : σ.usb.queued = q) :
    (usbControlSendChunk σ).Turn q := by
  by_cases hmore : 64 < σ.pipe.datasize.toNat
  · rw [usbControlSendChunk_more hmore]
    exact .of_offer hstat hq rfl (.inl rfl)
  · rw [usbControlSendChunk_last (Nat.not_lt.mp hmore)]
    refine .of_offer hstat hq rfl ?_
    dsimp only
    split
    · exact .inl rfl
    · exact .inr (.inl rfl)

theorem answer_turn (w : Half) (hstat : (σ.usb.ep 0).statTx ≠ 3) (hq : σ.usb.queued = q) :
    (σ.answer w).Turn q := by
  unfold Dev.answer
  dsimp only
  split
  · exact usbControlSendChunk_turn (by exact hstat) hq
  · exact .of_offer hstat hq rfl (.inr (.inr rfl))

/-- What follows a dispatch: a stall, or the answer. -/
theorem dispatch_turn {f : Dev → Dev} (hstat : (σ.usb.ep 0).statTx ≠ 3) (hq : σ.usb.queued = q)
    (hf : ∀ {τ : Dev}, (τ.usb.ep 0).statTx ≠ 3 → τ.usb.queued = q → (f τ).Turn q) :
    (if (usbControlRequestDispatch cfg σ).1 = .notsupp
      then stallTransaction (usbControlRequestDispatch cfg σ).2
      else f (usbControlRequestDispatch cfg σ).2).Turn q := by
  have hd := usbControlRequestDispatch_handles cfg σ
  split
  · exact stallTransaction_turn _
  · exact hf (hd.statTx hstat) (hd.queued.trans hq)

theorem setupStage_turn {p : UsbSetupData} (hstat : (σ.usb.ep 0).statTx ≠ 3)
    (hq : σ.usb.queued = q) : (σ.setupStage cfg p).Turn q := by
  unfold Dev.setupStage
  split
  · rw [usbControlSetupRead_eq]
    exact dispatch_turn (by exact hstat) hq fun hτ hτq => answer_turn _ hτ hτq
  · unfold usbControlSetupWrite
    dsimp only
    split
    · exact stallTransaction_turn _
    · refine usbdEpNakSet_turn ?_ hstat
      show _ ∨ _ ∨ _
      rw [Dev.setFsm_pipe]
      dsimp only
      split
      · exact .inl rfl
      · exact .inr (.inl rfl)

/-! ## Packets -/

/-- A chunk is taken, with STAT_RX back to VALID, or the transfer stalls. -/
theorem usbControlRecvChunk_turn (hrx : (σ.usb.ep 0).statRx ≠ 3)
    (hforce : σ.pipe.usbForceNak 0 = false) :
    (∃ τ, usbControlRecvChunk σ = (-1, stallTransaction τ)) ∨
      ∃ r τ, usbControlRecvChunk σ = (r, τ) ∧ 0 ≤ r ∧ (τ.usb.ep 0).statRx = 3 ∧
        (τ.usb.ep 0).statTx = (σ.usb.ep 0).statTx ∧ τ.usb.queued = σ.usb.queued ∧
        τ.pipe.usbFsmState = σ.pipe.usbFsmState ∧ τ.pipe.usbForceNak 0 = false := by
  obtain ⟨v, hread, hon, hep⟩ := usbdEpReadPacket_zero hrx σ.pipe.usbForceNak σ.usbdControlBuffer
    σ.pipe.datasize.toNat (BitVec.ofInt 16 (min (bMaxPacketSize0.toNat : Int) σ.pipe.remaining))
  unfold usbControlRecvChunk
  dsimp only
  rw [hread]
  dsimp only
  split
  · exact .inl ⟨_, rfl⟩
  · refine .inr ⟨_, _, rfl, Int.natCast_nonneg _, ?_, ?_, hon.queued, rfl, hforce⟩
    · rw [hep, hforce]
      rfl
    · rw [hep]

theorem usbdControlOut_turn (hrx : (σ.usb.ep 0).statRx ≠ 3) (hq : σ.usb.queued = q)
    (htakes : σ.TakesOut → (σ.usb.ep 0).statTx ≠ 3 ∧ σ.pipe.usbForceNak 0 = false) :
    (usbdControlOut cfg σ).Turn q := by
  by_cases hout : σ.TakesOut
  · obtain ⟨htx, hforce⟩ := htakes hout
    have hrecv := usbControlRecvChunk_turn hrx hforce
    rcases hout with hfsm | hfsm | hfsm
    · unfold usbdControlOut
      rw [hfsm]
      dsimp only
      rcases hrecv with ⟨τ, hstall⟩ | ⟨r, τ, htaken, hr, hτrx, hτtx, hτq, hτfsm, hτforce⟩
      · rw [hstall]
        dsimp only
        rw [if_pos (by decide)]
        exact stallTransaction_turn τ
      · rw [htaken, if_neg (Int.not_lt.mpr hr)]
        rw [← hτtx] at htx
        split
        · exact .of_out (.inr (.inl rfl)) htx hτrx hτforce
        · exact .of_out (.inl (hτfsm.trans hfsm)) htx hτrx hτforce
    · rcases hrecv with ⟨τ, hstall⟩ | ⟨r, τ, htaken, hr, hτrx, hτtx, hτq, hτfsm, hτforce⟩
      · unfold usbdControlOut
        rw [hfsm]
        dsimp only
        rw [hstall]
        dsimp only
        rw [if_pos (by decide)]
        exact stallTransaction_turn τ
      · rw [usbdControlOut_last hfsm (by rw [htaken]; exact hr), htaken]
        exact dispatch_turn (f := fun υ => (υ.writePacket0 (fun _ => 0) 0).setFsm .statusIn)
          (by rw [hτtx]; exact htx) (hτq.trans hq)
          fun hυ hυq => .of_offer hυ hυq rfl (.inr (.inr rfl))
    · obtain ⟨v, hread, -, hep⟩ := usbdEpReadPacket_zero hrx σ.pipe.usbForceNak (fun _ => 0) 0 0
      unfold usbdControlOut
      rw [hfsm]
      dsimp only
      rw [hread]
      dsimp only
      obtain ⟨husb, hpipe, -⟩ := completeTransfer_sameUsb cfg .statusOut
        (Dev.setFsm .idle { σ with usb := v })
      refine .of_idle ?_ ?_
      · rw [hpipe]
        rfl
      · rw [husb, Dev.setFsm_usb, hep]
        exact htx
  · rw [usbdControlOut_refused cfg hout]
    exact stallTransaction_turn σ

theorem setReg_ep {i : Nat} (hi : 0 ≠ i) (x : Half) (u : UsbPeriph) :
    (u.setReg i x).ep 0 = u.ep 0 := by
  unfold UsbPeriph.ep
  rw [setReg_reg, if_neg hi]

theorem usbdControlIn_turn (htx : (σ.usb.ep 0).statTx ≠ 3) (hq : σ.usb.queued = q)
    (hoffers : σ.pipe.usbFsmState.Offers) : (usbdControlIn cfg σ).Turn q := by
  unfold usbdControlIn
  rcases hoffers with hfsm | hfsm | hfsm
  · rw [hfsm]
    exact usbControlSendChunk_turn htx hq
  · rw [hfsm]
    exact usbdEpNakSet_turn (.inr (.inr rfl)) htx
  · obtain ⟨husb, hpipe, -⟩ := completeTransfer_sameUsb cfg .statusIn σ
    rw [hfsm]
    refine .of_idle rfl ?_
    dsimp only
    split
    · show (((completeTransfer cfg .statusIn σ).usb.setReg usbDaddrReg _).ep 0).statTx ≠ 3
      rw [husb, setReg_ep (by decide)]
      exact htx
    · rw [Dev.setFsm_usb, husb]
      exact htx

/-! ## Polls -/

/-- What every admissible event keeps. -/
structure Dev.Shaking (σ : Dev) : Prop where
  tidy : σ.Tidy
  handshake : σ.Handshake
  ctrTx : (σ.usb.ep 0).ctrTx = false

theorem Dev.Shaking.ctrRx (h : σ.Shaking) (hne : σ.pipe.usbFsmState ≠ .idle) :
    (σ.usb.ep 0).ctrRx = false :=
  Bool.eq_false_iff.mpr fun hrx => hne (h.tidy.stale hrx).2

theorem UsbFsmState.Offers.ne_idle {s : UsbFsmState} (h : s.Offers) : s ≠ .idle := by
  rcases h with rfl | rfl | rfl <;> simp

/-- A transaction of an admissible event is handled in turn. -/
theorem poll_turn (h : σ.Shaking) {e : Event} (he : σ.Admissible e) (hnew : ¬ e.IsFlags) :
    (poll cfg σ e).Turn σ.usb.queued := by
  cases e with
  | reset => exact absurd he not_false
  | flags f => exact absurd trivial hnew
  | setup p =>
      obtain ⟨u, istr, hclear, hqueued, -, hpoll⟩ := poll_setup cfg h.tidy.noReset p
      rw [hpoll]
      exact (setupStage_turn (σ := σ.began p u) hclear.statTx hqueued).tail
  | out pkt =>
      obtain ⟨u, istr, -, hep, hqueued, hpoll⟩ := poll_out cfg h.tidy.noReset pkt
      rw [hpoll]
      refine (usbdControlOut_turn (σ := { σ with usb := u }) ?_ hqueued fun htakes => ⟨?_, ?_⟩).tail
      · rw [show (u.ep 0).statRx = 2 from congrArg EpFields.statRx hep]
        decide
      · rw [hep]
        exact fun hvalid => htakes.not_offers (h.handshake.tx.mp hvalid)
      · exact (h.handshake.rx htakes).2
  | inDone =>
      have hoffers := h.handshake.tx.mp he
      obtain ⟨u, istr, hclear, hqueued, hpoll⟩ := poll_in cfg h.tidy.noReset
        (h.ctrRx hoffers.ne_idle)
      rw [hpoll]
      exact (usbdControlIn_turn (σ := { σ with usb := u }) hclear.statTx hqueued hoffers).tail

/-- With nothing new no packet is handed over, and what stays on offer was before. -/
theorem poll_unturned (h : σ.Shaking) {e : Event} (hflags : e.IsFlags) :
    (poll cfg σ e).Handshake ∧ (poll cfg σ e).usb.queued = σ.usb.queued ∧
      ((poll cfg σ e).pipe.usbFsmState.Offers → (poll cfg σ e).pipe = σ.pipe) := by
  cases e with
  | flags f =>
      -- a reception refused before is refused again
      cases hrx : (σ.usb.ep 0).ctrRx with
      | true =>
          rw [poll_refused h.tidy (.inr hflags) hrx]
          refine ⟨(stallTransaction_turn (q := []) _).tail.handshake, ?_, fun hoffers => ?_⟩
          · rw [Dev.tail_queued]
            exact (epStallSet_zero _).1.queued
          · exact absurd rfl (UsbFsmState.Offers.ne_idle hoffers)
      | false =>
          rw [poll_quiet h.tidy hflags hrx h.ctrTx]
          have hep : (σ.onBus (.flags f)).usb.ep 0 = σ.usb.ep 0 := hwFlags_ep f σ.usb (by decide)
          refine ⟨⟨?_, ?_⟩, ?_, fun _ => rfl⟩
          · rw [Dev.tail_ep, hep]
            exact h.handshake.tx
          · rw [Dev.tail_ep, hep]
            exact h.handshake.rx
          · rw [Dev.tail_queued]
            rfl
  | _ => exact absurd hflags not_false

theorem poll_handshake (h : σ.Shaking) {e : Event} (he : σ.Admissible e) :
    (poll cfg σ e).Handshake := by
  by_cases hflags : e.IsFlags
  · exact (poll_unturned h hflags).1
  · exact (poll_turn h he hflags).handshake

/-- No IN completion stays to be reported, if none comes in IDLE. -/
theorem poll_ctrTx (htidy : σ.Tidy) (hctr : (σ.usb.ep 0).ctrTx = false) {e : Event}
    (hin : e = .inDone → σ.pipe.usbFsmState ≠ .idle) :
    ((poll cfg σ e).usb.ep 0).ctrTx = false := by
  have hpoll := poll_polled cfg htidy e
  generalize poll cfg σ e = τ at hpoll
  cases hpoll with
  | reset =>
      have hsw : Sw (hwReset σ.usb) (pollReset (σ.onBus .reset)).usb :=
        (pollReset_same (σ.onBus .reset)).usb
      exact hsw.ctrTx.trans ((hwReset_ep_ctr σ.usb).2.trans hctr)
  | @setup p u istr _ htx =>
      rw [Dev.tail_ep]
      exact (setupStage_sw cfg p (σ.began p u)).ctrTx.trans (htx.trans hctr)
  | @out pkt u istr _ _ _ htx =>
      rw [Dev.tail_ep]
      exact (usbdControlOut_acts cfg { σ with usb := u }).sw.ctrTx.trans
        (htx.trans hctr)
  | @stale e u istr hrest hrx _ _ htx =>
      have hfalse : (u.ep 0).ctrTx = false := by
        refine Bool.eq_false_iff.mpr fun hset => ?_
        rcases htx.mp hset with hdone | hold
        · exact hin hdone (htidy.stale hrx).2
        · exact Bool.false_ne_true (hctr.symm.trans hold)
      rw [Dev.tail_ep]
      exact (stallTransaction_acts cfg { σ with usb := u }).sw.ctrTx.trans hfalse
  | @inDone e u istr _ _ _ htx =>
      rw [Dev.tail_ep]
      exact (usbdControlIn_acts cfg { σ with usb := u }).sw.ctrTx.trans htx
  | @quiet e u istr _ _ _ hep =>
      rw [Dev.tail_ep]
      show (u.ep 0).ctrTx = false
      rw [hep]
      exact hctr

theorem poll_shaking (h : σ.Shaking) {e : Event} (he : σ.Admissible e) :
    (poll cfg σ e).Shaking :=
  ⟨poll_tidy _ h.tidy e, poll_handshake h he, poll_ctrTx h.tidy h.ctrTx fun hdone =>
    (h.handshake.tx.mp (show σ.Admissible .inDone from hdone ▸ he)).ne_idle⟩

/-- A transmission is handled only in a state that offers a packet. -/
theorem entersIn_offers (h : σ.Shaking) {e : Event} (he : σ.Admissible e)
    (hin : (σ.onBus e).EntersIn) : σ.pipe.usbFsmState.Offers := by
  obtain ⟨hreset, hctr, hdir⟩ := hin
  have hnoReset : (σ.onBus e).usb.NoReset := (getReg_and_reset _).symm.trans hreset
  -- a reception to report would be handled first
  have hrx : ((σ.onBus e).usb.ep 0).ctrRx ≠ true := by
    intro hrx
    obtain ⟨-, hmask⟩ := getReg_istr hnoReset (ctrBits_of_ctrRx hrx)
    rw [hmask _ (by decide)] at hdir
    exact absurd hdir (by decide)
  cases e with
  | reset => exact absurd he not_false
  | setup p => exact absurd (congrArg EpFields.ctrRx (hwSetup_ep p.bytes σ.usb)) hrx
  | out pkt => exact absurd (congrArg EpFields.ctrRx (hwOut_ep pkt.bytes σ.usb)) hrx
  | inDone => exact h.handshake.tx.mp he
  | flags f =>
      have hnone : ∀ n < 8, ((σ.onBus (.flags f)).usb.ep n).ctrRx = false ∧
          ((σ.onBus (.flags f)).usb.ep n).ctrTx = false := by
        intro n hn
        rcases Nat.eq_zero_or_pos n with rfl | hpos
        · refine ⟨Bool.eq_false_iff.mpr hrx, ?_⟩
          rw [show (σ.onBus (.flags f)).usb.ep 0 = σ.usb.ep 0 from hwFlags_ep f σ.usb hn]
          exact h.ctrTx
        · exact hw_others (.flags f) hpos hn (h.tidy.others n hpos hn)
      obtain ⟨-, hmask⟩ := getReg_istr hnoReset (ctrBits_of_none hnone)
      rw [hmask _ (by decide)] at hctr
      exact absurd (show (0 : Half) &&& usbIstrCtr = 0 by decide) hctr

/-! ## Runs -/

theorem epSetupTx_statTx (maxSize top : Half) (u : UsbPeriph) :
    ((epSetupTx 0 maxSize top u).2.ep 0).statTx = 2 := by
  show ((usbSetEpTxStat 0 usbEpTxStatNak (usbClrEpTxDtog 0 (usbSetEpTxAddr 0 top u))).ep 0).statTx = 2
  rw [usbSetEpTxStat_ep (by decide) (by decide)]
  rfl

theorem epSetupRx_statTx (maxSize top : Half) (u : UsbPeriph) :
    ((epSetupRx 0 maxSize top u).2.ep 0).statTx = (u.ep 0).statTx := by
  let v := setEpRxBufsize 0 (maxSize.setWidth 32) (usbSetEpRxAddr 0 top u)
  have hv : v.ep 0 = u.ep 0 :=
    congrArg EpFields.ofReg (congrFun (setEpRxBufsize_reg 0 _ (usbSetEpRxAddr 0 top u)) 0)
  show ((usbSetEpRxStat 0 usbEpRxStatValid (usbClrEpRxDtog 0 v)).ep 0).statTx = _
  rw [usbSetEpRxStat_ep (by decide) (by decide), usbClrEpRxDtog_ep (by decide), hv]

/-- The reset branch leaves endpoint 0 with nothing on offer. -/
theorem pollReset_statTx (σ : Dev) : ((pollReset σ).usb.ep 0).statTx ≠ 3 := by
  have hsetup : ∀ u, ((usbdEpSetup 0 usbEndpointAttrControl (bMaxPacketSize0.setWidth 16)
      usbdPmTop u).2.ep 0).statTx = 2 := by
    intro u
    show ((epSetupRx 0 _ _ (epSetupTx 0 _ _ (usbSetEpType 0 _ (usbSetEpAddr 0 0 u))).2).2.ep
      0).statTx = 2
    rw [epSetupRx_statTx, epSetupTx_statTx]
  show (((usbdEpSetup 0 usbEndpointAttrControl (bMaxPacketSize0.setWidth 16) usbdPmTop
    (clrIstr usbIstrReset σ.usb)).2.setReg usbDaddrReg usbDaddrEf).ep 0).statTx ≠ 3
  rw [setReg_ep (by decide), hsetup]
  decide

theorem reset_shaking (htidy : σ.Tidy) (hidle : σ.pipe.usbFsmState = .idle)
    (htx : (σ.usb.ep 0).ctrTx = false) : (poll cfg σ .reset).Shaking := by
  have hfsm : (pollReset (σ.onBus .reset)).pipe.usbFsmState = .idle := hidle
  have hno : Event.reset = .inDone → σ.pipe.usbFsmState ≠ .idle := by simp
  refine ⟨poll_tidy cfg htidy .reset, ?_, poll_ctrTx htidy htx hno⟩
  rw [poll_reset htidy.noReset]
  exact (Dev.Turn.of_idle (q := []) hfsm (pollReset_statTx _)).handshake

/-- **The handshake holds.** From a freshly reset idle device, after every poll
of an admissible run, STAT_TX is VALID just in the states that offer a packet
and STAT_RX in those that await one, with no NAK forced. So `_usbd_control_in`
is entered in its three states only, and a packet handed to the endpoint is
always queued; a poll without a transaction hands over none. -/
theorem handshake (cfg : Config) (σ : Dev) (hσ : (machine cfg).Reachable σ)
    (hidle : σ.pipe.usbFsmState = .idle) (htx : (σ.usb.ep 0).ctrTx = false) (es : List Event)
    (h : (machine cfg).Admits Dev.Admissible (poll cfg σ .reset) es) :
    let τ := (machine cfg).run (poll cfg σ .reset) es
    τ.Handshake ∧ ∀ e, τ.Admissible e →
      ((τ.onBus e).EntersIn → τ.pipe.usbFsmState.Offers) ∧
      (¬ e.IsFlags → (poll cfg τ e).pipe.usbFsmState.Offers →
        ∃ b, (poll cfg τ e).usb.queued = τ.usb.queued ++ [b]) ∧
      (e.IsFlags → (poll cfg τ e).usb.queued = τ.usb.queued ∧
        ((poll cfg τ e).pipe.usbFsmState.Offers → (poll cfg τ e).pipe = τ.pipe)) := by
  have hend := TSys.Admits.preserves (machine cfg) (P := Dev.Shaking)
    (fun τ e he hτ => poll_shaking hτ he) (reset_shaking (tidy_invariant cfg σ hσ) hidle htx) h
  exact ⟨hend.handshake, fun e he => ⟨entersIn_offers hend he,
    fun hnew => (poll_turn hend he hnew).offered, fun hflags => (poll_unturned hend hflags).2⟩⟩

/-- GET_DESCRIPTOR(device) on a fresh device, through its status stage. -/
theorem handshake_getDescriptor :
    ((machine .stm32f103).run (poll .stm32f103 (Dev.fresh fun _ => 0xff) .reset)
      [.setup ⟨0x80, 6, 0x0100, 0, 18⟩, .inDone, .out (.ofBytes [])]).Handshake := by
  have hsetup : Dev.Admissible (poll .stm32f103 (Dev.fresh fun _ => 0xff) .reset)
      (.setup ⟨0x80, 6, 0x0100, 0, 18⟩) := fun _ hrecipient => absurd hrecipient (by decide)
  have hin : Dev.Admissible ((machine .stm32f103).run
      (poll .stm32f103 (Dev.fresh fun _ => 0xff) .reset) [.setup ⟨0x80, 6, 0x0100, 0, 18⟩])
      .inDone := by
    show EpFields.statTx _ = 3
    decide +kernel
  have hout : Dev.Admissible ((machine .stm32f103).run
      (poll .stm32f103 (Dev.fresh fun _ => 0xff) .reset)
      [.setup ⟨0x80, 6, 0x0100, 0, 18⟩, .inDone]) (.out (.ofBytes [])) := by
    show EpFields.statRx _ = 3
    decide +kernel
  have hadmits : (machine .stm32f103).Admits Dev.Admissible
      (poll .stm32f103 (Dev.fresh fun _ => 0xff) .reset)
      [.setup ⟨0x80, 6, 0x0100, 0, 18⟩, .inDone, .out (.ofBytes [])] :=
    ⟨hsetup, hin, hout, trivial⟩
  exact (handshake .stm32f103 (Dev.fresh fun _ => 0xff) (.init (Dev.fresh_boot _)) rfl
    (by decide +kernel) _ hadmits).1

end LnDso
