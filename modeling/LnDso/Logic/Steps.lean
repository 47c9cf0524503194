import LnDso.Logic.Dispatch
import LnDso.Logic.Transactions

/-!
# What a poll does

Between polls a device is `Tidy`: no reset is latched, no endpoint but 0 has
anything to report, and a reception that endpoint 0 still reports is one that
was refused. In a tidy state a poll is one of six things (`Polled`).
-/

namespace LnDso

open Lib UsbPeriph

variable {cfg : Config} {σ : Dev}

/-- The state of the peripheral between polls. -/
structure Dev.Tidy (σ : Dev) : Prop where
  noReset : σ.usb.NoReset
  others : ∀ n, 0 < n → n < 8 → (σ.usb.ep n).ctrRx = false ∧ (σ.usb.ep n).ctrTx = false
  stale : (σ.usb.ep 0).ctrRx = true → (σ.usb.ep 0).setup = false ∧ σ.pipe.usbFsmState = .idle

/-- No new transaction came with the event. -/
def Event.IsFlags : Event → Prop
  | .flags _ => True
  | _ => False

/-- What the poll after an event is, in a tidy state. -/
inductive Polled (cfg : Config) (σ : Dev) : Event → Dev → Prop
  | reset : Polled cfg σ .reset (pollReset (σ.onBus .reset))
  /-- A SETUP packet. -/
  | setup {p : UsbSetupData} {u : UsbPeriph} {istr : Half} :
      u.Clear → (u.ep 0).ctrTx = (σ.usb.ep 0).ctrTx →
      Polled cfg σ (.setup p) (((σ.began p u).setupStage cfg p).tail istr)
  /-- An OUT packet. -/
  | out {pkt : Packet} {u : UsbPeriph} {istr : Half} :
      u.rxPacket 0 = pkt.bytes → (u.ep 0).statRx = 2 → (u.ep 0).setup = false →
      (u.ep 0).ctrTx = (σ.usb.ep 0).ctrTx →
      Polled cfg σ (.out pkt) ((usbdControlOut cfg { σ with usb := u }).tail istr)
  /-- A reception refused before is refused again. -/
  | stale {e : Event} {u : UsbPeriph} {istr : Half} :
      e = .inDone ∨ e.IsFlags → (σ.usb.ep 0).ctrRx = true → (u.ep 0).ctrRx = true →
      (u.ep 0).setup = false → ((u.ep 0).ctrTx = true ↔ e = .inDone ∨ (σ.usb.ep 0).ctrTx = true) →
      Polled cfg σ e ((stallTransaction { σ with usb := u }).tail istr)
  /-- An IN completion, new or left from before. -/
  | inDone {e : Event} {u : UsbPeriph} {istr : Half} :
      e = .inDone ∨ e.IsFlags ∧ (σ.usb.ep 0).ctrTx = true → (σ.usb.ep 0).ctrRx = false →
      (u.ep 0).ctrRx = false → (u.ep 0).ctrTx = false →
      Polled cfg σ e ((usbdControlIn cfg { σ with usb := u }).tail istr)
  /-- Nothing to report. -/
  | quiet {e : Event} {u : UsbPeriph} {istr : Half} :
      e.IsFlags → (σ.usb.ep 0).ctrRx = false → (σ.usb.ep 0).ctrTx = false →
      u.ep 0 = σ.usb.ep 0 → Polled cfg σ e ({ σ with usb := u }.tail istr)

/-! ## The six cases -/

theorem hwFlags_noReset {u : UsbPeriph} (f : Half) (h : u.NoReset) : (hwFlags f u).NoReset := by
  have hf : f &&& 0x7B00 &&& usbIstrReset = 0#16 := by
    rw [BitVec.and_assoc, show (0x7B00 : Half) &&& usbIstrReset = 0#16 from by decide]
    exact BitVec.and_zero
  have hreg : (hwFlags f u).reg usbIstrReg = u.reg usbIstrReg ||| (f &&& 0x7B00) := by
    simp only [hwFlags]
    rw [Function.update_self]
  rw [NoReset, hreg, BitVec.and_or_distrib_right, hf, h]
  rfl

theorem hwFlags_ep (f : Half) (u : UsbPeriph) {n : Nat} (hn : n < 8) :
    (hwFlags f u).ep n = u.ep n := by
  have hne : n ≠ usbIstrReg := by
    simp only [usbIstrReg]
    omega
  exact congrArg EpFields.ofReg (Function.update_of_ne hne _ _)

/-- With no endpoint to report ISTR shows no transaction. -/
theorem ctrBits_of_none {u : UsbPeriph}
    (hnone : ∀ n < 8, (u.ep n).ctrRx = false ∧ (u.ep n).ctrTx = false) : u.ctrBits = 0 := by
  have hfind : (List.range 8).find? u.ctrPending = none := by
    rw [List.find?_eq_none]
    intro n hn
    obtain ⟨hrx, htx⟩ := hnone n (List.mem_range.mp hn)
    simp [ctrPending, hrx, htx]
  rw [ctrBits, hfind]

theorem doUsbPoll_none (hreset : σ.usb.NoReset)
    (hnone : ∀ n < 8, (σ.usb.ep n).ctrRx = false ∧ (σ.usb.ep n).ctrTx = false) :
    doUsbPoll cfg σ = σ.tail (σ.usb.getReg usbIstrReg) := by
  obtain ⟨hlatch, hmask⟩ := getReg_istr hreset (ctrBits_of_none hnone)
  have hctr : σ.usb.getReg usbIstrReg &&& usbIstrCtr = 0 := by
    rw [hmask _ (by decide)]
    decide
  rw [doUsbPoll, if_neg (not_not.mpr hlatch), if_neg (not_not.mpr hctr)]

/-- A reception to report that is not a SETUP, with the FSM idle. -/
theorem doUsbPoll_refused (hreset : σ.usb.NoReset) (hrx : (σ.usb.ep 0).ctrRx = true)
    (hsetup : (σ.usb.ep 0).setup = false) (hidle : σ.pipe.usbFsmState = .idle) :
    doUsbPoll cfg σ = (stallTransaction σ.touch0).tail (σ.usb.getReg usbIstrReg) := by
  rw [doUsbPoll_rx hreset hrx, hsetup]
  show (usbdControlOut cfg σ.touch0).tail _ = _
  rw [usbdControlOut, show σ.touch0.pipe.usbFsmState = .idle from hidle]

theorem hw_noReset_of_ne {e : Event} (h : σ.usb.NoReset) (he : e = .inDone ∨ e.IsFlags) :
    (σ.onBus e).usb.NoReset := by
  cases e with
  | inDone => exact hwIn_noReset h
  | flags f => exact hwFlags_noReset f h
  | _ => exact absurd he (by simp [Event.IsFlags])

/-- Endpoint 0 as the bus leaves it when it delivers nothing. -/
theorem hw_ep_of_ne {e : Event} (he : e = .inDone ∨ e.IsFlags) :
    ((σ.onBus e).usb.ep 0).ctrRx = (σ.usb.ep 0).ctrRx ∧
      ((σ.onBus e).usb.ep 0).setup = (σ.usb.ep 0).setup ∧
      (((σ.onBus e).usb.ep 0).ctrTx = true ↔ e = .inDone ∨ (σ.usb.ep 0).ctrTx = true) := by
  cases e with
  | inDone =>
      have hep := hwIn_ep σ.usb
      have htx : ((σ.onBus .inDone).usb.ep 0).ctrTx = true := congrArg EpFields.ctrTx hep
      exact ⟨(congrArg EpFields.ctrRx hep :), (congrArg EpFields.setup hep :), fun _ => .inl rfl,
        fun _ => htx⟩
  | flags f =>
      have hep : (σ.onBus (.flags f)).usb.ep 0 = σ.usb.ep 0 := hwFlags_ep f σ.usb (by decide)
      rw [hep]
      exact ⟨rfl, rfl, .inr, fun hor => hor.resolve_left (by simp)⟩
  | _ => exact absurd he (by simp [Event.IsFlags])

/-! Each kind of poll as an equation. -/

theorem poll_reset (h : σ.usb.NoReset) : poll cfg σ .reset = pollReset (σ.onBus .reset) := by
  have hlatch : (σ.onBus .reset).usb.getReg usbIstrReg &&& usbIstrReset ≠ 0 := by
    rw [getReg_and_reset]
    show (σ.usb.reg usbIstrReg ||| usbIstrReset) &&& usbIstrReset ≠ 0
    rw [BitVec.and_or_distrib_right, h]
    decide
  rw [poll, doUsbPoll, if_pos hlatch]

/-- The poll that meets a reception refused before. -/
theorem poll_refused (h : σ.Tidy) {e : Event} (he : e = .inDone ∨ e.IsFlags)
    (hrx : (σ.usb.ep 0).ctrRx = true) :
    poll cfg σ e =
      (stallTransaction (σ.onBus e).touch0).tail ((σ.onBus e).usb.getReg usbIstrReg) := by
  obtain ⟨hbus, hsetup, -⟩ := hw_ep_of_ne (σ := σ) he
  obtain ⟨hnosetup, hidle⟩ := h.stale hrx
  rw [poll, doUsbPoll_refused (hw_noReset_of_ne h.noReset he) (hbus.trans hrx)
    (hsetup.trans hnosetup) hidle]

/-- The poll that meets an IN completion. -/
theorem poll_done (h : σ.Tidy) {e : Event}
    (he : e = .inDone ∨ e.IsFlags ∧ (σ.usb.ep 0).ctrTx = true) (hrx : (σ.usb.ep 0).ctrRx = false) :
    poll cfg σ e =
      (usbdControlIn cfg { σ.onBus e with usb := usbClrEpTxCtr 0 (σ.onBus e).usb }).tail
        ((σ.onBus e).usb.getReg usbIstrReg) := by
  have he' : e = .inDone ∨ e.IsFlags := he.imp_right And.left
  obtain ⟨hbus, -, htx⟩ := hw_ep_of_ne (σ := σ) he'
  rw [poll, doUsbPoll_tx (hw_noReset_of_ne h.noReset he') (hbus.trans hrx)
    (htx.mpr (he.imp_right And.right))]

/-- The poll that meets nothing. -/
theorem poll_quiet (h : σ.Tidy) {e : Event} (he : e.IsFlags) (hrx : (σ.usb.ep 0).ctrRx = false)
    (htx : (σ.usb.ep 0).ctrTx = false) :
    poll cfg σ e = (σ.onBus e).tail ((σ.onBus e).usb.getReg usbIstrReg) := by
  cases e with
  | flags f =>
      have hnone : ∀ n < 8, ((σ.onBus (.flags f)).usb.ep n).ctrRx = false ∧
          ((σ.onBus (.flags f)).usb.ep n).ctrTx = false := by
        intro n hn
        rw [show (σ.onBus (.flags f)).usb.ep n = σ.usb.ep n from hwFlags_ep f σ.usb hn]
        rcases Nat.eq_zero_or_pos n with rfl | hpos
        · exact ⟨hrx, htx⟩
        · exact h.others n hpos hn
      rw [poll, doUsbPoll_none (hw_noReset_of_ne h.noReset (.inr he)) hnone]
  | _ => exact absurd he not_false

theorem poll_polled (cfg : Config) (h : σ.Tidy) (e : Event) : Polled cfg σ e (poll cfg σ e) := by
  -- the events that deliver no packet: what endpoint 0 still reports decides
  have hrest : e = .inDone ∨ e.IsFlags → Polled cfg σ e (poll cfg σ e) := by
    intro he
    obtain ⟨hbus, hsetup, htx⟩ := hw_ep_of_ne (σ := σ) he
    cases hrx : (σ.usb.ep 0).ctrRx with
    | true =>
        rw [poll_refused h he hrx]
        exact .stale (u := (hw e σ.usb).touch 0) he hrx (hbus.trans hrx)
          (hsetup.trans (h.stale hrx).1) htx
    | false =>
        by_cases hdone : e = .inDone ∨ (σ.usb.ep 0).ctrTx = true
        · have he' : e = .inDone ∨ e.IsFlags ∧ (σ.usb.ep 0).ctrTx = true :=
            hdone.elim .inl fun ht => he.imp_right fun hf => ⟨hf, ht⟩
          have hack := usbClrEpTxCtr_ep (n := 0) (by decide) (hw e σ.usb)
          rw [poll_done h he' hrx]
          exact .inDone (u := usbClrEpTxCtr 0 (hw e σ.usb)) he' hrx
            ((congrArg EpFields.ctrRx hack).trans (hbus.trans hrx)) (congrArg EpFields.ctrTx hack)
        · obtain ⟨hne, hnone⟩ := not_or.mp hdone
          have hflags := he.resolve_left hne
          have hnone := Bool.eq_false_iff.mpr hnone
          rw [poll_quiet h hflags hrx hnone]
          refine .quiet (u := hw e σ.usb) hflags hrx hnone ?_
          cases e with
          | flags f => exact hwFlags_ep f σ.usb (by decide)
          | _ => exact absurd hflags not_false
  cases e with
  | reset =>
      rw [poll_reset h.noReset]
      exact .reset
  | setup p =>
      obtain ⟨u, istr, hclear, -, hread, hpoll⟩ := poll_setup cfg h.noReset p
      have hsw := (readSetup_acts cfg (σ.onBus (.setup p)).touch0).sw
      rw [show (readSetup (σ.onBus (.setup p)).touch0).2.usb = u from congrArg Dev.usb hread] at hsw
      have htx : (u.ep 0).ctrTx = (σ.usb.ep 0).ctrTx :=
        hsw.ctrTx.trans (congrArg EpFields.ctrTx (hwSetup_ep p.bytes σ.usb) :)
      rw [hpoll]
      exact .setup hclear htx
  | out pkt =>
      obtain ⟨u, istr, hpacket, hep, -, hpoll⟩ := poll_out cfg h.noReset pkt
      rw [hpoll]
      exact .out hpacket (congrArg EpFields.statRx hep) (congrArg EpFields.setup hep)
        (congrArg EpFields.ctrTx hep :)
  | inDone => exact hrest (.inl rfl)
  | flags f => exact hrest (.inr trivial)

/-! ## Tidiness -/

/-- Reading a packet acknowledges it. -/
theorem usbdEpReadPacket_ctrRx {u : UsbPeriph} (hstat : (u.ep 0).statRx ≠ 3)
    (forceNak : Nat → Bool) (buf : Mem) (off : Nat) (len : Half) :
    ((usbdEpReadPacket forceNak 0 buf off len u).2.2.ep 0).ctrRx = false := by
  obtain ⟨v, hread, -, hep⟩ := usbdEpReadPacket_zero hstat forceNak buf off len
  rw [hread]
  exact congrArg EpFields.ctrRx hep

theorem usbControlRecvChunk_ctrRx (hstat : (σ.usb.ep 0).statRx ≠ 3) :
    ((usbControlRecvChunk σ).2.usb.ep 0).ctrRx = false := by
  have hread := usbdEpReadPacket_ctrRx hstat σ.pipe.usbForceNak σ.usbdControlBuffer
    σ.pipe.datasize.toNat (BitVec.ofInt 16 (min (bMaxPacketSize0.toNat : Int) σ.pipe.remaining))
  unfold usbControlRecvChunk
  dsimp only
  split
  · exact (epStallSet_sw 0 true _).ctrRx hread
  · exact hread

/-- A data or status stage in which `_usbd_control_out` reads the packet. -/
def Dev.TakesOut (σ : Dev) : Prop :=
  σ.pipe.usbFsmState = .dataOut ∨ σ.pipe.usbFsmState = .lastDataOut ∨
    σ.pipe.usbFsmState = .statusOut

instance (σ : Dev) : Decidable σ.TakesOut := inferInstanceAs (Decidable (_ ∨ _))

/-- In a data or status stage an OUT packet is read. -/
theorem usbdControlOut_ctrRx (cfg : Config) (hstat : (σ.usb.ep 0).statRx ≠ 3) (h : σ.TakesOut) :
    ((usbdControlOut cfg σ).usb.ep 0).ctrRx = false := by
  have hrecv := usbControlRecvChunk_ctrRx hstat
  unfold usbdControlOut
  dsimp only
  rcases h with hfsm | hfsm | hfsm
  · rw [hfsm]
    dsimp only
    split
    · exact hrecv
    split
    · exact hrecv
    · exact hrecv
  · rw [hfsm]
    dsimp only
    split
    · exact hrecv
    · have hsw := (usbControlRequestDispatch_acts cfg (usbControlRecvChunk σ).2).sw
      split
      · next τ heq =>
        rw [heq] at hsw
        exact (hsw.trans (epStallSet_sw 0 true τ.usb)).ctrRx hrecv
      · next τ _ heq =>
        rw [heq] at hsw
        exact (hsw.trans (usbdEpWritePacket_sw 0 _ 0 τ.usb)).ctrRx hrecv
  · rw [hfsm]
    refine (completeTransfer_acts cfg (.inr rfl) _).sw.ctrRx ?_
    exact usbdEpReadPacket_ctrRx hstat σ.pipe.usbForceNak (fun _ => 0) 0 0

/-- In any other state an OUT packet is refused. -/
theorem usbdControlOut_refused (cfg : Config) (h : ¬ σ.TakesOut) :
    usbdControlOut cfg σ = stallTransaction σ := by
  obtain ⟨hmore, hlast, hstatus⟩ : σ.pipe.usbFsmState ≠ .dataOut ∧
      σ.pipe.usbFsmState ≠ .lastDataOut ∧ σ.pipe.usbFsmState ≠ .statusOut := by
    simpa [Dev.TakesOut] using h
  cases hfsm : σ.pipe.usbFsmState with
  | dataOut => exact absurd hfsm hmore
  | lastDataOut => exact absurd hfsm hlast
  | statusOut => exact absurd hfsm hstatus
  | _ => rw [usbdControlOut, hfsm]

/-- A bus reset leaves the CTR flags alone of an endpoint register. -/
theorem hwReset_reg (u : UsbPeriph) {n : Nat} (hn : n < 8) :
    (hwReset u).reg n = u.reg n &&& (usbEpRxCtr ||| usbEpTxCtr) :=
  if_pos hn

theorem hw_others (e : Event) {u : UsbPeriph} {n : Nat} (h0 : 0 < n) (hn : n < 8)
    (h : (u.ep n).ctrRx = false ∧ (u.ep n).ctrTx = false) :
    ((hw e u).ep n).ctrRx = false ∧ ((hw e u).ep n).ctrTx = false := by
  have hsame : ∀ v : UsbPeriph, v.reg n = u.reg n →
      (v.ep n).ctrRx = false ∧ (v.ep n).ctrTx = false := fun v hv => by
    rw [show v.ep n = u.ep n from congrArg EpFields.ofReg hv]
    exact h
  cases e with
  | reset =>
      have hreg := hwReset_reg u hn
      obtain ⟨hrx, htx⟩ := h
      constructor
      · show ((hwReset u).reg n).getLsbD 15 = false
        rw [hreg, BitVec.getLsbD_and, show (u.reg n).getLsbD 15 = false from hrx, Bool.false_and]
      · show ((hwReset u).reg n).getLsbD 7 = false
        rw [hreg, BitVec.getLsbD_and, show (u.reg n).getLsbD 7 = false from htx, Bool.false_and]
  | setup p => exact hsame _ (hwSetup_reg_ne (by omega) _ _)
  | out pkt => exact hsame _ (hwOut_reg_ne (by omega) _ _)
  | inDone => exact hsame _ (hwIn_reg_ne (by omega) _)
  | flags f =>
      have hep := hwFlags_ep f u hn
      show ((hwFlags f u).ep n).ctrRx = false ∧ ((hwFlags f u).ep n).ctrTx = false
      rw [hep]
      exact h

/-- No software and no event raises the flags of another endpoint. -/
theorem poll_others (h : σ.Tidy) (e : Event) :
    ∀ n, 0 < n → n < 8 → ((poll cfg σ e).usb.ep n).ctrRx = false ∧
      ((poll cfg σ e).usb.ep n).ctrTx = false := by
  intro n h0 hn
  have hbus := hw_others e h0 hn (h.others n h0 hn)
  obtain ⟨u, hu, hacts⟩ := doUsbPoll_acts cfg (σ.onBus e)
  have hack : (u.ep n).ctrRx = false ∧ (u.ep n).ctrTx = false := by
    rcases hu with rfl | ⟨m, rfl⟩
    · exact hbus
    · exact ⟨setReg_bit m _ hn (.inl rfl) hbus.1, setReg_bit m _ hn (.inr rfl) hbus.2⟩
  exact ⟨hacts.sw.ctrRx_of_lt hn hack.1, (hacts.sw.ctrTx_of_lt hn).trans hack.2⟩

theorem hwReset_ep_setup (u : UsbPeriph) : ((hwReset u).ep 0).setup = false := by
  show ((hwReset u).reg 0).getLsbD 11 = false
  rw [hwReset_reg u (by decide), BitVec.getLsbD_and,
    show (usbEpRxCtr ||| usbEpTxCtr).getLsbD 11 = false from by decide,
    Bool.and_false]

theorem hwReset_ep_ctr (u : UsbPeriph) : ((hwReset u).ep 0).ctrRx = (u.ep 0).ctrRx ∧
    ((hwReset u).ep 0).ctrTx = (u.ep 0).ctrTx := by
  have hreg := hwReset_reg u (show 0 < 8 by decide)
  constructor
  · show ((hwReset u).reg 0).getLsbD 15 = (u.reg 0).getLsbD 15
    rw [hreg, BitVec.getLsbD_and, show (usbEpRxCtr ||| usbEpTxCtr).getLsbD 15 = true from by decide,
      Bool.and_true]
  · show ((hwReset u).reg 0).getLsbD 7 = (u.reg 0).getLsbD 7
    rw [hreg, BitVec.getLsbD_and, show (usbEpRxCtr ||| usbEpTxCtr).getLsbD 7 = true from by decide,
      Bool.and_true]

theorem setupStage_sw (cfg : Config) (p : UsbSetupData) (σ : Dev) : Sw σ.usb (σ.setupStage cfg p).usb := by
  unfold Dev.setupStage
  split
  · exact (usbControlSetupRead_acts σ).sw
  · exact (usbControlSetupWrite_acts cfg σ).sw

theorem tail_ctrRx {istr : Half} (h : (σ.usb.ep 0).ctrRx = false) :
    ((σ.tail istr).usb.ep 0).ctrRx = false := by
  rw [Dev.tail_ep]
  exact h

/-- Every poll leaves the device tidy. -/
theorem poll_tidy (cfg : Config) (h : σ.Tidy) (e : Event) : (poll cfg σ e).Tidy where
  noReset := poll_noReset cfg σ e
  others := poll_others h e
  stale := by
    have hfalse : ∀ {τ : Dev}, (τ.usb.ep 0).ctrRx = false → (τ.usb.ep 0).ctrRx = true →
        (τ.usb.ep 0).setup = false ∧ τ.pipe.usbFsmState = .idle :=
      fun h0 h1 => absurd (h0.symm.trans h1) Bool.false_ne_true
    have hp := poll_polled cfg h e
    generalize poll cfg σ e = τ at hp
    cases hp with
    | reset =>
        intro hrx
        have hsw : Sw (hwReset σ.usb) (pollReset (σ.onBus .reset)).usb :=
          (pollReset_same (σ.onBus .reset)).usb
        refine ⟨(hsw.setup (by decide)).trans (hwReset_ep_setup σ.usb), ?_⟩
        have hσrx : (σ.usb.ep 0).ctrRx = true := by
          cases hσ : (σ.usb.ep 0).ctrRx with
          | true => rfl
          | false =>
              have := hsw.ctrRx ((hwReset_ep_ctr σ.usb).1.trans hσ)
              exact absurd (this.symm.trans hrx) Bool.false_ne_true
        exact (h.stale hσrx).2
    | setup hclear _ =>
        exact hfalse (tail_ctrRx ((setupStage_sw _ _ _).ctrRx hclear.ctrRx))
    | @out _ u istr _ hstat hsetup _ =>
        have hnak : (u.ep 0).statRx ≠ 3 := hstat ▸ by decide
        by_cases htakes : { σ with usb := u }.TakesOut
        · exact hfalse (tail_ctrRx (usbdControlOut_ctrRx cfg hnak htakes))
        · intro _
          rw [usbdControlOut_refused cfg htakes, Dev.tail_ep]
          exact ⟨((epStallSet_sw 0 true u).setup (by decide)).trans hsetup, rfl⟩
    | @stale _ u istr _ _ _ hsetup _ =>
        intro _
        rw [Dev.tail_ep]
        exact ⟨((epStallSet_sw 0 true u).setup (by decide)).trans hsetup, rfl⟩
    | inDone _ _ hrx _ =>
        exact hfalse (tail_ctrRx ((usbdControlIn_acts _ _).sw.ctrRx hrx))
    | @quiet _ u istr _ hrx _ hep =>
        refine hfalse (tail_ctrRx ?_)
        show (u.ep 0).ctrRx = false
        rw [hep]
        exact hrx

/-- Every reachable state is tidy. -/
theorem tidy_invariant (cfg : Config) : (machine cfg).Invariant Dev.Tidy :=
  TSys.Inductive.invariant
    { init := fun σ hboot => by
        have hep : ∀ n < 8, (σ.usb.ep n).ctrRx = false ∧ (σ.usb.ep n).ctrTx = false := by
          intro n hn
          rw [UsbPeriph.ep, hboot.ep n hn]
          exact ⟨rfl, rfl⟩
        refine ⟨?_, fun n _ hn => hep n hn, fun hrx => ?_⟩
        · rw [UsbPeriph.NoReset, hboot.istr]
          decide
        · exact absurd ((hep 0 (by decide)).1.symm.trans hrx) Bool.false_ne_true
      step := fun σ e h => poll_tidy _ h e }

end LnDso
