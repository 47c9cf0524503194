import LnDso.Logic.Endpoint0

/-!
# Transactions on endpoint 0, exactly

The poll that handles a SETUP, an OUT packet or an IN completion, as the
handler of `usb.cpp` run on a state whose endpoint registers are known; then
what the chunk helpers do in such a state.
-/

namespace LnDso

open Lib UsbPeriph

variable {cfg : Config}

/-! ## SETUP -/

/-- The state in which a SETUP packet has been read into `usb_req`. -/
def Dev.began (p : UsbSetupData) (u : UsbPeriph) (σ : Dev) : Dev :=
  { σ with
    usb := u
    pipe := { σ.pipe with
      usbCompleteCb := none
      usbReq := p
      usbForceNak := Function.update σ.pipe.usbForceNak 0 true } }.call (.setup p)

/-- The branch of `_usbd_control_setup` once `p` is in `usb_req`. -/
def Dev.setupStage (cfg : Config) (p : UsbSetupData) (σ : Dev) : Dev :=
  if p.wLength = 0 ∨ p.DirIn then usbControlSetupRead cfg σ else usbControlSetupWrite σ

/-- Endpoint 0 with no reception to report and nothing on offer. -/
structure UsbPeriph.Clear (u : UsbPeriph) : Prop where
  noReset : u.NoReset
  ctrRx : (u.ep 0).ctrRx = false
  statTx : (u.ep 0).statTx ≠ 3

theorem readSetup_hwSetup (p : UsbSetupData) (σ : Dev) (hreset : σ.usb.NoReset)
    (hpacket : σ.usb.rxPacket 0 = p.bytes) (hstat : (σ.usb.ep 0).statTx ≠ 3) :
    ∃ u, u.Clear ∧ u.queued = σ.usb.queued ∧
      readSetup σ = (8, { σ with
        usb := u
        pipe := { σ.pipe with
          usbCompleteCb := none
          usbReq := p
          usbForceNak := Function.update σ.pipe.usbForceNak 0 true } }) := by
  let v := usbSetEpRxStat 0 usbEpRxStatNak σ.usb
  have hv : OnEp0 σ.usb v := epRegRmw_onEp0 _ _
  have hvep : v.ep 0 = { σ.usb.ep 0 with statRx := 2 } :=
    usbSetEpRxStat_ep (by decide) (by decide) _
  have hvnak : (v.ep 0).statRx = 2 := congrArg EpFields.statRx hvep
  have hvstat : (v.ep 0).statRx ≠ 3 := hvnak ▸ by decide
  let force := Function.update σ.pipe.usbForceNak 0 true
  obtain ⟨u, hread, hu, huep⟩ := usbdEpReadPacket_zero hvstat force σ.pipe.usbReq.toMem 0 8
  have hrx : v.rxPacket 0 = p.bytes := hv.rxPacket.trans hpacket
  have hbytes : (v.rxPacket 0).take (8 : Half).toNat = p.bytes := by
    rw [hrx]
    exact List.take_of_length_le (Nat.le_of_eq p.length_bytes)
  have hlen : BitVec.ofNat 16 (min (v.rxPacket 0).length (8 : Half).toNat) = (8 : Half) := by
    rw [hrx, UsbSetupData.length_bytes]
    rfl
  rw [hbytes, hlen] at hread
  have hdef : readSetup σ =
      ((usbdEpReadPacket force 0 σ.pipe.usbReq.toMem 0 8 v).1, { σ with
        usb := (usbdEpReadPacket force 0 σ.pipe.usbReq.toMem 0 8 v).2.2
        pipe := { σ.pipe with
          usbCompleteCb := none
          usbReq := UsbSetupData.ofMem (usbdEpReadPacket force 0 σ.pipe.usbReq.toMem 0 8 v).2.1
          usbForceNak := force } }) := rfl
  refine ⟨u, ⟨(hv.trans hu).noReset hreset, ?_, ?_⟩, (hv.trans hu).queued, ?_⟩
  · rw [huep]
  · rw [huep, hvep]
    exact hstat
  · rw [hdef, hread, UsbSetupData.ofMem_write_bytes]

theorem hwSetup_noReset {u : UsbPeriph} (bytes : List Byte) (h : u.NoReset) :
    (hwSetup bytes u).NoReset := by
  rw [NoReset, hwSetup_reg_ne (by decide)]
  exact h

/-- The state in which `_usbd_control_setup` has read the packet of a SETUP. -/
def Dev.read (p : UsbSetupData) (σ : Dev) : Dev :=
  (readSetup (σ.onBus (.setup p)).touch0).2.call (.setup p)

/-- The poll after a SETUP reads the packet into `usb_req`, drops the callback
and handles the request by the direction of its data stage. -/
theorem poll_setup_exact (cfg : Config) {σ : Dev} (hreset : σ.usb.NoReset) (p : UsbSetupData) :
    ∃ u, u.Clear ∧ u.queued = σ.usb.queued ∧
      (readSetup (σ.onBus (.setup p)).touch0 = (8, { (σ.onBus (.setup p)).touch0 with
        usb := u
        pipe := { σ.pipe with
          usbCompleteCb := none
          usbReq := p
          usbForceNak := Function.update σ.pipe.usbForceNak 0 true } })) ∧
      poll cfg σ (.setup p) = ((σ.began p u).setupStage cfg p).tail
        ((σ.onBus (.setup p)).usb.getReg usbIstrReg) := by
  let v := hwSetup p.bytes σ.usb
  have hvreset : v.NoReset := hwSetup_noReset _ hreset
  have hvep := hwSetup_ep p.bytes σ.usb
  have hpacket : (v.touch 0).rxPacket 0 = p.bytes :=
    (touch_onEp0 0 v).rxPacket.trans (rxPacket_hwSetup (by rw [p.length_bytes]; decide) σ.usb)
  have hnak : ((v.touch 0).ep 0).statTx = 2 := congrArg EpFields.statTx hvep
  obtain ⟨u, hclear, hqueued, hread⟩ := readSetup_hwSetup p (σ.onBus (.setup p)).touch0
    ((touch_onEp0 0 v).noReset hvreset) hpacket (hnak ▸ by decide)
  refine ⟨u, hclear, hqueued, hread, ?_⟩
  have hrx : ((σ.onBus (.setup p)).usb.ep 0).ctrRx = true := congrArg EpFields.ctrRx hvep
  have hsetup : ((σ.onBus (.setup p)).usb.ep 0).setup = true := congrArg EpFields.setup hvep
  have hv : (σ.onBus (.setup p)).usb.NoReset := hvreset
  rw [poll, doUsbPoll_rx hv hrx, if_pos hsetup, usbdControlSetup, hread]
  rfl

/-- The same, without the registers. -/
theorem poll_setup (cfg : Config) {σ : Dev} (hreset : σ.usb.NoReset) (p : UsbSetupData) :
    ∃ u istr, u.Clear ∧ u.queued = σ.usb.queued ∧ σ.read p = σ.began p u ∧
      poll cfg σ (.setup p) = ((σ.began p u).setupStage cfg p).tail istr := by
  obtain ⟨u, hclear, hqueued, hread, hpoll⟩ := poll_setup_exact cfg hreset p
  refine ⟨u, _, hclear, hqueued, ?_, hpoll⟩
  rw [Dev.read, hread]
  rfl

/-! ## OUT and IN -/

theorem hwOut_noReset {u : UsbPeriph} (bytes : List Byte) (h : u.NoReset) :
    (hwOut bytes u).NoReset := by
  rw [NoReset, hwOut_reg_ne (by decide)]
  exact h

theorem hwIn_noReset {u : UsbPeriph} (h : u.NoReset) : (hwIn u).NoReset := by
  rw [NoReset, hwIn_reg_ne (by decide)]
  exact h

/-- The poll after an OUT packet hands the packet to `_usbd_control_out`. -/
theorem poll_out_exact (cfg : Config) {σ : Dev} (hreset : σ.usb.NoReset) (pkt : Packet) :
    (σ.onBus (.out pkt)).touch0.usb.rxPacket 0 = pkt.bytes ∧
      (σ.onBus (.out pkt)).touch0.usb.ep 0 =
        { σ.usb.ep 0 with ctrRx := true, dtogRx := !(σ.usb.ep 0).dtogRx, statRx := 2,
                          setup := false } ∧
      poll cfg σ (.out pkt) = (usbdControlOut cfg (σ.onBus (.out pkt)).touch0).tail
        ((σ.onBus (.out pkt)).usb.getReg usbIstrReg) := by
  let v := hwOut pkt.bytes σ.usb
  have hvreset : (σ.onBus (.out pkt)).usb.NoReset := hwOut_noReset _ hreset
  have hvep := hwOut_ep pkt.bytes σ.usb
  have hrx : ((σ.onBus (.out pkt)).usb.ep 0).ctrRx = true := congrArg EpFields.ctrRx hvep
  have hsetup : ((σ.onBus (.out pkt)).usb.ep 0).setup = false := congrArg EpFields.setup hvep
  refine ⟨(touch_onEp0 0 v).rxPacket.trans (rxPacket_hwOut pkt.length_lt σ.usb), hvep, ?_⟩
  rw [poll, doUsbPoll_rx hvreset hrx, hsetup]
  rfl

/-- The same, without the registers. -/
theorem poll_out (cfg : Config) {σ : Dev} (hreset : σ.usb.NoReset) (pkt : Packet) :
    ∃ u istr, u.rxPacket 0 = pkt.bytes ∧
      u.ep 0 = { σ.usb.ep 0 with ctrRx := true, dtogRx := !(σ.usb.ep 0).dtogRx, statRx := 2,
                                 setup := false } ∧
      u.queued = σ.usb.queued ∧
      poll cfg σ (.out pkt) = (usbdControlOut cfg { σ with usb := u }).tail istr := by
  obtain ⟨hpacket, hep, hpoll⟩ := poll_out_exact cfg hreset pkt
  exact ⟨(σ.onBus (.out pkt)).touch0.usb, _, hpacket, hep, rfl, hpoll⟩

/-- The poll after an IN completion, with no reception to report first. -/
theorem poll_in (cfg : Config) {σ : Dev} (hreset : σ.usb.NoReset) (hrx : (σ.usb.ep 0).ctrRx = false) :
    ∃ u istr, u.Clear ∧ u.queued = σ.usb.queued ∧
      poll cfg σ .inDone = (usbdControlIn cfg { σ with usb := u }).tail istr := by
  let v := hwIn σ.usb
  have hvreset : (σ.onBus .inDone).usb.NoReset := hwIn_noReset hreset
  have hvep := hwIn_ep σ.usb
  have hvrx : ((σ.onBus .inDone).usb.ep 0).ctrRx = false := (congrArg EpFields.ctrRx hvep).trans hrx
  have hvtx : ((σ.onBus .inDone).usb.ep 0).ctrTx = true := congrArg EpFields.ctrTx hvep
  have huep : (usbClrEpTxCtr 0 v).ep 0 = { v.ep 0 with ctrTx := false } :=
    usbClrEpTxCtr_ep (by decide) v
  have hunak : ((usbClrEpTxCtr 0 v).ep 0).statTx = 2 :=
    (congrArg EpFields.statTx huep).trans (congrArg EpFields.statTx hvep)
  refine ⟨usbClrEpTxCtr 0 v, v.getReg usbIstrReg, ⟨?_, ?_, hunak ▸ by decide⟩, rfl, ?_⟩
  · exact (epRegRmw_onEp0 _ v).noReset hvreset
  · exact (congrArg EpFields.ctrRx huep).trans hvrx
  · rw [poll, doUsbPoll_tx hvreset hvrx hvtx]
    rfl

/-! ## Answers -/

/-- The reply length after truncation to wLength. -/
def truncate (w datasize : Half) : Half := if w < datasize then w else datasize

theorem truncate_toNat (w datasize : Half) :
    (truncate w datasize).toNat = min datasize.toNat w.toNat := by
  unfold truncate
  split
  · next hlt => exact (Nat.min_eq_right (Nat.le_of_lt hlt)).symm
  · next hlt => exact (Nat.min_eq_left (Nat.not_lt.mp hlt)).symm

/-- The end of `_usb_control_setup_read` once the request is handled. -/
def Dev.answer (w : Half) (σ : Dev) : Dev :=
  let size := truncate w σ.pipe.datasize
  if w ≠ 0 then
    usbControlSendChunk { σ with pipe := { σ.pipe with
      datasize := size
      usbNeedsZlp := needsZlp size w bMaxPacketSize0 } }
  else
    ({ σ with pipe := { σ.pipe with datasize := size } }.writePacket0 (fun _ => 0) 0).setFsm .statusIn

/-- A read request is dispatched from offset 0, then refused or answered. -/
theorem usbControlSetupRead_eq (σ : Dev) :
    usbControlSetupRead cfg σ =
      let out := usbControlRequestDispatch cfg { σ with pipe := { σ.pipe with dataoff := 0 } }
      if out.1 = .notsupp then stallTransaction out.2
      else out.2.answer σ.pipe.usbReq.wLength := by
  unfold usbControlSetupRead
  dsimp only
  rcases usbControlRequestDispatch cfg { σ with pipe := { σ.pipe with dataoff := 0 } } with ⟨r, ρ⟩
  cases r <;> rfl

/-- A request with no OUT data stage that is refused ends in a stall. -/
theorem setupStage_refused {p : UsbSetupData} (hread : p.wLength = 0 ∨ p.DirIn) {σ ρ : Dev}
    (h : usbControlRequestDispatch cfg { σ with pipe := { σ.pipe with dataoff := 0 } } =
      (.notsupp, ρ)) : σ.setupStage cfg p = stallTransaction ρ := by
  rw [Dev.setupStage, if_pos hread, usbControlSetupRead_eq, h]
  rfl

/-- Otherwise it is answered. -/
theorem setupStage_answered {p : UsbSetupData} (hread : p.wLength = 0 ∨ p.DirIn) {σ ρ : Dev}
    (hreq : σ.pipe.usbReq = p) {r : ReqCode} (hr : r ≠ .notsupp)
    (h : usbControlRequestDispatch cfg { σ with pipe := { σ.pipe with dataoff := 0 } } = (r, ρ)) :
    σ.setupStage cfg p = ρ.answer p.wLength := by
  rw [Dev.setupStage, if_pos hread, usbControlSetupRead_eq, h, hreq]
  exact if_neg hr

/-- The last packet of a write request is dispatched, then refused or acknowledged. -/
theorem usbdControlOut_last {σ : Dev} (hfsm : σ.pipe.usbFsmState = .lastDataOut)
    (hrecv : 0 ≤ (usbControlRecvChunk σ).1) :
    usbdControlOut cfg σ =
      let out := usbControlRequestDispatch cfg (usbControlRecvChunk σ).2
      if out.1 = .notsupp then stallTransaction out.2
      else (out.2.writePacket0 (fun _ => 0) 0).setFsm .statusIn := by
  unfold usbdControlOut
  rw [hfsm]
  dsimp only
  rw [if_neg (Int.not_lt.mpr hrecv)]
  rcases usbControlRequestDispatch cfg (usbControlRecvChunk σ).2 with ⟨r, ρ⟩
  cases r <;> rfl

/-! ## The completion callback -/

/-- The callback leaves peripheral, transfer state and control buffer alone. -/
theorem completeTransfer_sameUsb (cfg : Config) (stage : UsbFsmState) (σ : Dev) :
    (completeTransfer cfg stage σ).usb = σ.usb ∧ (completeTransfer cfg stage σ).pipe = σ.pipe ∧
      (completeTransfer cfg stage σ).usbdControlBuffer = σ.usbdControlBuffer := by
  unfold completeTransfer
  split
  · next cb _ =>
    cases cb
    exact ⟨usbdfuGetstatusComplete_usb _, usbdfuGetstatusComplete_pipe _,
      usbdfuGetstatusComplete_buffer _⟩
  · exact ⟨rfl, rfl, rfl⟩

/-- The callback that GETSTATUS registers. -/
theorem completeTransfer_registered {σ : Dev}
    (hcb : σ.pipe.usbCompleteCb = some .usbdfuGetstatusComplete) (stage : UsbFsmState) :
    completeTransfer cfg stage σ = usbdfuGetstatusComplete cfg (σ.call (.complete stage)) := by
  unfold completeTransfer
  split
  · next cb _ =>
    cases cb
    rfl
  · next hnone => cases hcb.symm.trans hnone

/-! ## Stalls and chunks -/

/-- Endpoint 0 stalls both directions. -/
def UsbPeriph.Stalled (u : UsbPeriph) : Prop := (u.ep 0).statTx = 1 ∧ (u.ep 0).statRx = 1

theorem stallTransaction_stalled (σ : Dev) : (stallTransaction σ).usb.Stalled := by
  have hep := (epStallSet_zero σ.usb).2
  exact ⟨congrArg EpFields.statTx hep, congrArg EpFields.statRx hep⟩

/-- The size of the next chunk, while the count is below wLength. -/
theorem packetsize_eq {P : Pipe} {n : Nat} (hsize : P.datasize.toNat = n)
    (hn : n ≤ P.usbReq.wLength.toNat) :
    (BitVec.ofInt 16 (min (bMaxPacketSize0.toNat : Int) P.remaining) : Half) =
      BitVec.ofNat 16 (min 64 (P.usbReq.wLength.toNat - n)) := by
  have hmin : min (bMaxPacketSize0.toNat : Int) P.remaining =
      ((min 64 (P.usbReq.wLength.toNat - n) : Nat) : Int) := by
    rw [Pipe.remaining, hsize, show bMaxPacketSize0.toNat = 64 from rfl]
    omega
  rw [hmin]
  rfl

variable {σ : Dev} {n : Nat}

/-- A packet that brings its share is stored after the bytes received so far. -/
theorem usbControlRecvChunk_full (hsize : σ.pipe.datasize.toNat = n)
    (hn : n ≤ σ.pipe.usbReq.wLength.toNat) (hstat : (σ.usb.ep 0).statRx = 2)
    (hfull : min 64 (σ.pipe.usbReq.wLength.toNat - n) ≤ (σ.usb.rxPacket 0).length) :
    let e := min 64 (σ.pipe.usbReq.wLength.toNat - n)
    ∃ u, (u.ep 0).ctrRx = false ∧ (u.ep 0).statTx = (σ.usb.ep 0).statTx ∧
      u.queued = σ.usb.queued ∧
      usbControlRecvChunk σ = ((e : Int), { σ with
        usb := u
        usbdControlBuffer := σ.usbdControlBuffer.write n ((σ.usb.rxPacket 0).take e)
        pipe := { σ.pipe with datasize := BitVec.ofNat 16 (n + e) } }) := by
  intro e
  have he : e ≤ 64 := Nat.min_le_left _ _
  have hwlt := σ.pipe.usbReq.wLength.isLt
  have hnat : (BitVec.ofNat 16 e : Half).toNat = e := by
    rw [BitVec.toNat_ofNat]
    exact Nat.mod_eq_of_lt (by omega)
  have hnak : (σ.usb.ep 0).statRx ≠ 3 := hstat ▸ by decide
  obtain ⟨u, hread, hu, huep⟩ := usbdEpReadPacket_zero hnak σ.pipe.usbForceNak
    σ.usbdControlBuffer n (BitVec.ofNat 16 e)
  rw [hnat, Nat.min_eq_right hfull] at hread
  have htx : (u.ep 0).statTx = (σ.usb.ep 0).statTx := (congrArg EpFields.statTx huep :)
  refine ⟨u, congrArg EpFields.ctrRx huep, htx, hu.queued, ?_⟩
  have hsum : σ.pipe.datasize + BitVec.ofNat 16 e = BitVec.ofNat 16 (n + e) := by
    apply BitVec.eq_of_toNat_eq
    rw [BitVec.toNat_add, hsize, BitVec.toNat_ofNat, BitVec.toNat_ofNat]
    omega
  rw [usbControlRecvChunk, packetsize_eq hsize hn, hsize]
  dsimp only
  rw [hread]
  dsimp only
  rw [if_neg (not_not.mpr rfl), hsum, hnat]

/-- A short packet stalls. -/
theorem usbControlRecvChunk_short (hsize : σ.pipe.datasize.toNat = n)
    (hn : n ≤ σ.pipe.usbReq.wLength.toNat) (hstat : (σ.usb.ep 0).statRx = 2)
    (hshort : (σ.usb.rxPacket 0).length < min 64 (σ.pipe.usbReq.wLength.toNat - n)) :
    ∃ u, usbControlRecvChunk σ = (-1, stallTransaction { σ with
        usb := u
        usbdControlBuffer := σ.usbdControlBuffer.write n (σ.usb.rxPacket 0) }) := by
  let e := min 64 (σ.pipe.usbReq.wLength.toNat - n)
  have he : e ≤ 64 := Nat.min_le_left _ _
  have hnat : (BitVec.ofNat 16 e : Half).toNat = e := by
    rw [BitVec.toNat_ofNat]
    exact Nat.mod_eq_of_lt (by omega)
  have hnak : (σ.usb.ep 0).statRx ≠ 3 := hstat ▸ by decide
  obtain ⟨u, hread, -, -⟩ := usbdEpReadPacket_zero hnak σ.pipe.usbForceNak
    σ.usbdControlBuffer n (BitVec.ofNat 16 e)
  rw [hnat, Nat.min_eq_left (Nat.le_of_lt hshort),
    List.take_of_length_le (Nat.le_of_lt hshort)] at hread
  refine ⟨u, ?_⟩
  have hne : (BitVec.ofNat 16 (σ.usb.rxPacket 0).length : Half) ≠ BitVec.ofNat 16 e := fun heq => by
    have hlt : (σ.usb.rxPacket 0).length < e := hshort
    have := congrArg BitVec.toNat heq
    rw [hnat, BitVec.toNat_ofNat, Nat.mod_eq_of_lt (by omega)] at this
    omega
  rw [usbControlRecvChunk, packetsize_eq hsize hn, hsize]
  dsimp only
  rw [hread]
  dsimp only
  rw [if_pos hne]

/-- More than a packet to send: a full one goes out. -/
theorem usbControlSendChunk_more (h : 64 < σ.pipe.datasize.toNat) :
    usbControlSendChunk σ =
      { (σ.writePacket0 (σ.usbdControlBuffer.from_ σ.pipe.dataoff.toNat) 64).call
          (.send σ.pipe.dataoff.toNat 64) with
        pipe := { σ.pipe with
          usbFsmState := .dataIn
          dataoff := σ.pipe.dataoff + 64
          datasize := σ.pipe.datasize - 64 } } := by
  have hmore : (bMaxPacketSize0.setWidth 16 : Half) < σ.pipe.datasize := h
  exact if_pos hmore

/-- At most a packet to send: the rest goes out. -/
theorem usbControlSendChunk_last (h : σ.pipe.datasize.toNat ≤ 64) :
    usbControlSendChunk σ =
      { (σ.writePacket0 (σ.usbdControlBuffer.from_ σ.pipe.dataoff.toNat) σ.pipe.datasize).call
          (.send σ.pipe.dataoff.toNat σ.pipe.datasize.toNat) with
        pipe := { σ.pipe with
          usbFsmState := if σ.pipe.usbNeedsZlp then .dataIn else .lastDataIn
          usbNeedsZlp := false
          datasize := 0 } } := by
  have hmore : ¬ (bMaxPacketSize0.setWidth 16 : Half) < σ.pipe.datasize := Nat.not_lt.mpr h
  exact if_neg hmore

/-! ## Outside the OUT data stage -/

/-- No OUT data stage is in progress. -/
structure Dev.NoDataOut (σ : Dev) : Prop where
  more : σ.pipe.usbFsmState ≠ .dataOut
  last : σ.pipe.usbFsmState ≠ .lastDataOut

theorem Dev.NoDataOut.of_fsm {s : UsbFsmState} (hs : σ.pipe.usbFsmState = s) (hmore : s ≠ .dataOut)
    (hlast : s ≠ .lastDataOut) : σ.NoDataOut :=
  ⟨hs ▸ hmore, hs ▸ hlast⟩

theorem stallTransaction_noDataOut (σ : Dev) : (stallTransaction σ).NoDataOut :=
  .of_fsm (s := .idle) rfl (by simp) (by simp)

theorem usbControlSendChunk_noDataOut (σ : Dev) : (usbControlSendChunk σ).NoDataOut := by
  by_cases hmore : 64 < σ.pipe.datasize.toNat
  · rw [usbControlSendChunk_more hmore]
    exact .of_fsm (s := .dataIn) rfl (by simp) (by simp)
  · rw [usbControlSendChunk_last (Nat.not_lt.mp hmore)]
    cases hzlp : σ.pipe.usbNeedsZlp with
    | true => exact .of_fsm (s := .dataIn) rfl (by simp) (by simp)
    | false => exact .of_fsm (s := .lastDataIn) rfl (by simp) (by simp)

theorem answer_noDataOut (w : Half) (σ : Dev) : (σ.answer w).NoDataOut := by
  unfold Dev.answer
  dsimp only
  split
  · exact usbControlSendChunk_noDataOut _
  · exact .of_fsm (s := .statusIn) rfl (by simp) (by simp)

/-- A read request has no OUT data stage. -/
theorem usbControlSetupRead_noDataOut (cfg : Config) (σ : Dev) : (usbControlSetupRead cfg σ).NoDataOut := by
  rw [usbControlSetupRead_eq]
  dsimp only
  split
  · exact stallTransaction_noDataOut _
  · exact answer_noDataOut _ _

theorem usbdControlIn_noDataOut (cfg : Config) (σ : Dev) : (usbdControlIn cfg σ).NoDataOut := by
  unfold usbdControlIn
  split
  · exact usbControlSendChunk_noDataOut σ
  · exact .of_fsm (s := .statusOut) rfl (by simp) (by simp)
  · exact .of_fsm (s := .idle) rfl (by simp) (by simp)
  · exact stallTransaction_noDataOut σ

/-- A chunk, taken or refused, leaves the DFU state, the flash and the request alone. -/
theorem usbControlRecvChunk_sameDfu (σ : Dev) :
    (usbControlRecvChunk σ).2.dfu = σ.dfu ∧ (usbControlRecvChunk σ).2.flash = σ.flash ∧
      (usbControlRecvChunk σ).2.pipe.usbReq = σ.pipe.usbReq := by
  unfold usbControlRecvChunk
  dsimp only
  split <;> exact ⟨rfl, rfl, rfl⟩

/-- A chunk that is refused ends the transfer. -/
theorem usbControlRecvChunk_refused (h : (usbControlRecvChunk σ).1 < 0) :
    (usbControlRecvChunk σ).2.pipe.usbFsmState = .idle := by
  unfold usbControlRecvChunk at h ⊢
  dsimp only at h ⊢
  split
  · rfl
  · next hsize =>
    rw [if_neg hsize] at h
    exact absurd h (Int.not_lt.mpr (Int.natCast_nonneg _))

/-- Only while more packets are due does an OUT packet leave the data stage open. -/
theorem usbdControlOut_noDataOut (cfg : Config) (h : σ.pipe.usbFsmState ≠ .dataOut) :
    (usbdControlOut cfg σ).NoDataOut := by
  cases hfsm : σ.pipe.usbFsmState with
  | dataOut => exact absurd hfsm h
  | lastDataOut =>
      by_cases hneg : (usbControlRecvChunk σ).1 < 0
      · have hself : usbdControlOut cfg σ = (usbControlRecvChunk σ).2 := by
          unfold usbdControlOut
          rw [hfsm]
          exact if_pos hneg
        rw [hself]
        exact .of_fsm (usbControlRecvChunk_refused hneg) (by simp) (by simp)
      · rw [usbdControlOut_last hfsm (Int.not_lt.mp hneg)]
        dsimp only
        split
        · exact stallTransaction_noDataOut _
        · exact .of_fsm (s := .statusIn) rfl (by simp) (by simp)
  | statusOut =>
      refine .of_fsm (s := .idle) ?_ (by simp) (by simp)
      unfold usbdControlOut
      rw [hfsm]
      dsimp only
      rw [(completeTransfer_sameUsb _ _ _).2.1]
      rfl
  | _ =>
      rw [usbdControlOut, hfsm]
      exact stallTransaction_noDataOut σ

/-! ## The progress of a transfer -/

/-- The progress of a full chunk, while the transfer stays below 64 KB. -/
theorem chunk_progress {off size : Half} (hlt : 64 < size.toNat)
    (hoff : off.toNat + size.toNat < 2 ^ 16) :
    (off + 64).toNat = off.toNat + 64 ∧ (size - 64).toNat = size.toNat - 64 := by
  constructor
  · rw [BitVec.toNat_add]
    exact Nat.mod_eq_of_lt (by change _ + 64 < _; omega)
  · rw [BitVec.toNat_sub]
    change (2 ^ 16 - 64 + _) % _ = _
    omega

end LnDso
