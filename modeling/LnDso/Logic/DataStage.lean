import LnDso.Lib.Packets
import LnDso.Logic.Dispatch
import LnDso.Logic.Steps

/-!
# The OUT data stage, packet by packet

A write request receives its packets one by one into the control buffer. The
count of `datasize` tells when the last one is due; `Receiving` is the state in
between, with one lemma for each thing a packet can do: bring its share with
more to come, bring the last share, fall short.
-/

namespace LnDso

open Lib Lib.Packets UsbPeriph

variable {cfg : Config} {p : UsbSetupData} {σ : Dev} {n : Nat}

/-- `n` bytes of the data stage of `p` have been received, not all of them. -/
structure Dev.Receiving (p : UsbSetupData) (n : Nat) (σ : Dev) : Prop where
  noReset : σ.usb.NoReset
  usbReq : σ.pipe.usbReq = p
  datasize : σ.pipe.datasize.toNat = n
  lt : n < p.wLength.toNat
  fsm : σ.pipe.usbFsmState = if 64 < p.wLength.toNat - n then .dataOut else .lastDataOut

/-- The OUT stage is over: a further packet is out of turn. -/
structure Dev.Over (σ : Dev) : Prop where
  noReset : σ.usb.NoReset
  fsm : σ.pipe.usbFsmState = .idle ∨ σ.pipe.usbFsmState = .statusIn

/-- The transfer is refused: endpoint 0 stalls and the FSM is IDLE. -/
structure Dev.Refused (σ : Dev) : Prop where
  stalled : σ.usb.Stalled
  idle : σ.pipe.usbFsmState = .idle

theorem tail_stalled {istr : Half} (h : σ.usb.Stalled) : (σ.tail istr).usb.Stalled := by
  unfold UsbPeriph.Stalled
  rw [Dev.tail_ep]
  exact h

theorem stallTransaction_refused (σ : Dev) (istr : Half) :
    ((stallTransaction σ).tail istr).Refused :=
  ⟨tail_stalled (stallTransaction_stalled σ), rfl⟩

/-! ## One packet -/

/-- Out of turn: the packet is refused and stored nowhere. -/
theorem Dev.Over.out (cfg : Config) (h : σ.Over) (pkt : Packet) :
    (poll cfg σ (.out pkt)).Refused ∧ (poll cfg σ (.out pkt)).calls = σ.calls ++ [.stall] ∧
      (poll cfg σ (.out pkt)).usbdControlBuffer = σ.usbdControlBuffer := by
  obtain ⟨u, istr, -, -, -, hpoll⟩ := poll_out cfg h.noReset pkt
  have hstall : usbdControlOut cfg { σ with usb := u } = stallTransaction { σ with usb := u } := by
    rw [usbdControlOut]
    rcases h.fsm with hfsm | hfsm <;> rw [hfsm]
  rw [hpoll, hstall]
  exact ⟨stallTransaction_refused _ _, rfl, rfl⟩

/-- What is to come fits in the last packet. -/
theorem Dev.Receiving.le_of_last (h : σ.Receiving p n) (hfsm : σ.pipe.usbFsmState = .lastDataOut) :
    p.wLength.toNat - n ≤ 64 := by
  have hstate := h.fsm
  rw [hfsm] at hstate
  by_cases hmore : 64 < p.wLength.toNat - n
  · rw [if_pos hmore] at hstate
    cases hstate
  · exact Nat.not_lt.mp hmore

/-- A packet with its share is stored after the bytes received so far. -/
theorem Dev.Receiving.recv (h : σ.Receiving p n) {u : UsbPeriph} (hstat : (u.ep 0).statRx = 2)
    (hfull : min 64 (p.wLength.toNat - n) ≤ (u.rxPacket 0).length) :
    let e := min 64 (p.wLength.toNat - n)
    ∃ v, usbControlRecvChunk { σ with usb := u } = ((e : Int), { σ with
      usb := v
      usbdControlBuffer := σ.usbdControlBuffer.write n ((u.rxPacket 0).take e)
      pipe := { σ.pipe with datasize := BitVec.ofNat 16 (n + e) } }) := by
  have hreq := h.usbReq
  subst hreq
  obtain ⟨v, -, -, -, hv⟩ := usbControlRecvChunk_full (σ := { σ with usb := u }) h.datasize
    (Nat.le_of_lt h.lt) hstat hfull
  exact ⟨v, hv⟩

theorem Dev.Receiving.remaining {d : Nat} (h : σ.Receiving p n) (hd : d ≤ p.wLength.toNat) :
    Pipe.remaining { σ.pipe with datasize := BitVec.ofNat 16 d } = ((p.wLength.toNat - d : Nat) : Int) := by
  have hlt := p.wLength.isLt
  rw [Pipe.remaining, h.usbReq, BitVec.toNat_ofNat, Nat.mod_eq_of_lt (by omega)]
  omega

/-- A packet with its share while more than that is missing. -/
theorem Dev.Receiving.out_more (cfg : Config) (h : σ.Receiving p n) (hmore : 64 < p.wLength.toNat - n)
    {pkt : Packet} (hfull : 64 ≤ pkt.bytes.length) :
    (poll cfg σ (.out pkt)).Receiving p (n + 64) ∧
      (poll cfg σ (.out pkt)).calls = σ.calls ∧
      (poll cfg σ (.out pkt)).usbdControlBuffer =
        σ.usbdControlBuffer.write n (pkt.bytes.take 64) ∧
      (poll cfg σ (.out pkt)).dfu = σ.dfu ∧ (poll cfg σ (.out pkt)).flash = σ.flash := by
  have hwlt := p.wLength.isLt
  have hmin : min 64 (p.wLength.toNat - n) = 64 := Nat.min_eq_left (Nat.le_of_lt hmore)
  have hnext := poll_noReset cfg σ (.out pkt)
  obtain ⟨u, istr, hpacket, hep, -, hpoll⟩ := poll_out cfg h.noReset pkt
  have hstat : (u.ep 0).statRx = 2 := congrArg EpFields.statRx hep
  obtain ⟨v, hrecv⟩ := h.recv hstat (by rw [hpacket, hmin]; exact hfull)
  rw [hmin, hpacket] at hrecv
  have hfsm := h.fsm
  rw [if_pos hmore] at hfsm
  have hsize : (BitVec.ofNat 16 (n + 64) : Half).toNat = n + 64 := by
    rw [BitVec.toNat_ofNat]
    exact Nat.mod_eq_of_lt (by omega)
  have hout : usbdControlOut cfg { σ with usb := u } =
      { σ with
        usb := v
        usbdControlBuffer := σ.usbdControlBuffer.write n (pkt.bytes.take 64)
        pipe := { σ.pipe with
          datasize := BitVec.ofNat 16 (n + 64)
          usbFsmState :=
            if 64 < p.wLength.toNat - (n + 64) then .dataOut else .lastDataOut } } := by
    rw [usbdControlOut, hfsm]
    dsimp only
    rw [hrecv]
    dsimp only
    rw [if_neg (by decide), h.remaining (by omega), show bMaxPacketSize0.toNat = 64 from rfl]
    by_cases hlast : 64 < p.wLength.toNat - (n + 64)
    · rw [if_neg (by omega), if_pos hlast, ← hfsm]
    · rw [if_pos (by omega), if_neg hlast]
      rfl
  rw [hpoll, hout] at hnext ⊢
  exact ⟨⟨hnext, h.usbReq, hsize, by omega, rfl⟩, rfl, rfl, rfl, rfl⟩

/-- The state in which a write request is dispatched, all data being there. -/
def Dev.received (v : UsbPeriph) (buf : Mem) (σ : Dev) : Dev :=
  { σ with
    usb := v
    usbdControlBuffer := buf
    pipe := { σ.pipe with datasize := σ.pipe.usbReq.wLength } }

/-- The last packet with its share: the request is dispatched on the bytes
received, then refused or acknowledged. -/
theorem Dev.Receiving.poll_last (cfg : Config) (h : σ.Receiving p n) (hlast : p.wLength.toNat - n ≤ 64)
    {pkt : Packet} (hfull : p.wLength.toNat - n ≤ pkt.bytes.length) :
    let buf := σ.usbdControlBuffer.write n (pkt.bytes.take (p.wLength.toNat - n))
    ∃ (v : UsbPeriph) (istr : Half),
      let out := usbControlRequestDispatch cfg (σ.received v buf)
      poll cfg σ (.out pkt) =
        (if out.1 = .notsupp then stallTransaction out.2
          else (out.2.writePacket0 (fun _ => 0) 0).setFsm .statusIn).tail istr := by
  intro buf
  have hmin : min 64 (p.wLength.toNat - n) = p.wLength.toNat - n := Nat.min_eq_right hlast
  have hall : n + (p.wLength.toNat - n) = p.wLength.toNat := Nat.add_sub_cancel' (Nat.le_of_lt h.lt)
  obtain ⟨u, istr, hpacket, hep, -, hpoll⟩ := poll_out cfg h.noReset pkt
  have hstat : (u.ep 0).statRx = 2 := congrArg EpFields.statRx hep
  obtain ⟨v, hrecv⟩ := h.recv hstat (by rw [hpacket, hmin]; exact hfull)
  rw [hmin, hpacket, hall, BitVec.ofNat_toNat, BitVec.setWidth_eq] at hrecv
  have hfsm := h.fsm
  rw [if_neg (by omega)] at hfsm
  have hnonneg : 0 ≤ (usbControlRecvChunk { σ with usb := u }).1 := by
    rw [hrecv]
    exact Int.natCast_nonneg _
  refine ⟨v, istr, ?_⟩
  rw [hpoll, usbdControlOut_last (σ := { σ with usb := u }) hfsm hnonneg, hrecv, Dev.received,
    h.usbReq]

/-- The same, as the record of calls and the buffer show it. -/
theorem Dev.Receiving.out_last (cfg : Config) (h : σ.Receiving p n) (hlast : p.wLength.toNat - n ≤ 64)
    {pkt : Packet} (hfull : p.wLength.toNat - n ≤ pkt.bytes.length) :
    let buf := σ.usbdControlBuffer.write n (pkt.bytes.take (p.wLength.toNat - n))
    (poll cfg σ (.out pkt)).Over ∧
      (∃ l, (poll cfg σ (.out pkt)).calls = σ.calls ++ .dispatch p buf :: l ∧
        ∀ c ∈ l, ¬ c.IsDispatch) ∧
      ∀ j, controlBufferSize ≤ j → (poll cfg σ (.out pkt)).usbdControlBuffer j = buf j := by
  intro buf
  have hnext := poll_noReset cfg σ (.out pkt)
  obtain ⟨v, istr, hpoll⟩ := h.poll_last cfg hlast hfull
  have hd := usbControlRequestDispatch_handles cfg (σ.received v buf)
  obtain ⟨l, hl, hhandler⟩ := hd.calls
  have hno : ∀ c ∈ l, ¬ c.IsDispatch := fun c hc => (hhandler c hc).not_dispatch
  have hreq : (σ.received v buf).pipe.usbReq = p := h.usbReq
  rw [Dev.call_calls, hreq, List.append_assoc] at hl
  rw [hpoll] at hnext ⊢
  generalize usbControlRequestDispatch cfg (σ.received v buf) = out at hd hl hnext ⊢
  by_cases hr : out.1 = .notsupp
  · rw [if_pos hr] at hnext ⊢
    refine ⟨⟨hnext, .inl rfl⟩, ⟨l ++ [.stall], ?_, ?_⟩, hd.above⟩
    · show out.2.calls ++ [.stall] = _
      rw [hl]
      simp [Dev.received]
    · intro c hc
      rcases List.mem_append.mp hc with hc | hc
      · exact hno c hc
      · exact List.mem_singleton.mp hc ▸ not_false
  · rw [if_neg hr] at hnext ⊢
    exact ⟨⟨hnext, .inr rfl⟩, ⟨l, hl, hno⟩, hd.above⟩

/-- A packet that falls short: the transfer is refused. -/
theorem Dev.Receiving.out_short (cfg : Config) (h : σ.Receiving p n) {pkt : Packet}
    (hshort : pkt.bytes.length < min 64 (p.wLength.toNat - n)) :
    (poll cfg σ (.out pkt)).Refused ∧ (poll cfg σ (.out pkt)).calls = σ.calls ++ [.stall] ∧
      (poll cfg σ (.out pkt)).usbdControlBuffer = σ.usbdControlBuffer.write n pkt.bytes := by
  obtain ⟨u, istr, hpacket, hep, -, hpoll⟩ := poll_out cfg h.noReset pkt
  have hstat : (u.ep 0).statRx = 2 := congrArg EpFields.statRx hep
  have hreq := h.usbReq
  subst hreq
  obtain ⟨v, hrecv⟩ := usbControlRecvChunk_short (σ := { σ with usb := u }) h.datasize
    (Nat.le_of_lt h.lt) hstat (by rw [hpacket]; exact hshort)
  rw [hpacket] at hrecv
  have hout : usbdControlOut cfg { σ with usb := u } = stallTransaction { σ with
      usb := v, usbdControlBuffer := σ.usbdControlBuffer.write n pkt.bytes } := by
    have hfsm := h.fsm
    rw [usbdControlOut]
    split at hfsm <;> rw [hfsm] <;> dsimp only <;> rw [hrecv] <;> rfl
  rw [hpoll, hout]
  exact ⟨stallTransaction_refused _ _, rfl, rfl⟩

/-! ## The SETUP -/

/-- A write request that fits starts to receive; the buffer is untouched. -/
theorem poll_setup_write (cfg : Config) (hreset : σ.usb.NoReset) (hdir : ¬ p.DirIn) (hw : p.wLength ≠ 0)
    (hfit : p.wLength.toNat ≤ controlBufferSize) :
    (poll cfg σ (.setup p)).Receiving p 0 ∧
      (poll cfg σ (.setup p)).calls = σ.calls ++ [.setup p] ∧
      (poll cfg σ (.setup p)).usbdControlBuffer = σ.usbdControlBuffer ∧
      (poll cfg σ (.setup p)).dfu = σ.dfu ∧ (poll cfg σ (.setup p)).flash = σ.flash := by
  have hnext := poll_noReset cfg σ (.setup p)
  obtain ⟨u, istr, -, -, -, hpoll⟩ := poll_setup cfg hreset p
  have hpos : 0 < p.wLength.toNat := Nat.pos_of_ne_zero fun h => hw (BitVec.eq_of_toNat_eq h)
  have hstage : (σ.began p u).setupStage cfg p = usbdEpNakSet 0 false
      ({ σ.began p u with pipe := { (σ.began p u).pipe with datasize := 0 } }.setFsm
        (if 64 < p.wLength.toNat - 0 then .dataOut else .lastDataOut)) := by
    have hnot : ¬ controlBufferSize < (σ.began p u).pipe.usbReq.wLength.toNat := Nat.not_lt.mpr hfit
    rw [Dev.setupStage, if_neg (not_or.mpr ⟨hw, hdir⟩), usbControlSetupWrite, if_neg hnot]
    rfl
  rw [hpoll, hstage] at hnext ⊢
  exact ⟨⟨hnext, rfl, rfl, hpos, rfl⟩, rfl, rfl, rfl, rfl⟩

/-- A write request that does not fit is refused at once. -/
theorem poll_setup_tooLong (cfg : Config) (hreset : σ.usb.NoReset) (hdir : ¬ p.DirIn)
    (hlong : controlBufferSize < p.wLength.toNat) :
    (poll cfg σ (.setup p)).Refused ∧
      (poll cfg σ (.setup p)).calls = σ.calls ++ [.setup p, .stall] ∧
      (poll cfg σ (.setup p)).usbdControlBuffer = σ.usbdControlBuffer := by
  obtain ⟨u, istr, -, -, -, hpoll⟩ := poll_setup cfg hreset p
  have hw : p.wLength ≠ 0 := fun h => by
    rw [h] at hlong
    exact absurd hlong (Nat.not_lt_zero _)
  have hstage : (σ.began p u).setupStage cfg p = stallTransaction (σ.began p u) := by
    have htoo : controlBufferSize < (σ.began p u).pipe.usbReq.wLength.toNat := hlong
    rw [Dev.setupStage, if_neg (not_or.mpr ⟨hw, hdir⟩), usbControlSetupWrite, if_pos htoo]
  rw [hpoll, hstage]
  refine ⟨stallTransaction_refused _ _, ?_, rfl⟩
  show (σ.calls ++ [.setup p]) ++ [.stall] = _
  rw [List.append_assoc]
  rfl

/-! ## The transfer as the host sees it -/

/-- The last request, and the bytes of its OUT packets that were asked for. -/
structure Transfer where
  req : UsbSetupData
  data : List Byte

/-- The transfer after an event. -/
def Transfer.next (t : Transfer) : Event → Transfer
  | .setup p => ⟨p, []⟩
  | .out pkt =>
      ⟨t.req, t.data ++ pkt.bytes.take (min 64 (t.req.wLength.toNat - t.data.length))⟩
  | _ => t

/-- The transfer a sequence of events ends in. -/
def transfer (es : List Event) : Transfer := es.foldl Transfer.next ⟨⟨0, 0, 0, 0, 0⟩, []⟩

/-- The data stage of `t` is open, and its bytes are in the control buffer. -/
structure Dev.Open (t : Transfer) (σ : Dev) : Prop where
  receiving : σ.Receiving t.req t.data.length
  fits : t.req.wLength.toNat ≤ controlBufferSize
  read : σ.usbdControlBuffer.read 0 t.data.length = t.data

/-- A data stage that is open is that of `t`. -/
def Dev.Tracks (t : Transfer) (σ : Dev) : Prop := σ.NoDataOut ∨ σ.Open t

theorem Dev.Refused.noDataOut (h : σ.Refused) : σ.NoDataOut :=
  .of_fsm h.idle (by simp) (by simp)

/-- The bytes in the control buffer once a packet has brought its share. -/
theorem Dev.Open.stored {t : Transfer} (h : σ.Open t) {pkt : Packet}
    (hfull : min 64 (t.req.wLength.toNat - t.data.length) ≤ pkt.bytes.length) :
    (t.next (.out pkt)).data.length =
        t.data.length + min 64 (t.req.wLength.toNat - t.data.length) ∧
      (σ.usbdControlBuffer.write t.data.length
        (pkt.bytes.take (min 64 (t.req.wLength.toNat - t.data.length)))).read 0
          (t.next (.out pkt)).data.length = (t.next (.out pkt)).data := by
  have hlen : (t.data ++ pkt.bytes.take (min 64 (t.req.wLength.toNat - t.data.length))).length =
      t.data.length + (pkt.bytes.take (min 64 (t.req.wLength.toNat - t.data.length))).length :=
    List.length_append
  refine ⟨hlen.trans (by rw [List.length_take_of_le hfull]), ?_⟩
  show Mem.read _ 0 (t.data ++ _).length = t.data ++ _
  rw [hlen, Mem.read_write_append, h.read]

theorem poll_tracks (cfg : Config) (htidy : σ.Tidy) {t : Transfer} (h : σ.Tracks t) (e : Event) :
    (poll cfg σ e).Tracks (t.next e) := by
  have hnext := poll_noReset cfg σ e
  cases e with
  | setup p =>
      by_cases hread : p.wLength = 0 ∨ p.DirIn
      · obtain ⟨u, istr, -, -, -, hpoll⟩ := poll_setup cfg htidy.noReset p
        have hno := usbControlSetupRead_noDataOut cfg (σ.began p u)
        rw [hpoll, Dev.setupStage, if_pos hread]
        exact .inl ⟨hno.more, hno.last⟩
      obtain ⟨hw, hdir⟩ := not_or.mp hread
      by_cases hfit : p.wLength.toNat ≤ controlBufferSize
      · obtain ⟨hrecv, -⟩ := poll_setup_write cfg htidy.noReset hdir hw hfit
        exact .inr ⟨hrecv, hfit, rfl⟩
      · exact .inl (poll_setup_tooLong cfg htidy.noReset hdir (Nat.not_le.mp hfit)).1.noDataOut
  | out pkt =>
      rcases h with hno | hopen
      · obtain ⟨u, istr, -, -, -, hpoll⟩ := poll_out cfg htidy.noReset pkt
        have hout := usbdControlOut_noDataOut (σ := { σ with usb := u }) cfg hno.more
        rw [hpoll]
        exact .inl ⟨hout.more, hout.last⟩
      obtain ⟨hrecv, hfit, hread⟩ := hopen
      by_cases hfull : min 64 (t.req.wLength.toNat - t.data.length) ≤ pkt.bytes.length
      · by_cases hmore : 64 < t.req.wLength.toNat - t.data.length
        · have hmin := Nat.min_eq_left (Nat.le_of_lt hmore)
          obtain ⟨hlen, hstored⟩ := Dev.Open.stored ⟨hrecv, hfit, hread⟩ hfull
          rw [hmin] at hfull hlen hstored
          obtain ⟨hrecv', -, hbuf, -⟩ := hrecv.out_more cfg hmore hfull
          refine .inr ⟨?_, hfit, ?_⟩
          · rw [hlen]
            exact hrecv'
          · rw [hbuf]
            exact hstored
        · have hlast := Nat.not_lt.mp hmore
          rw [Nat.min_eq_right hlast] at hfull
          obtain ⟨hover, -⟩ := hrecv.out_last cfg hlast hfull
          rcases hover.fsm with hidle | hstatus
          · exact .inl (.of_fsm hidle (by simp) (by simp))
          · exact .inl (.of_fsm hstatus (by simp) (by simp))
      · exact .inl (hrecv.out_short cfg (Nat.not_le.mp hfull)).1.noDataOut
  | reset =>
      rw [poll_reset htidy.noReset] at hnext ⊢
      rcases h with hno | ⟨hrecv, hfit, hread⟩
      · exact .inl ⟨hno.more, hno.last⟩
      · exact .inr ⟨⟨hnext, hrecv.usbReq, hrecv.datasize, hrecv.lt, hrecv.fsm⟩, hfit, hread⟩
  | inDone =>
      have hpoll := poll_polled cfg htidy .inDone
      generalize poll cfg σ .inDone = τ at hpoll
      cases hpoll with
      | stale => exact .inl (.of_fsm (s := .idle) rfl (by simp) (by simp))
      | @inDone _ u =>
          have hin := usbdControlIn_noDataOut cfg { σ with usb := u }
          exact .inl ⟨hin.more, hin.last⟩
      | quiet hflags => exact absurd hflags not_false
  | flags f =>
      have hpoll := poll_polled cfg htidy (.flags f)
      generalize poll cfg σ (.flags f) = τ at hpoll hnext
      cases hpoll with
      | stale => exact .inl (.of_fsm (s := .idle) rfl (by simp) (by simp))
      | @inDone _ u =>
          have hin := usbdControlIn_noDataOut cfg { σ with usb := u }
          exact .inl ⟨hin.more, hin.last⟩
      | quiet =>
          rcases h with hno | ⟨hrecv, hfit, hread⟩
          · exact .inl ⟨hno.more, hno.last⟩
          · exact .inr ⟨⟨hnext, hrecv.usbReq, hrecv.datasize, hrecv.lt, hrecv.fsm⟩, hfit, hread⟩

/-- The transfer is tracked in every run. -/
theorem run_tracks (cfg : Config) (hboot : σ.Boot) (es : List Event) :
    ((machine cfg).run σ es).Tidy ∧ ((machine cfg).run σ es).Tracks (transfer es) :=
  (machine cfg).run_account (R := fun t τ => τ.Tidy ∧ τ.Tracks t) Transfer.next
    (fun _ _ e h => ⟨poll_tidy _ h.1 e, poll_tracks _ h.1 h.2 e⟩)
    ⟨tidy_invariant cfg σ (.init hboot), .inl (.of_fsm hboot.usbFsmState (by simp) (by simp))⟩ es

/-- In a reachable state some transfer is tracked. -/
theorem tracks_invariant (cfg : Config) :
    (machine cfg).Invariant fun σ => σ.Tidy ∧ ∃ t, σ.Tracks t :=
  TSys.Inductive.invariant
    { init := fun σ hboot => by
        obtain ⟨htidy, htracks⟩ := run_tracks cfg hboot []
        exact ⟨htidy, _, htracks⟩
      step := fun σ e h => by
        obtain ⟨htidy, t, htracks⟩ := h
        exact ⟨poll_tidy _ htidy e, t.next e, poll_tracks _ htidy htracks e⟩ }

end LnDso
