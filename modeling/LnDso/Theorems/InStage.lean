import LnDso.Lib.Packets
import LnDso.Logic.Dispatch
import LnDso.Logic.Transactions

/-!
# The IN data stage

A handled read request stages its reply at the start of the control buffer and
sends it packet by packet, one for the SETUP and one for each IN completion.
`Sending ps` is the state that still owes the packets `ps`.
-/

namespace LnDso

open Lib Lib.Packets UsbPeriph

variable {cfg : Config} {p : UsbSetupData} {σ : Dev}

/-- The transfer state owes the packets `ps`. -/
def Dev.Owes (ps : List (List Byte)) (σ : Dev) : Prop :=
  (σ.pipe.usbFsmState = .dataIn ∧ σ.pipe.dataoff.toNat + σ.pipe.datasize.toNat < 2 ^ 16 ∧
    ps = packets 64 σ.pipe.usbNeedsZlp
      (σ.usbdControlBuffer.read σ.pipe.dataoff.toNat σ.pipe.datasize.toNat)) ∨
  (σ.pipe.usbFsmState = .lastDataIn ∧ ps = [])

/-- Endpoint 0 between two polls of an IN stage: no reception to report. -/
structure Dev.Calm (σ : Dev) : Prop where
  noReset : σ.usb.NoReset
  ctrRx : (σ.usb.ep 0).ctrRx = false

theorem Dev.Calm.tail {istr : Half} (hrx : (σ.usb.ep 0).ctrRx = false)
    (hreset : (σ.tail istr).usb.NoReset) : (σ.tail istr).Calm :=
  ⟨hreset, by rw [Dev.tail_ep]; exact hrx⟩

/-! ## One packet -/

/-- The first packet owed is queued, the others are left. -/
theorem usbControlSendChunk_owes (hclear : σ.usb.Clear)
    (hoff : σ.pipe.dataoff.toNat + σ.pipe.datasize.toNat < 2 ^ 16) :
    ∃ q ps, packets 64 σ.pipe.usbNeedsZlp
        (σ.usbdControlBuffer.read σ.pipe.dataoff.toNat σ.pipe.datasize.toNat) = q :: ps ∧
      (usbControlSendChunk σ).usb.queued = σ.usb.queued ++ [q] ∧
      (usbControlSendChunk σ).Owes ps ∧ ((usbControlSendChunk σ).usb.ep 0).ctrRx = false := by
  let chunk := σ.usbdControlBuffer.from_ σ.pipe.dataoff.toNat
  have hrx : ((usbControlSendChunk σ).usb.ep 0).ctrRx = false :=
    (usbControlSendChunk_acts Config.stm32f103 σ).sw.ctrRx hclear.ctrRx
  by_cases hlt : 64 < σ.pipe.datasize.toNat
  · have hsend := usbControlSendChunk_more hlt
    have hqueued := (usbdEpWritePacket_zero hclear.statTx chunk 64).1
    obtain ⟨hadd, hsub⟩ := chunk_progress hlt hoff
    rw [packets_cons (by decide) (by rw [Mem.length_read]; exact hlt),
      Mem.read_take _ _ (Nat.le_of_lt hlt), Mem.read_drop _ _ (Nat.le_of_lt hlt)]
    refine ⟨_, _, rfl, ?_, ?_, hrx⟩
    · rw [hsend]
      refine hqueued.trans ?_
      rw [Mem.read_from]
      rfl
    · rw [hsend]
      refine .inl ⟨rfl, ?_, ?_⟩
      · show (σ.pipe.dataoff + 64).toNat + (σ.pipe.datasize - 64).toNat < _
        omega
      · show _ = packets 64 _ (σ.usbdControlBuffer.read (σ.pipe.dataoff + 64).toNat
          (σ.pipe.datasize - 64).toNat)
        rw [hadd, hsub]
  · have hle : σ.pipe.datasize.toNat ≤ 64 := Nat.not_lt.mp hlt
    have hsend := usbControlSendChunk_last hle
    have hqueued := (usbdEpWritePacket_zero hclear.statTx chunk σ.pipe.datasize).1
    rw [packets_last (by rw [Mem.length_read]; exact hle)]
    refine ⟨_, _, rfl, ?_, ?_, hrx⟩
    · rw [hsend]
      refine hqueued.trans ?_
      rw [Mem.read_from]
      rfl
    · rw [hsend]
      cases hzlp : σ.pipe.usbNeedsZlp with
      | true =>
          refine .inl ⟨rfl, ?_, ?_⟩
          · have := σ.pipe.dataoff.isLt
            exact this
          · have hlast : packets 64 false ([] : List Byte) = [[]] := packets_last (Nat.zero_le _)
            exact hlast.symm
      | false => exact .inr ⟨rfl, rfl⟩

/-- An IN completion while a packet is owed queues it. -/
theorem Dev.Owes.inDone (cfg : Config) {q : List Byte} {ps : List (List Byte)} (hcalm : σ.Calm)
    (h : σ.Owes (q :: ps)) :
    (poll cfg σ .inDone).Calm ∧ (poll cfg σ .inDone).Owes ps ∧
      (poll cfg σ .inDone).usb.queued = σ.usb.queued ++ [q] := by
  have hnext := poll_noReset cfg σ .inDone
  obtain ⟨u, istr, hclear, hqueued, hpoll⟩ := poll_in cfg hcalm.noReset hcalm.ctrRx
  obtain ⟨hfsm, hoff, hps⟩ := h.resolve_right fun hnil => List.cons_ne_nil _ _ hnil.2
  have hin : usbdControlIn cfg { σ with usb := u } = usbControlSendChunk { σ with usb := u } := by
    rw [usbdControlIn, hfsm]
  obtain ⟨q', ps', hcons, hsent, howes, hrx⟩ :=
    usbControlSendChunk_owes (σ := { σ with usb := u }) hclear hoff
  obtain ⟨rfl, rfl⟩ := List.cons.inj (hps.trans hcons)
  rw [hpoll, hin] at hnext ⊢
  exact ⟨.tail hrx hnext, howes, (Dev.tail_queued _ _).trans (hsent.trans (by rw [hqueued]))⟩

/-- The completion of the last packet opens the status stage. -/
theorem Dev.Owes.inDone_last (cfg : Config) (hcalm : σ.Calm) (h : σ.Owes []) :
    (poll cfg σ .inDone).Calm ∧ (poll cfg σ .inDone).pipe.usbFsmState = .statusOut ∧
      (poll cfg σ .inDone).usb.queued = σ.usb.queued := by
  have hnext := poll_noReset cfg σ .inDone
  obtain ⟨u, istr, hclear, hqueued, hpoll⟩ := poll_in cfg hcalm.noReset hcalm.ctrRx
  obtain ⟨hfsm, -⟩ := h.resolve_left fun howes => packets_ne_nil _ _ _ howes.2.2.symm
  have hin : usbdControlIn cfg { σ with usb := u } =
      usbdEpNakSet 0 false ({ σ with usb := u }.setFsm .statusOut) := by
    rw [usbdControlIn, hfsm]
  have hrx : ((usbdControlIn cfg { σ with usb := u }).usb.ep 0).ctrRx = false :=
    (usbdControlIn_acts _ { σ with usb := u }).sw.ctrRx hclear.ctrRx
  rw [hin] at hrx
  rw [hpoll, hin] at hnext ⊢
  exact ⟨.tail hrx hnext, rfl, (Dev.tail_queued _ _).trans hqueued⟩

/-- While packets are owed the status stage is not open. -/
theorem Dev.Owes.fsm_ne {ps : List (List Byte)} (h : σ.Owes ps) :
    σ.pipe.usbFsmState ≠ .statusOut := by
  rcases h with ⟨hfsm, -, -⟩ | ⟨hfsm, -⟩
  · simp [hfsm]
  · simp [hfsm]

/-- Past the status stage an IN completion queues nothing. -/
theorem inDone_past (cfg : Config) (hcalm : σ.Calm)
    (hfsm : σ.pipe.usbFsmState = .statusOut ∨ σ.pipe.usbFsmState = .idle) :
    (poll cfg σ .inDone).Calm ∧ (poll cfg σ .inDone).pipe.usbFsmState = .idle ∧
      (poll cfg σ .inDone).usb.queued = σ.usb.queued := by
  have hnext := poll_noReset cfg σ .inDone
  obtain ⟨u, istr, hclear, hqueued, hpoll⟩ := poll_in cfg hcalm.noReset hcalm.ctrRx
  have hin : usbdControlIn cfg { σ with usb := u } = stallTransaction { σ with usb := u } := by
    rw [usbdControlIn]
    rcases hfsm with hfsm | hfsm <;> rw [hfsm]
  have hrx : ((stallTransaction { σ with usb := u }).usb.ep 0).ctrRx = false :=
    (epStallSet_sw 0 true u).ctrRx hclear.ctrRx
  rw [hpoll, hin] at hnext ⊢
  refine ⟨.tail hrx hnext, rfl, (Dev.tail_queued _ _).trans ?_⟩
  exact (epStallSet_zero u).1.queued.trans hqueued

/-! ## Runs of completions -/

theorem inDones_past (hcalm : σ.Calm)
    (hfsm : σ.pipe.usbFsmState = .statusOut ∨ σ.pipe.usbFsmState = .idle) (j : Nat) :
    ((machine cfg).run σ (List.replicate j .inDone)).usb.queued = σ.usb.queued := by
  induction j generalizing σ with
  | zero => rfl
  | succ j ih =>
      obtain ⟨hnext, hidle, hqueued⟩ := inDone_past cfg hcalm hfsm
      exact (ih hnext (.inr hidle)).trans hqueued

/-- The packets owed go out one by one; the status stage opens after the last. -/
theorem Dev.Owes.inDones (cfg : Config) {ps : List (List Byte)} (hcalm : σ.Calm) (h : σ.Owes ps) (j : Nat) :
    let τ := (machine cfg).run σ (List.replicate j .inDone)
    τ.usb.queued = σ.usb.queued ++ ps.take j ∧
      (j ≤ ps.length → τ.pipe.usbFsmState ≠ .statusOut) ∧
      (j = ps.length + 1 → τ.pipe.usbFsmState = .statusOut) := by
  induction ps generalizing σ j with
  | nil =>
      cases j with
      | zero =>
          exact ⟨(List.append_nil _).symm, fun _ => h.fsm_ne, fun h0 => absurd h0 (by decide)⟩
      | succ j =>
          obtain ⟨hnext, hstatus, hqueued⟩ := h.inDone_last cfg hcalm
          refine ⟨?_, fun hj => absurd hj (Nat.not_succ_le_zero j), fun hj => ?_⟩
          · rw [List.take_nil, List.append_nil]
            exact (inDones_past hnext (.inl hstatus) j).trans hqueued
          · obtain rfl : j = 0 := Nat.succ.inj hj
            exact hstatus
  | cons q ps ih =>
      cases j with
      | zero =>
          exact ⟨(List.append_nil _).symm, fun _ => h.fsm_ne,
            fun h0 => absurd h0.symm (Nat.succ_ne_zero _)⟩
      | succ j =>
          obtain ⟨hnext, howes, hqueued⟩ := h.inDone cfg hcalm
          obtain ⟨hrun, hbefore, hafter⟩ := ih hnext howes j
          refine ⟨?_, fun hj => hbefore (Nat.le_of_succ_le_succ hj),
            fun hj => hafter (Nat.succ.inj hj)⟩
          rw [hqueued, List.append_assoc] at hrun
          exact hrun

/-! ## The reply -/

/-- The state in which `_usb_control_setup_read` dispatches the request `p`. -/
def Dev.asked (p : UsbSetupData) (σ : Dev) : Dev :=
  { σ.read p with pipe := { (σ.read p).pipe with dataoff := 0 } }

/-- What the handler of a read request finds. -/
theorem asked_fields (hreset : σ.usb.NoReset) (p : UsbSetupData) :
    (σ.asked p).dfu = σ.dfu ∧ (σ.asked p).flash = σ.flash ∧ (σ.asked p).pipe.usbReq = p ∧
      (σ.asked p).pipe.datasize = σ.pipe.datasize ∧
      (σ.asked p).usbdControlBuffer = σ.usbdControlBuffer := by
  obtain ⟨u, -, -, -, hread, -⟩ := poll_setup Config.stm32f103 hreset p
  unfold Dev.asked
  rw [hread]
  exact ⟨rfl, rfl, rfl, rfl, rfl⟩

theorem needsZlp_iff (len wLength : Half) (l : List Byte) (h : l.length = len.toNat) :
    needsZlp len wLength bMaxPacketSize0 = true ↔ NeedsZlp 64 wLength.toNat l := by
  have hmod : len % bMaxPacketSize0.setWidth 16 = 0 ↔ len.toNat % 64 = 0 := by
    rw [← BitVec.toNat_inj, BitVec.toNat_umod]
    rfl
  have hne : len ≠ 0 ↔ l ≠ [] := by
    constructor
    · rintro hlen rfl
      exact hlen (BitVec.eq_of_toNat_eq h.symm)
    · rintro hl rfl
      exact hl (List.length_eq_zero_iff.mp h)
  rw [needsZlp, NeedsZlp, Bool.and_eq_true, Bool.and_eq_true, decide_eq_true_iff,
    decide_eq_true_iff, decide_eq_true_iff, hmod, hne, h]
  rfl

/-- A handled read request sends the first packet of its reply and owes the rest. -/
theorem poll_setup_read (hreset : σ.usb.NoReset) (hdir : p.DirIn) (hw : p.wLength ≠ 0)
    {r : ReqCode} {ρ : Dev} (hd : usbControlRequestDispatch cfg (σ.asked p) = (r, ρ))
    (hr : r ≠ .notsupp) :
    let w := p.wLength.toNat
    let data := ρ.usbdControlBuffer.read 0 (min ρ.pipe.datasize.toNat w)
    ∃ q ps zlp, (zlp = true ↔ NeedsZlp 64 w data) ∧ packets 64 zlp data = q :: ps ∧
      (poll cfg σ (.setup p)).usb.queued = σ.usb.queued ++ [q] ∧
      (poll cfg σ (.setup p)).Calm ∧ (poll cfg σ (.setup p)).Owes ps := by
  intro w data
  have hnext := poll_noReset cfg σ (.setup p)
  obtain ⟨u, istr, hclear, hqueued, hread, hpoll⟩ := poll_setup cfg hreset p
  let τ : Dev := { σ.began p u with pipe := { (σ.began p u).pipe with dataoff := 0 } }
  have hasked : σ.asked p = τ := by rw [Dev.asked, hread]
  rw [hasked] at hd
  have hhandles := usbControlRequestDispatch_handles cfg τ
  have hsw := (usbControlRequestDispatch_acts cfg τ).sw
  rw [hd] at hhandles hsw
  have hρqueued : ρ.usb.queued = σ.usb.queued := hhandles.queued.trans hqueued
  have hρclear : ρ.usb.Clear :=
    ⟨hsw.noReset hclear.noReset, hsw.ctrRx hclear.ctrRx, hhandles.statTx hclear.statTx⟩
  let size := truncate p.wLength ρ.pipe.datasize
  have hsize : size.toNat = min ρ.pipe.datasize.toNat w := truncate_toNat _ _
  let zlp := needsZlp size p.wLength bMaxPacketSize0
  have hstage : (σ.began p u).setupStage cfg p =
      usbControlSendChunk { ρ with pipe := { ρ.pipe with datasize := size, usbNeedsZlp := zlp } } :=
    (setupStage_answered (.inr hdir) rfl hr hd).trans (if_pos hw)
  have hoff : ρ.pipe.dataoff = 0 := hhandles.dataoff
  have hbound : ρ.pipe.dataoff.toNat + size.toNat < 2 ^ 16 := by
    have := size.isLt
    rw [hoff]
    simpa using this
  obtain ⟨q, ps, hcons, hsent, howes, hrx⟩ := usbControlSendChunk_owes
    (σ := { ρ with pipe := { ρ.pipe with datasize := size, usbNeedsZlp := zlp } }) hρclear hbound
  have hdata : ρ.usbdControlBuffer.read ρ.pipe.dataoff.toNat size.toNat = data := by
    rw [hoff, hsize]
    rfl
  refine ⟨q, ps, zlp, ?_, ?_, ?_⟩
  · exact needsZlp_iff size p.wLength data (by rw [Mem.length_read, hsize])
  · rw [← hdata]
    exact hcons
  · rw [hpoll, hstage] at hnext ⊢
    refine ⟨(Dev.tail_queued _ _).trans (hsent.trans ?_), .tail hrx hnext, howes⟩
    show ρ.usb.queued ++ [q] = _
    rw [hρqueued]

/-- The SETUP of a handled read request and the IN completions after it queue
the packets of its reply, one by one. -/
theorem read_queues (hreset : σ.usb.NoReset) (hdir : p.DirIn) (hw : p.wLength ≠ 0)
    {r : ReqCode} {ρ : Dev} (hd : usbControlRequestDispatch cfg (σ.asked p) = (r, ρ))
    (hr : r ≠ .notsupp) :
    let w := p.wLength.toNat
    let data := ρ.usbdControlBuffer.read 0 (min ρ.pipe.datasize.toNat w)
    ∃ zlp, (zlp = true ↔ NeedsZlp 64 w data) ∧
      ∀ j, let τ := (machine cfg).run σ (.setup p :: List.replicate j .inDone)
        τ.usb.queued = σ.usb.queued ++ (packets 64 zlp data).take (j + 1) ∧
        (j < (packets 64 zlp data).length → τ.pipe.usbFsmState ≠ .statusOut) ∧
        (j = (packets 64 zlp data).length → τ.pipe.usbFsmState = .statusOut) := by
  intro w data
  obtain ⟨q, ps, zlp, hzlp, hpkts, hsent, hcalm, howes⟩ := poll_setup_read hreset hdir hw hd hr
  refine ⟨zlp, hzlp, fun j => ?_⟩
  obtain ⟨hrun, hbefore, hafter⟩ := howes.inDones cfg hcalm j
  rw [hpkts]
  refine ⟨hrun.trans ?_, fun hj => hbefore (Nat.le_of_lt_succ hj), hafter⟩
  rw [hsent, List.append_assoc]
  rfl

/-- A read request that is refused queues nothing, whatever completes after it. -/
theorem refused_queues (hreset : σ.usb.NoReset) (hdir : p.DirIn)
    (hr : (usbControlRequestDispatch cfg (σ.asked p)).1 = .notsupp) (j : Nat) :
    ((machine cfg).run σ (.setup p :: List.replicate j .inDone)).usb.queued = σ.usb.queued := by
  have hnext := poll_noReset cfg σ (.setup p)
  obtain ⟨u, istr, hclear, hqueued, hread, hpoll⟩ := poll_setup cfg hreset p
  let τ : Dev := { σ.began p u with pipe := { (σ.began p u).pipe with dataoff := 0 } }
  have hasked : σ.asked p = τ := by rw [Dev.asked, hread]
  rw [hasked] at hr
  let ρ := (usbControlRequestDispatch cfg τ).2
  have hhandles := usbControlRequestDispatch_handles cfg τ
  have hsw := (usbControlRequestDispatch_acts cfg τ).sw
  have hstage : (σ.began p u).setupStage cfg p = stallTransaction ρ :=
    setupStage_refused (.inr hdir) (Prod.ext hr rfl)
  have hrx : ((stallTransaction ρ).usb.ep 0).ctrRx = false :=
    (epStallSet_sw 0 true ρ.usb).ctrRx (hsw.ctrRx hclear.ctrRx)
  rw [hstage] at hpoll
  rw [hpoll] at hnext
  have hsent : (poll cfg σ (.setup p)).usb.queued = σ.usb.queued := by
    rw [hpoll, Dev.tail_queued]
    exact (epStallSet_zero ρ.usb).1.queued.trans (hhandles.queued.trans hqueued)
  have hcalm : (poll cfg σ (.setup p)).Calm := by
    rw [hpoll]
    exact .tail hrx hnext
  have hidle : (poll cfg σ (.setup p)).pipe.usbFsmState = .idle := by
    rw [hpoll]
    rfl
  exact (inDones_past hcalm (.inr hidle) j).trans hsent

/-- **Packetisation.** A handled read request from any reachable state: with
`n` the staged length truncated to wLength, the packets that the SETUP and the
following IN completions queue are full up to the last one, make up the first
`n` bytes of the control buffer, and end with an empty packet exactly when the
host could not tell the end otherwise. A host that reads them stops with the
last one, and only its completion opens the status stage. -/
theorem in_stage (cfg : Config) {σ : Dev} (hσ : (machine cfg).Reachable σ) {p : UsbSetupData}
    (hdir : p.DirIn) (hw : p.wLength ≠ 0)
    (hr : (usbControlRequestDispatch cfg (σ.asked p)).1 ≠ .notsupp) :
    let ρ := (usbControlRequestDispatch cfg (σ.asked p)).2
    let w := p.wLength.toNat
    let n := min ρ.pipe.datasize.toNat w
    let data := ρ.usbdControlBuffer.read 0 n
    ∃ pkts : List (List Byte),
      (∀ q ∈ pkts.dropLast, q.length = 64) ∧ (∀ q ∈ pkts, q.length ≤ 64) ∧
      pkts.flatten = data ∧
      (pkts.getLast? = some [] ↔ n = 0 ∨ n < w ∧ n % 64 = 0) ∧
      hostRead 64 w pkts = some (data, []) ∧
      ∀ j, let τ := (machine cfg).run σ (.setup p :: List.replicate j .inDone)
        τ.usb.queued = σ.usb.queued ++ pkts.take (j + 1) ∧
        (j < pkts.length → τ.pipe.usbFsmState ≠ .statusOut) ∧
        (j = pkts.length → τ.pipe.usbFsmState = .statusOut) := by
  rcases hd : usbControlRequestDispatch cfg (σ.asked p) with ⟨r, ρ⟩
  rw [hd] at hr
  intro _ w n data
  obtain ⟨zlp, hzlp, hqueues⟩ := read_queues (noReset_invariant cfg σ hσ) hdir hw hd hr
  have hlen : data.length = n := Mem.length_read ..
  have hnil : data = [] ↔ n = 0 := by rw [← List.length_eq_zero_iff, hlen]
  refine ⟨packets 64 zlp data, fun _ => length_of_mem_dropLast (by decide) fun h => (hzlp.mp h).2,
    fun _ => length_le_of_mem (by decide), flatten_packets _ _ _, ?_, ?_, hqueues⟩
  · rw [getLast?_eq_nil_iff, hzlp, NeedsZlp, Ne, hnil, hlen]
    omega
  · exact hostRead_packets (by decide) (hlen ▸ Nat.min_le_right _ _) hzlp

/-- The device descriptor, to a host that asks for 64 bytes. -/
theorem in_stage_getDescriptor :
    let p : UsbSetupData := ⟨0x80, 6, 0x0100, 0, 64⟩
    let σ := Dev.fresh fun _ => 0xff
    let ρ := (usbControlRequestDispatch .stm32f103 (σ.asked p)).2
    let n := min ρ.pipe.datasize.toNat 64
    let data := ρ.usbdControlBuffer.read 0 n
    ∃ pkts : List (List Byte),
      (∀ q ∈ pkts.dropLast, q.length = 64) ∧ (∀ q ∈ pkts, q.length ≤ 64) ∧
      pkts.flatten = data ∧
      (pkts.getLast? = some [] ↔ n = 0 ∨ n < 64 ∧ n % 64 = 0) ∧
      hostRead 64 64 pkts = some (data, []) ∧
      ∀ j, let τ := (machine .stm32f103).run σ (.setup p :: List.replicate j .inDone)
        τ.usb.queued = σ.usb.queued ++ pkts.take (j + 1) ∧
        (j < pkts.length → τ.pipe.usbFsmState ≠ .statusOut) ∧
        (j = pkts.length → τ.pipe.usbFsmState = .statusOut) :=
  in_stage .stm32f103 (.init (Dev.fresh_boot _)) (p := ⟨0x80, 6, 0x0100, 0, 64⟩) (by decide)
    (by decide) (by decide +kernel)

end LnDso
