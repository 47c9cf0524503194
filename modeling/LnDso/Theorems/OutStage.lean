import LnDso.Logic.DataStage

/-!
# The OUT data stage

Runs of OUT packets after the SETUP of a write request, packets of any lengths.
-/

namespace LnDso

open Lib Lib.Packets UsbPeriph

variable {cfg : Config} {p : UsbSetupData} {σ : Dev} {n : Nat}

/-! ## Runs of packets -/

/-- No call dispatches a request. -/
def NoDispatch (l : List Call) : Prop := ∀ c ∈ l, ¬ c.IsDispatch

theorem noDispatch_nil : NoDispatch [] := fun _ hc => absurd hc List.not_mem_nil

theorem noDispatch_stall : NoDispatch [.stall] := fun _ hc => List.mem_singleton.mp hc ▸ not_false

theorem NoDispatch.append {l l' : List Call} (h : NoDispatch l) (h' : NoDispatch l') :
    NoDispatch (l ++ l') := fun c hc =>
  (List.mem_append.mp hc).elim (h c) (h' c)

/-- The payloads of OUT packets. -/
def payloads (pkts : List Packet) : List (List Byte) := pkts.map Packet.bytes

theorem payloads_cons (pkt : Packet) (pkts : List Packet) :
    payloads (pkt :: pkts) = pkt.bytes :: payloads pkts := rfl

/-- After the stage is over, packets are refused and stored nowhere. -/
theorem Dev.Over.outs (cfg : Config) (h : σ.Over) (pkts : List Packet) :
    (σ.Refused → ((machine cfg).run σ (pkts.map .out)).Refused) ∧
      (∃ l, ((machine cfg).run σ (pkts.map .out)).calls = σ.calls ++ l ∧ NoDispatch l) ∧
      ((machine cfg).run σ (pkts.map .out)).usbdControlBuffer = σ.usbdControlBuffer := by
  induction pkts generalizing σ with
  | nil => exact ⟨id, ⟨[], (List.append_nil _).symm, noDispatch_nil⟩, rfl⟩
  | cons pkt pkts ih =>
      obtain ⟨hrefused, hcalls, hbuf⟩ := h.out cfg pkt
      obtain ⟨hrun, ⟨l, hl, hno⟩, hrunbuf⟩ :=
        ih (σ := poll cfg σ (.out pkt)) ⟨poll_noReset cfg σ (.out pkt), .inl hrefused.idle⟩
      refine ⟨fun _ => hrun hrefused, ⟨.stall :: l, ?_, noDispatch_stall.append hno⟩,
        hrunbuf.trans hbuf⟩
      refine hl.trans ?_
      rw [hcalls, List.append_assoc]
      rfl

/-- Packets that bring their shares, before the last one is there. -/
theorem Dev.Receiving.outs_pending (cfg : Config) (h : σ.Receiving p n) {pkts : List Packet}
    (hfull : Full 64 (p.wLength.toNat - n) (payloads pkts))
    (hcount : pkts.length < count 64 (p.wLength.toNat - n)) :
    ((machine cfg).run σ (pkts.map .out)).calls = σ.calls ∧
      ((machine cfg).run σ (pkts.map .out)).usbdControlBuffer =
        σ.usbdControlBuffer.write n (gather 64 (p.wLength.toNat - n) (payloads pkts)) := by
  induction pkts generalizing σ n with
  | nil => exact ⟨rfl, (Mem.write_nil _ _).symm⟩
  | cons pkt pkts ih =>
      obtain ⟨hpkt, hpkts⟩ := full_cons.mp hfull
      rw [lt_count_iff (by decide), List.length_cons] at hcount
      have hmore : 64 < p.wLength.toNat - n := by omega
      have hmin : min 64 (p.wLength.toNat - n) = 64 := Nat.min_eq_left (Nat.le_of_lt hmore)
      rw [hmin] at hpkt
      obtain ⟨hrecv, hcalls, hbuf, -⟩ := h.out_more cfg hmore hpkt
      rw [Nat.sub_sub] at hpkts
      obtain ⟨hruncalls, hrunbuf⟩ := ih hrecv hpkts ((lt_count_iff (by decide)).mpr (by omega))
      have htake : (pkt.bytes.take 64).length = 64 := List.length_take_of_le hpkt
      refine ⟨hruncalls.trans hcalls, hrunbuf.trans ?_⟩
      rw [hbuf, payloads_cons, gather, hmin, Nat.sub_sub, ← Mem.write_write, htake]

/-- Packets that bring their shares, the last one among them. -/
theorem Dev.Receiving.outs_dispatched (cfg : Config) (h : σ.Receiving p n) {pkts : List Packet}
    (hfull : Full 64 (p.wLength.toNat - n) (payloads pkts))
    (hcount : count 64 (p.wLength.toNat - n) ≤ pkts.length) :
    let buf := σ.usbdControlBuffer.write n (gather 64 (p.wLength.toNat - n) (payloads pkts))
    (∃ l, ((machine cfg).run σ (pkts.map .out)).calls = σ.calls ++ .dispatch p buf :: l ∧
        NoDispatch l) ∧
      ∀ j, controlBufferSize ≤ j →
        ((machine cfg).run σ (pkts.map .out)).usbdControlBuffer j = buf j := by
  induction pkts generalizing σ n with
  | nil =>
      have hlt := h.lt
      rw [count_le_iff (by decide), List.length_nil] at hcount
      omega
  | cons pkt pkts ih =>
      obtain ⟨hpkt, hpkts⟩ := full_cons.mp hfull
      rw [count_le_iff (by decide), List.length_cons] at hcount
      by_cases hmore : 64 < p.wLength.toNat - n
      · have hmin : min 64 (p.wLength.toNat - n) = 64 := Nat.min_eq_left (Nat.le_of_lt hmore)
        rw [hmin] at hpkt
        obtain ⟨hrecv, hcalls, hbuf, -⟩ := h.out_more cfg hmore hpkt
        rw [Nat.sub_sub] at hpkts
        have htake : (pkt.bytes.take 64).length = 64 := List.length_take_of_le hpkt
        have hrun := ih hrecv hpkts ((count_le_iff (by decide)).mpr (by omega))
        rw [hcalls, hbuf] at hrun
        rw [payloads_cons, gather, hmin, Nat.sub_sub, ← Mem.write_write, htake]
        exact hrun
      · have hlast : p.wLength.toNat - n ≤ 64 := Nat.not_lt.mp hmore
        have hmin : min 64 (p.wLength.toNat - n) = p.wLength.toNat - n := Nat.min_eq_right hlast
        rw [hmin] at hpkt
        obtain ⟨hover, ⟨l, hl, hno⟩, habove⟩ := h.out_last cfg hlast hpkt
        obtain ⟨-, ⟨l', hl', hno'⟩, hbuf⟩ := hover.outs cfg pkts
        rw [payloads_cons, gather, hmin, Nat.sub_eq_zero_of_le hlast, gather_zero, List.append_nil]
        refine ⟨⟨l ++ l', ?_, NoDispatch.append hno hno'⟩, fun j hj => ?_⟩
        · refine hl'.trans ?_
          rw [hl, List.append_assoc]
          rfl
        · exact (congrFun hbuf j).trans (habove j hj)

/-- Some packet falls short. -/
theorem Dev.Receiving.outs_short (cfg : Config) (h : σ.Receiving p n) {pkts : List Packet}
    (hshort : ¬ Full 64 (p.wLength.toNat - n) (payloads pkts)) :
    ((machine cfg).run σ (pkts.map .out)).Refused ∧
      (∃ l, ((machine cfg).run σ (pkts.map .out)).calls = σ.calls ++ l ∧ NoDispatch l) ∧
      ∀ j, p.wLength.toNat ≤ j →
        ((machine cfg).run σ (pkts.map .out)).usbdControlBuffer j = σ.usbdControlBuffer j := by
  induction pkts generalizing σ n with
  | nil => exact absurd (full_nil _ _) hshort
  | cons pkt pkts ih =>
      by_cases hpkt : min 64 (p.wLength.toNat - n) ≤ pkt.bytes.length
      · have hpkts : ¬ Full 64 (p.wLength.toNat - n - 64) (payloads pkts) :=
          fun hf => hshort (full_cons.mpr ⟨hpkt, hf⟩)
        have hmore : 64 < p.wLength.toNat - n := by
          by_contra hle
          rw [Nat.sub_eq_zero_of_le (Nat.not_lt.mp hle)] at hpkts
          exact hpkts (full_zero _ _)
        rw [Nat.min_eq_left (Nat.le_of_lt hmore)] at hpkt
        rw [Nat.sub_sub] at hpkts
        obtain ⟨hrecv, hcalls, hbuf, -⟩ := h.out_more cfg hmore hpkt
        obtain ⟨hrefused, ⟨l, hl, hno⟩, habove⟩ := ih hrecv hpkts
        refine ⟨hrefused, ⟨l, hl.trans (by rw [hcalls]), hno⟩, fun j hj => ?_⟩
        refine (habove j hj).trans ?_
        rw [hbuf]
        exact Mem.write_above _ _ _ (by rw [List.length_take_of_le hpkt]; omega)
      · have hlt : pkt.bytes.length < min 64 (p.wLength.toNat - n) := Nat.not_le.mp hpkt
        obtain ⟨hrefused, hcalls, hbuf⟩ := h.out_short cfg hlt
        have hover : (poll cfg σ (.out pkt)).Over :=
          ⟨poll_noReset cfg σ (.out pkt), .inl hrefused.idle⟩
        obtain ⟨hrun, ⟨l, hl, hno⟩, hrunbuf⟩ := hover.outs cfg pkts
        refine ⟨hrun hrefused, ⟨.stall :: l, ?_, noDispatch_stall.append hno⟩, fun j hj => ?_⟩
        · refine hl.trans ?_
          rw [hcalls, List.append_assoc]
          rfl
        · refine (congrFun hrunbuf j).trans ?_
          rw [hbuf]
          exact Mem.write_above _ _ _ (by omega)

/-! ## The data stage as a whole -/

/-- A request for more than the buffer holds: the SETUP is refused, and so is
every packet after it. -/
theorem outs_tooLong (cfg : Config) {σ : Dev} (hreset : σ.usb.NoReset) {p : UsbSetupData}
    (hdir : ¬ p.DirIn) (hlarge : controlBufferSize < p.wLength.toNat) (pkts : List Packet) :
    let τ := (machine cfg).run σ (.setup p :: pkts.map .out)
    τ.Refused ∧ τ.usbdControlBuffer = σ.usbdControlBuffer ∧
      ∃ l, τ.calls = σ.calls ++ .setup p :: l ∧ NoDispatch l := by
  intro τ
  obtain ⟨hrefused, hcalls, hbuf⟩ := poll_setup_tooLong cfg hreset hdir hlarge
  have hover : (poll cfg σ (.setup p)).Over :=
    ⟨poll_noReset cfg σ (.setup p), .inl hrefused.idle⟩
  obtain ⟨hrun, ⟨l, hl, hno⟩, hrunbuf⟩ := hover.outs cfg pkts
  refine ⟨hrun hrefused, hrunbuf.trans hbuf, .stall :: l, ?_, noDispatch_stall.append hno⟩
  refine hl.trans ?_
  rw [hcalls, List.append_assoc]
  rfl

/-- **Reassembly.** A write request from any reachable state, then OUT packets
of any lengths: it is refused at once when it does not fit the buffer, refused
without a dispatch when a packet falls short, and otherwise dispatched once, on
the packet that completes it, over the bytes asked for. Nothing outside the
control buffer is written. -/
theorem out_stage (cfg : Config) {σ : Dev} (hσ : (machine cfg).Reachable σ) {p : UsbSetupData}
    (hdir : ¬ p.DirIn) (hw : p.wLength ≠ 0) (pkts : List Packet) :
    let w := p.wLength.toNat
    let τ := (machine cfg).run σ (.setup p :: pkts.map .out)
    (∀ j, controlBufferSize ≤ j → τ.usbdControlBuffer j = σ.usbdControlBuffer j) ∧
    (controlBufferSize < w → τ.Refused ∧ τ.usbdControlBuffer = σ.usbdControlBuffer ∧
      ∃ l, τ.calls = σ.calls ++ .setup p :: l ∧ NoDispatch l) ∧
    (w ≤ controlBufferSize → ¬ Full 64 w (payloads pkts) →
      τ.Refused ∧ ∃ l, τ.calls = σ.calls ++ .setup p :: l ∧ NoDispatch l) ∧
    (w ≤ controlBufferSize → Full 64 w (payloads pkts) → pkts.length < count 64 w →
      τ.calls = σ.calls ++ [.setup p] ∧
        τ.usbdControlBuffer = σ.usbdControlBuffer.write 0 (gather 64 w (payloads pkts))) ∧
    (w ≤ controlBufferSize → Full 64 w (payloads pkts) → count 64 w ≤ pkts.length →
      ∃ buf l, τ.calls = σ.calls ++ .setup p :: .dispatch p buf :: l ∧ NoDispatch l ∧
        buf.read 0 w = gather 64 w (payloads pkts) ∧
        ∀ j, w ≤ j → buf j = σ.usbdControlBuffer j) := by
  intro w τ
  have hreset : σ.usb.NoReset := noReset_invariant cfg σ hσ
  have hτ : τ = (machine cfg).run (poll cfg σ (.setup p)) (pkts.map .out) := rfl
  have hsnoc : ∀ l : List Call, σ.calls ++ [.setup p] ++ l = σ.calls ++ .setup p :: l := fun l => by
    rw [List.append_assoc]
    rfl
  by_cases hfit : w ≤ controlBufferSize
  · obtain ⟨hrecv, hcalls, hbuf, -⟩ := poll_setup_write cfg hreset hdir hw hfit
    have hwrite : ∀ bs : List Byte, bs.length ≤ w → ∀ j, w ≤ j →
        σ.usbdControlBuffer.write 0 bs j = σ.usbdControlBuffer j :=
      fun bs hbs j hj => Mem.write_above _ _ _ (by omega)
    by_cases hfull : Full 64 w (payloads pkts)
    · have hlen := length_gather hfull
      by_cases hcount : pkts.length < count 64 w
      · have hrun := hrecv.outs_pending cfg hfull hcount
        rw [← hτ, hcalls, hbuf] at hrun
        refine ⟨fun j hj => ?_, fun h => absurd hfit (Nat.not_le.mpr h),
          fun _ h => absurd hfull h, fun _ _ _ => hrun, fun _ _ h => absurd hcount (Nat.not_lt.mpr h)⟩
        rw [hrun.2]
        exact hwrite _ (hlen ▸ Nat.min_le_left _ _) j (hfit.trans hj)
      · have hk := Nat.not_lt.mp hcount
        obtain ⟨⟨l, hl, hno⟩, habove⟩ := hrecv.outs_dispatched cfg hfull hk
        have hlast : (gather 64 w (payloads pkts)).length = w :=
          length_gather_of_count (by decide) hfull (by rw [payloads, List.length_map]; exact hk)
        rw [← hτ, hcalls, hbuf, hsnoc] at hl
        rw [← hτ, hbuf] at habove
        refine ⟨fun j hj => ?_, fun h => absurd hfit (Nat.not_le.mpr h),
          fun _ h => absurd hfull h, fun _ _ h => absurd h hcount,
          fun _ _ _ => ⟨σ.usbdControlBuffer.write 0 (gather 64 w (payloads pkts)), l, hl, hno, ?_,
            hwrite _ (Nat.le_of_eq hlast)⟩⟩
        · exact (habove j hj).trans (hwrite _ (Nat.le_of_eq hlast) j (hfit.trans hj))
        · have hread := Mem.read_write σ.usbdControlBuffer 0 (gather 64 w (payloads pkts))
          rwa [hlast] at hread
    · obtain ⟨hrefused, ⟨l, hl, hno⟩, habove⟩ := hrecv.outs_short cfg hfull
      rw [← hτ, hcalls, hsnoc] at hl
      rw [← hτ, hbuf] at habove
      exact ⟨fun j hj => habove j (hfit.trans hj), fun h => absurd hfit (Nat.not_le.mpr h),
        fun _ _ => ⟨hrefused, l, hl, hno⟩, fun _ h => absurd h hfull, fun _ h => absurd h hfull⟩
  · have hlong := outs_tooLong cfg hreset hdir (Nat.not_le.mp hfit) pkts
    exact ⟨fun j _ => congrFun hlong.2.1 j, fun _ => hlong,
      fun h => absurd h hfit, fun h => absurd h hfit, fun h => absurd h hfit⟩

/-- A download of 70 bytes in packets of 64 and 6. -/
theorem out_stage_download :
    let pkts : List Packet :=
      [⟨List.replicate 64 0x5a, by decide⟩, ⟨List.replicate 6 0xa5, by decide⟩]
    ∃ buf l, ((machine .stm32f103).run (Dev.fresh fun _ => 0xff)
        (.setup ⟨0x21, 1, 2, 0, 70⟩ :: pkts.map .out)).calls =
          [] ++ .setup ⟨0x21, 1, 2, 0, 70⟩ :: .dispatch ⟨0x21, 1, 2, 0, 70⟩ buf :: l ∧
      NoDispatch l ∧ buf.read 0 70 = List.replicate 64 0x5a ++ List.replicate 6 0xa5 ∧
      ∀ j, 70 ≤ j → buf j = 0 := by
  intro pkts
  have hfull : Full 64 70 (payloads pkts) := by
    refine full_cons.mpr ⟨by decide, full_cons.mpr ⟨by decide, full_nil _ _⟩⟩
  exact (out_stage .stm32f103 (.init (Dev.fresh_boot _)) (p := ⟨0x21, 1, 2, 0, 70⟩) (by decide)
    (by decide) pkts).2.2.2.2 (by decide) hfull (by decide)

end LnDso
