import LnDso.Logic.DataStage

/-!
# The effect of a poll

Moving packets, stalling and keeping the registers of endpoint 0 is plumbing.
Beside that a poll does at most one thing: it dispatches one request, or it
runs the completion callback. `Effect` lists the three cases, and `Dispatches`
says of the event and the state before it which one it is.
-/

namespace LnDso

open Lib UsbPeriph

variable {cfg : Config} {σ τ υ : Dev}

/-! ## Plumbing -/

/-- Between the two states only endpoint registers that meet `P` are accessed. -/
def UsbPeriph.Touches (P : Nat → Prop) (u v : UsbPeriph) : Prop :=
  ∃ l, v.touched = u.touched ++ l ∧ ∀ n ∈ l, P n

namespace UsbPeriph.Touches

variable {P Q : Nat → Prop} {u v w : UsbPeriph}

theorem of_eq (h : v.touched = u.touched) : Touches P u v := ⟨[], by simp [h], by simp⟩

theorem one {n : Nat} (h : v.touched = u.touched ++ [n]) (hn : P n) : Touches P u v :=
  ⟨[n], h, by simpa using hn⟩

theorem trans (h : Touches P u v) (h' : Touches P v w) : Touches P u w := by
  obtain ⟨l, hl, hP⟩ := h
  obtain ⟨l', hl', hP'⟩ := h'
  refine ⟨l ++ l', by rw [hl', hl, List.append_assoc], fun n hn => ?_⟩
  rcases List.mem_append.mp hn with hn | hn
  · exact hP n hn
  · exact hP' n hn

theorem mono (hPQ : ∀ n, P n → Q n) (h : Touches P u v) : Touches Q u v := by
  obtain ⟨l, hl, hP⟩ := h
  exact ⟨l, hl, fun n hn => hPQ n (hP n hn)⟩

theorem ite {c : Prop} [Decidable c] (hv : Touches P u v) (hw : Touches P u w) :
    Touches P u (if c then v else w) := by
  split
  · exact hv
  · exact hw

end UsbPeriph.Touches

theorem epRegRmw_touches {P : Nat → Prop} {n : Nat} (hn : P n) (f : Half → Half) (u : UsbPeriph) :
    Touches P u (epRegRmw n f u) := .one rfl hn

/-- A SETUP was read, a packet queued, or a transfer stalled. -/
def Call.Plain : Call → Prop
  | .setup _ | .send _ _ | .stall => True
  | _ => False

/-- Work on endpoint 0 alone: no request handler and no callback runs. -/
structure Dev.Plumbed (σ τ : Dev) : Prop where
  dfu : τ.dfu = σ.dfu
  flash : τ.flash = σ.flash
  calls : σ.Records Call.Plain τ
  usb : Touches (· = 0) σ.usb τ.usb

namespace Dev.Plumbed

theorem of_eq (hdfu : τ.dfu = σ.dfu) (hflash : τ.flash = σ.flash) (hcalls : τ.calls = σ.calls)
    (husb : τ.usb.touched = σ.usb.touched) : σ.Plumbed τ :=
  ⟨hdfu, hflash, .of_eq hcalls, .of_eq husb⟩

theorem trans (h : σ.Plumbed τ) (h' : τ.Plumbed υ) : σ.Plumbed υ :=
  ⟨h'.dfu.trans h.dfu, h'.flash.trans h.flash, h.calls.trans h'.calls, h.usb.trans h'.usb⟩

theorem setPipe (P : Pipe) (σ : Dev) : σ.Plumbed { σ with pipe := P } := of_eq rfl rfl rfl rfl

theorem onBus (e : Event) (σ : Dev) : σ.Plumbed (σ.onBus e) := by
  refine of_eq rfl rfl rfl ?_
  cases e <;> rfl

theorem touch0 (σ : Dev) : σ.Plumbed σ.touch0 := ⟨rfl, rfl, .of_eq rfl, .one rfl rfl⟩

theorem tail (istr : Half) (σ : Dev) : σ.Plumbed (σ.tail istr) := by
  refine of_eq rfl rfl rfl ?_
  have hack : ∀ bit u, (ackIstr istr bit u).touched = u.touched := fun bit u => by
    unfold ackIstr
    split <;> rfl
  show (ackIstr istr usbIstrSof _).touched = _
  rw [hack, hack, hack]

theorem writePacket0 (buf : Mem) (len : Half) (σ : Dev) : σ.Plumbed (σ.writePacket0 buf len) := by
  refine ⟨rfl, rfl, .of_eq rfl, ?_⟩
  show Touches _ σ.usb (usbdEpWritePacket 0 buf len σ.usb).2
  unfold usbdEpWritePacket
  dsimp only
  split
  · exact .one rfl rfl
  · exact ⟨[0, 0], by simp [usbSetEpTxStat, usbSetEpTxCount, epRegRmw, touch, setDesc, setReg],
      by simp⟩

theorem usbdEpNakSet (nak : Bool) (σ : Dev) : σ.Plumbed (usbdEpNakSet 0 nak σ) :=
  ⟨rfl, rfl, .of_eq rfl, .one rfl rfl⟩

theorem stallTransaction (σ : Dev) : σ.Plumbed (stallTransaction σ) :=
  ⟨rfl, rfl, .one rfl trivial, ⟨[0, 0], by simp [LnDso.stallTransaction, epStallSet,
    usbSetEpTxStat, usbSetEpRxStat, epRegRmw, touch, setReg], by simp⟩⟩

end Dev.Plumbed

theorem usbdEpReadPacket_touches (forceNak : Nat → Bool) (buf : Mem) (off : Nat) (len : Half)
    (u : UsbPeriph) : Touches (· = 0) u (usbdEpReadPacket forceNak 0 buf off len u).2.2 := by
  have hset : ∀ f v, Touches (· = 0) v (epRegRmw 0 f v) := fun f v =>
    epRegRmw_touches (P := (· = 0)) rfl f v
  have hclr : Touches (· = 0) u (usbClrEpRxCtr 0 (u.touch 0)) := .trans (.one rfl rfl) (hset _ _)
  unfold usbdEpReadPacket
  dsimp only
  split
  · exact .one rfl rfl
  · exact hclr.ite (hclr.trans (hset _ _))

theorem readSetup_plumbed (σ : Dev) : σ.Plumbed (readSetup σ).2 := by
  let σ' := usbdEpNakSet 0 true { σ with pipe := { σ.pipe with usbCompleteCb := none } }
  have hnak : σ.Plumbed σ' := ⟨rfl, rfl, .of_eq rfl, .one rfl rfl⟩
  exact hnak.trans ⟨rfl, rfl, .of_eq rfl, usbdEpReadPacket_touches _ _ _ _ _⟩

theorem usbControlSendChunk_plumbed (σ : Dev) : σ.Plumbed (usbControlSendChunk σ) := by
  have hsend : ∀ buf len off n, σ.Plumbed ((σ.writePacket0 buf len).call (.send off n)) :=
    fun buf len off n => (Dev.Plumbed.writePacket0 buf len σ).trans
      ⟨rfl, rfl, .one rfl trivial, .of_eq rfl⟩
  unfold usbControlSendChunk
  dsimp only
  split
  · exact (hsend _ _ _ _).trans (.of_eq rfl rfl rfl rfl)
  · exact (hsend _ _ _ _).trans (.of_eq rfl rfl rfl rfl)

theorem usbControlRecvChunk_plumbed (σ : Dev) : σ.Plumbed (usbControlRecvChunk σ).2 := by
  have hread : ∀ buf off len (buf' : Mem) (P : Pipe), σ.Plumbed { σ with
      usbdControlBuffer := buf'
      usb := (usbdEpReadPacket σ.pipe.usbForceNak 0 buf off len σ.usb).2.2
      pipe := P } :=
    fun buf off len _ _ => ⟨rfl, rfl, .of_eq rfl, usbdEpReadPacket_touches _ buf off len σ.usb⟩
  unfold usbControlRecvChunk
  dsimp only
  split
  · exact (hread _ _ _ _ σ.pipe).trans (.stallTransaction _)
  · exact hread _ _ _ _ _

theorem answer_plumbed (w : Half) (σ : Dev) : σ.Plumbed (σ.answer w) := by
  unfold Dev.answer
  dsimp only
  split
  · exact (Dev.Plumbed.setPipe _ σ).trans (usbControlSendChunk_plumbed _)
  · exact (Dev.Plumbed.setPipe _ σ).trans (.trans (.writePacket0 (fun _ => 0) 0 _) (.setPipe _ _))

theorem usbControlSetupWrite_plumbed (σ : Dev) : σ.Plumbed (usbControlSetupWrite σ) := by
  unfold usbControlSetupWrite
  dsimp only
  split
  · exact .stallTransaction σ
  · exact (Dev.Plumbed.setPipe _ σ).trans (.usbdEpNakSet false _)

theorem pollReset_plumbed (σ : Dev) : σ.Plumbed (pollReset σ) := by
  refine ⟨rfl, rfl, .of_eq rfl, ⟨[0, 0, 0, 0, 0, 0], ?_, by simp⟩⟩
  show σ.usb.touched ++ [0] ++ [0] ++ [0] ++ [0] ++ [0] ++ [0] = _
  simp

/-! ## Which event dispatches -/

/-- The event brings `q` to its dispatch: a SETUP with no OUT data stage to
wait for, or the packet that completes the data stage of the stored request. -/
def Dev.Dispatches (σ : Dev) : Event → UsbSetupData → Prop
  | .setup p, q => q = p ∧ (p.wLength = 0 ∨ p.DirIn)
  | .out pkt, q => q = σ.pipe.usbReq ∧ σ.pipe.usbFsmState = .lastDataOut ∧
      q.wLength.toNat - σ.pipe.datasize.toNat ≤ pkt.bytes.length
  | _, _ => False

theorem Dev.Dispatches.unique {e : Event} {q q' : UsbSetupData} (h : σ.Dispatches e q)
    (h' : σ.Dispatches e q') : q = q' := by
  cases e with
  | setup p => exact h.1.trans h'.1.symm
  | out pkt => exact h.1.trans h'.1.symm
  | _ => exact absurd h not_false

/-- The control buffer as the dispatch finds it. -/
def Dev.stored (σ : Dev) : Event → Mem
  | .out pkt => σ.usbdControlBuffer.write σ.pipe.datasize.toNat
      (pkt.bytes.take (σ.pipe.usbReq.wLength.toNat - σ.pipe.datasize.toNat))
  | _ => σ.usbdControlBuffer

/-- A status stage is due, and a callback is registered for its end. -/
structure Dev.Completes (σ : Dev) (stage : UsbFsmState) : Prop where
  fsm : σ.pipe.usbFsmState = stage
  status : stage = .statusIn ∨ stage = .statusOut
  callback : σ.pipe.usbCompleteCb = some .usbdfuGetstatusComplete

/-- What a poll does beside plumbing. -/
inductive Effect (cfg : Config) (σ : Dev) (e : Event) (τ : Dev) : Prop
  | idle : (∀ q, ¬ σ.Dispatches e q) → σ.Plumbed τ → Effect cfg σ e τ
  /-- One request is dispatched, from a state `ρ`. -/
  | dispatch {ρ : Dev} : σ.Dispatches e ρ.pipe.usbReq → σ.Plumbed ρ →
      ρ.usbdControlBuffer = σ.stored e → (usbControlRequestDispatch cfg ρ).2.Plumbed τ →
      Effect cfg σ e τ
  /-- A status stage ends and the registered callback runs. -/
  | complete {ρ : Dev} {stage : UsbFsmState} : (∀ q, ¬ σ.Dispatches e q) → σ.Completes stage →
      σ.Plumbed ρ → (usbdfuGetstatusComplete cfg (ρ.call (.complete stage))).Plumbed τ →
      Effect cfg σ e τ

theorem Effect.tail {e : Event} (h : Effect cfg σ e τ) (istr : Half) :
    Effect cfg σ e (τ.tail istr) := by
  cases h with
  | idle hno hpl => exact .idle hno (hpl.trans (.tail istr τ))
  | dispatch hq hpl hbuf hpl' => exact .dispatch hq hpl hbuf (hpl'.trans (.tail istr τ))
  | complete hno hcb hpl hpl' => exact .complete hno hcb hpl (hpl'.trans (.tail istr τ))

/-- A handler that may only run the callback, and then keeps to plumbing. -/
theorem Effect.completeTransfer {e : Event} (hno : ∀ q, ¬ σ.Dispatches e q) {ρ : Dev}
    {stage : UsbFsmState} (hfsm : σ.pipe.usbFsmState = stage)
    (hstatus : stage = .statusIn ∨ stage = .statusOut)
    (hcb : ρ.pipe.usbCompleteCb = σ.pipe.usbCompleteCb) (hpl : σ.Plumbed ρ)
    (hpl' : (completeTransfer cfg stage ρ).Plumbed τ) : Effect cfg σ e τ := by
  cases hreg : ρ.pipe.usbCompleteCb with
  | none =>
      have hskip : LnDso.completeTransfer cfg stage ρ = ρ := by
        unfold LnDso.completeTransfer
        rw [hreg]
      rw [hskip] at hpl'
      exact .idle hno (hpl.trans hpl')
  | some cb =>
      cases cb
      rw [completeTransfer_registered hreg] at hpl'
      exact .complete hno ⟨hfsm, hstatus, hcb.symm.trans hreg⟩ hpl hpl'

/-- What follows a dispatch: a stall, or the answer. -/
theorem dispatch_plumbed {ρ : Dev} {f : Dev → Dev} (hf : ∀ υ : Dev, υ.Plumbed (f υ)) :
    (usbControlRequestDispatch cfg ρ).2.Plumbed
      (if (usbControlRequestDispatch cfg ρ).1 = .notsupp
        then stallTransaction (usbControlRequestDispatch cfg ρ).2
        else f (usbControlRequestDispatch cfg ρ).2) := by
  split
  · exact .stallTransaction _
  · exact hf _

/-! ## One poll -/

theorem poll_setup_effect (h : σ.usb.NoReset) (p : UsbSetupData) :
    Effect cfg σ (.setup p) (poll cfg σ (.setup p)) := by
  obtain ⟨u, -, -, hread, hpoll⟩ := poll_setup_exact cfg h p
  have hbegan : σ.Plumbed (σ.began p u) := by
    have hpl := readSetup_plumbed (σ.onBus (.setup p)).touch0
    rw [hread] at hpl
    have hstart := (Dev.Plumbed.onBus (.setup p) σ).trans (.touch0 _)
    exact (hstart.trans hpl).trans ⟨rfl, rfl, .one rfl trivial, .of_eq rfl⟩
  rw [hpoll, Dev.setupStage]
  refine Effect.tail ?_ _
  split
  · next hdir =>
    rw [usbControlSetupRead_eq]
    refine .dispatch (ρ := { σ.began p u with
      pipe := { (σ.began p u).pipe with dataoff := 0 } }) ⟨rfl, hdir⟩ ?_ rfl ?_
    · exact hbegan.trans (.setPipe _ _)
    · exact dispatch_plumbed (answer_plumbed _)
  · next hdir =>
    refine .idle (fun q hq => ?_) (hbegan.trans (usbControlSetupWrite_plumbed _))
    exact hdir hq.2

theorem poll_out_effect (h : σ.Tidy) {t : Transfer} (htracks : σ.Tracks t) (pkt : Packet) :
    Effect cfg σ (.out pkt) (poll cfg σ (.out pkt)) := by
  obtain ⟨hpacket, hep, hpoll⟩ := poll_out_exact cfg h.noReset pkt
  have hstat : ((σ.onBus (.out pkt)).touch0.usb.ep 0).statRx = 2 := congrArg EpFields.statRx hep
  have hbus : σ.Plumbed (σ.onBus (.out pkt)).touch0 :=
    (Dev.Plumbed.onBus (.out pkt) σ).trans (.touch0 _)
  have hrecv := hbus.trans (usbControlRecvChunk_plumbed _)
  have hne : σ.pipe.usbFsmState ≠ .lastDataOut → ∀ q, ¬ σ.Dispatches (.out pkt) q :=
    fun hfsm q hq => hfsm hq.2.1
  rw [hpoll]
  refine Effect.tail ?_ _
  cases hfsm : σ.pipe.usbFsmState with
  | dataOut =>
      have hfsm' : (σ.onBus (.out pkt)).touch0.pipe.usbFsmState = .dataOut := hfsm
      refine .idle (hne (by simp [hfsm])) ?_
      rw [usbdControlOut, hfsm']
      dsimp only
      split
      · exact hrecv
      split
      · exact hrecv.trans (.setPipe _ _)
      · exact hrecv
  | lastDataOut =>
      have hfsm' : (σ.onBus (.out pkt)).touch0.pipe.usbFsmState = .lastDataOut := hfsm
      rcases htracks with hno | hopen
      · exact absurd hfsm hno.last
      have hreq := hopen.receiving.usbReq
      have hsize := hopen.receiving.datasize
      have hlast := hopen.receiving.le_of_last hfsm
      have hmin := Nat.min_eq_right hlast
      by_cases hfull : t.req.wLength.toNat - t.data.length ≤ pkt.bytes.length
      · obtain ⟨v, hv⟩ := hopen.receiving.recv hstat (by rw [hpacket, hmin]; exact hfull)
        have hv' : usbControlRecvChunk (σ.onBus (.out pkt)).touch0 = _ := hv
        rw [usbdControlOut_last hfsm' (by rw [hv']; exact Int.natCast_nonneg _)]
        refine .dispatch (ρ := (usbControlRecvChunk (σ.onBus (.out pkt)).touch0).2) ?_ hrecv ?_ ?_
        · rw [hv']
          refine ⟨rfl, hfsm, ?_⟩
          show σ.pipe.usbReq.wLength.toNat - _ ≤ _
          rw [hreq, hsize]
          exact hfull
        · rw [hv', hpacket, hmin, Dev.stored, hreq, hsize]
        · exact dispatch_plumbed fun υ => (Dev.Plumbed.writePacket0 _ _ υ).trans (.setPipe _ _)
      · have hshort : pkt.bytes.length < min 64 (t.req.wLength.toNat - t.data.length) := by
          rw [hmin]
          exact Nat.not_le.mp hfull
        rw [← hreq] at hshort hfull
        have hle : t.data.length ≤ σ.pipe.usbReq.wLength.toNat := by
          rw [hreq]
          exact Nat.le_of_lt hopen.receiving.lt
        obtain ⟨v, hv⟩ := usbControlRecvChunk_short (σ := (σ.onBus (.out pkt)).touch0) hsize
          hle hstat (by rw [hpacket]; exact hshort)
        refine .idle (fun q hq => hfull ?_) ?_
        · obtain ⟨rfl, -, hle⟩ := hq
          rw [hsize] at hle
          exact hle
        · rw [usbdControlOut, hfsm']
          dsimp only
          rw [if_pos (by rw [hv]; exact Int.negSucc_lt_zero 0)]
          exact hrecv
  | statusOut =>
      have hfsm' : (σ.onBus (.out pkt)).touch0.pipe.usbFsmState = .statusOut := hfsm
      rw [usbdControlOut, hfsm']
      let ρ : Dev := (σ.onBus (.out pkt)).touch0
      refine .completeTransfer (hne (by simp [hfsm])) (ρ := Dev.setFsm .idle { ρ with
        usb := (usbdEpReadPacket ρ.pipe.usbForceNak 0 (fun _ => 0) 0 0 ρ.usb).2.2 }) hfsm
        (.inr rfl) rfl ?_ (.setPipe _ _)
      exact hbus.trans ⟨rfl, rfl, .of_eq rfl, usbdEpReadPacket_touches _ _ _ _ _⟩
  | _ =>
      refine .idle (hne (by simp [hfsm])) ?_
      rw [usbdControlOut_refused]
      · exact hbus.trans (.stallTransaction _)
      · simp [Dev.TakesOut, Dev.onBus, Dev.touch0, hfsm]

/-- An IN completion runs the callback in the status stage, else keeps to plumbing. -/
theorem usbdControlIn_effect {e : Event} (hno : ∀ q, ¬ σ.Dispatches e q) {ρ : Dev}
    (hpipe : ρ.pipe = σ.pipe) (hpl : σ.Plumbed ρ) : Effect cfg σ e (usbdControlIn cfg ρ) := by
  unfold usbdControlIn
  split
  · exact .idle hno (hpl.trans (usbControlSendChunk_plumbed ρ))
  · exact .idle hno (hpl.trans (.trans (.setPipe _ ρ) (.usbdEpNakSet false _)))
  · next hfsm =>
    rw [hpipe] at hfsm
    refine .completeTransfer hno hfsm (.inl rfl) (congrArg Pipe.usbCompleteCb hpipe) hpl ?_
    dsimp only
    split
    · exact .of_eq rfl rfl rfl rfl
    · exact .setPipe _ _
  · exact .idle hno (hpl.trans (.stallTransaction ρ))

/-- A poll dispatches a request, runs the callback, or does neither. -/
theorem poll_effect (cfg : Config) (h : σ.Tidy) {t : Transfer} (htracks : σ.Tracks t) (e : Event) :
    Effect cfg σ e (poll cfg σ e) := by
  have hbus := Dev.Plumbed.onBus e σ
  have hrest : e = .inDone ∨ e.IsFlags → Effect cfg σ e (poll cfg σ e) := by
    intro he
    have hno : ∀ q, ¬ σ.Dispatches e q := by
      intro q hq
      rcases he with rfl | hflags
      · exact hq
      · cases e with
        | flags f => exact hq
        | _ => exact hflags
    cases hrx : (σ.usb.ep 0).ctrRx with
    | true =>
        rw [poll_refused h he hrx]
        exact (Effect.idle hno (hbus.trans (.trans (.touch0 _) (.stallTransaction _)))).tail _
    | false =>
        by_cases hdone : e = .inDone ∨ e.IsFlags ∧ (σ.usb.ep 0).ctrTx = true
        · rw [poll_done h hdone hrx]
          have hack : (σ.onBus e).Plumbed
              { σ.onBus e with usb := usbClrEpTxCtr 0 (σ.onBus e).usb } :=
            ⟨rfl, rfl, .of_eq rfl, .one rfl rfl⟩
          refine Effect.tail ?_ _
          exact usbdControlIn_effect hno rfl (hbus.trans hack)
        · have hflags : e.IsFlags := he.resolve_left fun hin => hdone (.inl hin)
          have htx : (σ.usb.ep 0).ctrTx = false :=
            Bool.eq_false_iff.mpr fun htx => hdone (.inr ⟨hflags, htx⟩)
          rw [poll_quiet h hflags hrx htx]
          exact (Effect.idle hno hbus).tail _
  cases e with
  | reset =>
      rw [poll_reset h.noReset]
      exact .idle (fun _ => not_false) (hbus.trans (pollReset_plumbed _))
  | setup p => exact poll_setup_effect h.noReset p
  | out pkt => exact poll_out_effect h htracks pkt
  | inDone => exact hrest (.inl rfl)
  | flags f => exact hrest (.inr trivial)

/-! ## What a poll has done -/

/-- A dispatched request is recorded. -/
theorem Effect.dispatched {e : Event} (h : Effect cfg σ e τ) {q : UsbSetupData}
    (hq : σ.Dispatches e q) : ∃ l buf, τ.calls = σ.calls ++ l ∧ .dispatch q buf ∈ l := by
  cases h with
  | idle hno => exact absurd hq (hno q)
  | complete hno => exact absurd hq (hno q)
  | @dispatch ρ hq' hpl _ hpl' =>
      obtain rfl : q = ρ.pipe.usbReq := hq.unique hq'
      obtain ⟨l, hl, -⟩ := hpl.calls
      obtain ⟨l', hl', -⟩ := (usbControlRequestDispatch_handles cfg ρ).calls
      obtain ⟨l'', hl'', -⟩ := hpl'.calls
      refine ⟨l ++ .dispatch ρ.pipe.usbReq ρ.usbdControlBuffer :: (l' ++ l''),
        ρ.usbdControlBuffer, ?_, by simp⟩
      rw [hl'', hl', Dev.call_calls, hl]
      simp

/-- No poll takes a call back. -/
theorem Effect.records {e : Event} (h : Effect cfg σ e τ) : σ.Records (fun _ => True) τ := by
  have hany : ∀ {P : Call → Prop} {υ ω : Dev}, υ.Records P ω → υ.Records (fun _ => True) ω :=
    fun h => h.mono fun _ _ => trivial
  cases h with
  | idle _ hpl => exact hany hpl.calls
  | @dispatch ρ _ hpl _ hpl' =>
      have hcall : ρ.Records (fun _ => True) (ρ.call (.dispatch ρ.pipe.usbReq ρ.usbdControlBuffer)) :=
        .one rfl trivial
      have hhandler := hcall.trans (hany (usbControlRequestDispatch_handles cfg ρ).calls)
      exact (hany hpl.calls).trans (hhandler.trans (hany hpl'.calls))
  | @complete ρ stage _ _ hpl hpl' =>
      have hcall : ρ.Records (fun _ => True) (ρ.call (.complete stage)) := .one rfl trivial
      have hcalls := usbdfuGetstatusComplete_calls cfg (ρ.call (.complete stage))
      have hrun : (ρ.call (.complete stage)).Records (fun _ => True)
          (usbdfuGetstatusComplete cfg (ρ.call (.complete stage))) := by
        split at hcalls
        · exact .one hcalls trivial
        · exact .of_eq hcalls
      exact (hany hpl.calls).trans ((hcall.trans hrun).trans (hany hpl'.calls))

/-- A call between two states meets what all of them meet. -/
theorem Dev.Records.mem {P : Call → Prop} (h : σ.Records P τ) {l : List Call}
    (hcalls : τ.calls = σ.calls ++ l) {c : Call} (hc : c ∈ l) : P c := by
  obtain ⟨m, hm, hP⟩ := h
  obtain rfl : m = l := List.append_cancel_left (hm.symm.trans hcalls)
  exact hP c hc

/-- What held up to a later state held from a state in between. -/
theorem Dev.Records.after {P Q : Call → Prop} (h : σ.Records P υ) (hστ : σ.Records Q τ)
    (hτυ : τ.Records Q υ) : τ.Records P υ := by
  obtain ⟨l, hl, -⟩ := hστ
  obtain ⟨l', hl', -⟩ := hτυ
  refine ⟨l', hl', fun c hc => h.mem (l := l ++ l') ?_ (List.mem_append_right l hc)⟩
  rw [hl', hl, List.append_assoc]

/-- And up to a state in between. -/
theorem Dev.Records.before {P Q : Call → Prop} (h : σ.Records P υ) (hστ : σ.Records Q τ)
    (hτυ : τ.Records Q υ) : σ.Records P τ := by
  obtain ⟨l, hl, -⟩ := hστ
  obtain ⟨l', hl', -⟩ := hτυ
  refine ⟨l, hl, fun c hc => h.mem (l := l ++ l') ?_ (List.mem_append_left l' hc)⟩
  rw [hl', hl, List.append_assoc]

theorem run_records (cfg : Config) (h : σ.Tidy) {t : Transfer} (htracks : σ.Tracks t) (es : List Event) :
    σ.Records (fun _ => True) ((machine cfg).run σ es) := by
  induction es generalizing σ t with
  | nil => exact .of_eq rfl
  | cons e es ih =>
      exact (poll_effect cfg h htracks e).records.trans
        (ih (poll_tidy _ h e) (poll_tracks _ h htracks e))

/-- A packet of 64 bytes. -/
def Packet.full : Packet := .ofBytes (List.replicate 64 0)

/-- An open data stage can be brought to its dispatch. -/
theorem Dev.Receiving.reaches_dispatch (cfg : Config) {p : UsbSetupData} {n : Nat}
    (h : σ.Receiving p n) : ∃ k, ((machine cfg).run σ
      ((List.replicate k Packet.full).map .out)).Dispatches (.out .full) p := by
  have hfull : Packet.full.bytes.length = 64 := rfl
  generalize hd : p.wLength.toNat - n = d
  induction d using Nat.strongRecOn generalizing σ n with
  | ind d ih =>
      by_cases hmore : 64 < p.wLength.toNat - n
      · obtain ⟨hrecv, -⟩ := h.out_more cfg hmore (Nat.le_of_eq hfull.symm)
        obtain ⟨k, hk⟩ := ih (p.wLength.toNat - (n + 64)) (by omega) hrecv rfl
        exact ⟨k + 1, hk⟩
      · refine ⟨0, h.usbReq.symm, ?_, ?_⟩
        · exact h.fsm.trans (if_neg hmore)
        · show _ - σ.pipe.datasize.toNat ≤ _
          rw [h.datasize, hfull]
          exact Nat.not_lt.mp hmore

end LnDso
