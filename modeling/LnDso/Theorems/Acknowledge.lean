import LnDso.Logic.Steps

/-!
# Acknowledging transactions

A transaction stays reported until software clears its CTR flag. The IN handler
clears CTR_TX first thing; CTR_RX is cleared where the packet is read, which an
OUT packet outside a data or status stage never is.
-/

namespace LnDso

open Lib UsbPeriph

variable {cfg : Config} {σ : Dev}

/-- The direction of a transaction. -/
inductive Direction
  | rx
  | tx
deriving DecidableEq

/-- ISTR reports a transaction of endpoint 0 in direction `d`; for a reception
the hardware has set STAT_RX to NAK. -/
def Dev.Reports (σ : Dev) (d : Direction) : Prop :=
  let istr := σ.usb.getReg usbIstrReg
  istr &&& usbIstrReset = 0 ∧ istr &&& usbIstrCtr ≠ 0 ∧ istr &&& usbIstrEpId = 0 ∧
    (istr &&& usbIstrDir ≠ 0 ↔ d = .rx) ∧ (d = .rx → (σ.usb.ep 0).statRx = 2)

instance (σ : Dev) (d : Direction) : Decidable (σ.Reports d) :=
  inferInstanceAs (Decidable (_ ∧ _))

/-- The poll clears the flag of the transaction and leaves the other flag as it was. -/
def Dev.Acknowledges (cfg : Config) (σ : Dev) : Direction → Prop
  | .rx => ((doUsbPoll cfg σ).usb.ep 0).ctrRx = false ∧
      ((doUsbPoll cfg σ).usb.ep 0).ctrTx = (σ.usb.ep 0).ctrTx
  | .tx => ((doUsbPoll cfg σ).usb.ep 0).ctrTx = false ∧
      ((doUsbPoll cfg σ).usb.ep 0).ctrRx = (σ.usb.ep 0).ctrRx

/-- A reception to report is a SETUP, or falls in a stage that reads it. -/
def Dev.Solicited (σ : Dev) : Prop :=
  σ.Reports .rx → (σ.usb.ep 0).setup = true ∨ σ.TakesOut

/-! ## What ISTR reports -/

theorem ctrBits_zero {u : UsbPeriph} (hctr : u.ctrBits &&& usbIstrCtr ≠ 0)
    (hep : u.ctrBits &&& usbIstrEpId = 0) :
    u.ctrPending 0 = true ∧ (u.ctrBits &&& usbIstrDir ≠ 0 ↔ (u.ep 0).ctrRx = true) := by
  cases hfind : (List.range 8).find? u.ctrPending with
  | none =>
      rw [ctrBits, hfind] at hctr
      exact absurd BitVec.zero_and hctr
  | some n =>
      have hpending := List.find?_some hfind
      have hn : n < 8 := List.mem_range.mp (List.mem_of_find?_eq_some hfind)
      have hbits : u.ctrBits = usbIstrCtr ||| (if (u.ep n).ctrRx then usbIstrDir else 0) |||
          BitVec.ofNat 16 n := by rw [ctrBits, hfind]
      rw [hbits] at hep ⊢
      obtain rfl : n = 0 := by
        revert hep
        cases (u.ep n).ctrRx <;> interval_cases n <;> decide
      refine ⟨hpending, ?_⟩
      cases (u.ep 0).ctrRx <;> decide

theorem Dev.Reports.noReset {d : Direction} (h : σ.Reports d) : σ.usb.NoReset :=
  (getReg_and_reset σ.usb).symm.trans h.1

theorem Dev.Reports.ctr {d : Direction} (h : σ.Reports d) :
    σ.usb.ctrPending 0 = true ∧ ((σ.usb.ep 0).ctrRx = true ↔ d = .rx) := by
  obtain ⟨hreset, hctr, hep, hdir, -⟩ := h
  obtain ⟨-, hmask⟩ := getReg_istr ((getReg_and_reset σ.usb).symm.trans hreset) rfl
  rw [hmask _ (by decide)] at hctr hep hdir
  obtain ⟨hpending, hrx⟩ := ctrBits_zero hctr hep
  exact ⟨hpending, hrx.symm.trans hdir⟩

theorem Dev.Reports.rx (h : σ.Reports .rx) : (σ.usb.ep 0).ctrRx = true := h.ctr.2.mpr rfl

theorem Dev.Reports.tx (h : σ.Reports .tx) :
    (σ.usb.ep 0).ctrRx = false ∧ (σ.usb.ep 0).ctrTx = true := by
  obtain ⟨hpending, hrx⟩ := h.ctr
  have hnone : (σ.usb.ep 0).ctrRx = false := Bool.eq_false_iff.mpr fun hrx' =>
    absurd (hrx.mp hrx') (by simp)
  refine ⟨hnone, ?_⟩
  rw [ctrPending, hnone, Bool.false_or] at hpending
  exact hpending

/-- With neither flag set nothing of endpoint 0 is reported. -/
theorem Dev.not_reports (hrx : (σ.usb.ep 0).ctrRx = false) (htx : (σ.usb.ep 0).ctrTx = false)
    (d : Direction) : ¬ σ.Reports d := by
  intro h
  have hpending := h.ctr.1
  rw [ctrPending, hrx, htx] at hpending
  exact absurd hpending (by simp)

/-- A reception that the bus has delivered is reported. -/
theorem Dev.reports_rx (hreset : σ.usb.NoReset) (hrx : (σ.usb.ep 0).ctrRx = true)
    (hstat : (σ.usb.ep 0).statRx = 2) : σ.Reports .rx := by
  obtain ⟨hnone, hmask⟩ := getReg_istr hreset (ctrBits_of_ctrRx hrx)
  refine ⟨hnone, ?_, ?_, ?_, fun _ => hstat⟩
  · rw [hmask _ (by decide)]
    decide
  · rw [hmask _ (by decide)]
    decide
  · rw [hmask _ (by decide)]
    decide

/-! ## One poll -/

/-- Reading a SETUP packet acknowledges it. -/
theorem readSetup_ctrRx (σ : Dev) : ((readSetup σ).2.usb.ep 0).ctrRx = false := by
  let v := usbSetEpRxStat 0 usbEpRxStatNak σ.usb
  have hvep : v.ep 0 = { σ.usb.ep 0 with statRx := 2 } :=
    usbSetEpRxStat_ep (by decide) (by decide) _
  have hnak : (v.ep 0).statRx ≠ 3 := by
    rw [show (v.ep 0).statRx = 2 from congrArg EpFields.statRx hvep]
    decide
  exact usbdEpReadPacket_ctrRx hnak (Function.update σ.pipe.usbForceNak 0 true)
    σ.pipe.usbReq.toMem 0 8

theorem usbdControlSetup_ctrRx (cfg : Config) (σ : Dev) :
    ((usbdControlSetup cfg σ).usb.ep 0).ctrRx = false := by
  have hread := readSetup_ctrRx σ
  unfold usbdControlSetup
  dsimp only
  split
  · exact (stallTransaction_acts cfg _).sw.ctrRx hread
  split
  · exact (usbControlSetupRead_acts _).sw.ctrRx hread
  · exact (usbControlSetupWrite_acts cfg _).sw.ctrRx hread

/-- A reception is acknowledged exactly where its packet is read. -/
theorem acknowledges_rx_iff (cfg : Config) (h : σ.Reports .rx) :
    σ.Acknowledges cfg .rx ↔ (σ.usb.ep 0).setup = true ∨ σ.TakesOut := by
  have hnak : (σ.touch0.usb.ep 0).statRx ≠ 3 := by
    rw [show (σ.touch0.usb.ep 0).statRx = 2 from h.2.2.2.2 rfl]
    decide
  unfold Dev.Acknowledges
  rw [doUsbPoll_rx h.noReset h.rx, Dev.tail_ep]
  by_cases hsetup : (σ.usb.ep 0).setup = true
  · rw [if_pos hsetup]
    refine iff_of_true ⟨usbdControlSetup_ctrRx cfg σ.touch0, ?_⟩ (.inl hsetup)
    exact (usbdControlSetup_acts σ.touch0).sw.ctrTx
  rw [if_neg hsetup]
  by_cases htakes : σ.TakesOut
  · refine iff_of_true ⟨usbdControlOut_ctrRx cfg hnak htakes, ?_⟩ (.inr htakes)
    exact (usbdControlOut_acts _ σ.touch0).sw.ctrTx
  · -- the stall changes STAT_TX and STAT_RX only
    refine iff_of_false ?_ (by simp [hsetup, htakes])
    rintro ⟨hrx, -⟩
    rw [usbdControlOut_refused (σ := σ.touch0) cfg htakes] at hrx
    have hstay : ((stallTransaction σ.touch0).usb.ep 0).ctrRx = (σ.usb.ep 0).ctrRx :=
      (congrArg EpFields.ctrRx (epStallSet_zero σ.touch0.usb).2 :)
    exact Bool.false_ne_true (hrx.symm.trans (hstay.trans h.rx))

/-- An IN completion is always acknowledged. -/
theorem acknowledges_tx (h : σ.Reports .tx) : σ.Acknowledges cfg .tx := by
  obtain ⟨hrx, htx⟩ := h.tx
  have hack := usbClrEpTxCtr_ep (n := 0) (by decide) σ.usb
  have hsw := (usbdControlIn_acts cfg { σ with usb := usbClrEpTxCtr 0 σ.usb }).sw
  have hsame : ((usbClrEpTxCtr 0 σ.usb).ep 0).ctrRx = false := by
    rw [hack]
    exact hrx
  unfold Dev.Acknowledges
  rw [doUsbPoll_tx h.noReset hrx htx, Dev.tail_ep, hrx]
  exact ⟨hsw.ctrTx.trans (congrArg EpFields.ctrTx hack), hsw.ctrRx hsame⟩

/-! ## Runs -/

/-- Neither direction of endpoint 0 has a transaction to report. -/
structure Dev.Settled (σ : Dev) : Prop where
  tidy : σ.Tidy
  ctrRx : (σ.usb.ep 0).ctrRx = false
  ctrTx : (σ.usb.ep 0).ctrTx = false

theorem poll_settled (h : σ.Settled) {e : Event} (he : (σ.onBus e).Solicited) :
    (poll cfg σ e).Settled := by
  suffices hflags : ((poll cfg σ e).usb.ep 0).ctrRx = false ∧
      ((poll cfg σ e).usb.ep 0).ctrTx = false from
    ⟨poll_tidy _ h.tidy e, hflags.1, hflags.2⟩
  have hpoll := poll_polled cfg h.tidy e
  generalize hτ : poll cfg σ e = τ at hpoll
  cases hpoll with
  | reset =>
      have hsw : Sw (hwReset σ.usb) (pollReset (σ.onBus .reset)).usb :=
        (pollReset_same (σ.onBus .reset)).usb
      obtain ⟨hrx, htx⟩ := hwReset_ep_ctr σ.usb
      exact ⟨hsw.ctrRx (hrx.trans h.ctrRx), hsw.ctrTx.trans (htx.trans h.ctrTx)⟩
  | @setup p u istr hclear htx =>
      have hsw := setupStage_sw cfg p (σ.began p u)
      rw [Dev.tail_ep]
      exact ⟨hsw.ctrRx hclear.ctrRx, hsw.ctrTx.trans (htx.trans h.ctrTx)⟩
  | @out pkt u istr hpacket hstat hsetup htx =>
      have hep := hwOut_ep pkt.bytes σ.usb
      have hsame : ((σ.onBus (.out pkt)).usb.ep 0).ctrTx = (σ.usb.ep 0).ctrTx :=
        (congrArg EpFields.ctrTx hep :)
      have hnoReset : (σ.onBus (.out pkt)).usb.NoReset := hwOut_noReset _ h.tidy.noReset
      have hreports := Dev.reports_rx hnoReset (congrArg EpFields.ctrRx hep :)
        (congrArg EpFields.statRx hep :)
      have hack := (acknowledges_rx_iff cfg hreports).mpr (he hreports)
      rw [← hτ]
      exact ⟨hack.1, hack.2.trans (hsame.trans h.ctrTx)⟩
  | stale _ hrx => exact absurd (h.ctrRx.symm.trans hrx) Bool.false_ne_true
  | @inDone _ u istr _ _ hrx htx =>
      have hsw := (usbdControlIn_acts cfg { σ with usb := u }).sw
      rw [Dev.tail_ep]
      exact ⟨hsw.ctrRx hrx, hsw.ctrTx.trans htx⟩
  | @quiet _ u istr _ hrx htx hep =>
      rw [Dev.tail_ep]
      show (u.ep 0).ctrRx = false ∧ (u.ep 0).ctrTx = false
      rw [hep]
      exact ⟨hrx, htx⟩

theorem Dev.Boot.settled (h : σ.Boot) : σ.Settled := by
  have hreg : σ.usb.ep 0 = EpFields.ofReg 0 := congrArg EpFields.ofReg (h.ep 0 (by decide))
  refine ⟨tidy_invariant .stm32f103 σ (.init h), ?_, ?_⟩
  · rw [hreg]
    rfl
  · rw [hreg]
    rfl

/-- **Acknowledged exactly once.** A poll acknowledges the transaction it
handles, and leaves the other flag, exactly when the transaction is not an OUT
packet outside a data or status stage. In a run without such a packet nothing
is left to report after any poll, so no transaction is handled twice. -/
theorem acknowledged_once (cfg : Config) :
    (∀ σ : Dev, (∀ d, σ.Reports d → σ.Acknowledges cfg d) ↔ σ.Solicited) ∧
      ∀ (σ : Dev) (es : List Event), σ.Boot →
        (machine cfg).Admits (fun τ e => (τ.onBus e).Solicited) σ es →
          ∀ d, ¬ ((machine cfg).run σ es).Reports d := by
  refine ⟨fun σ => ⟨fun h hrx => (acknowledges_rx_iff _ hrx).mp (h .rx hrx), ?_⟩, ?_⟩
  · intro h d hd
    cases d with
    | rx => exact (acknowledges_rx_iff _ hd).mpr (h hd)
    | tx => exact acknowledges_tx hd
  · intro σ es hboot hadmits
    have hend := TSys.Admits.preserves (machine cfg) (P := Dev.Settled)
      (fun τ e hsolicited hτ => poll_settled hτ hsolicited) hboot.settled hadmits
    exact Dev.not_reports hend.ctrRx hend.ctrTx

/-- GETSTATUS on a fresh device, up to its reply. -/
theorem acknowledged_once_getstatus :
    let τ := (machine .stm32f103).run (Dev.fresh fun _ => 0xff)
      [.reset, .setup ⟨0xA1, 3, 0, 0, 6⟩, .inDone]
    ¬ τ.Reports .rx ∧ ¬ τ.Reports .tx := by
  have hnone := (acknowledged_once .stm32f103).2 (Dev.fresh fun _ => 0xff)
    [.reset, .setup ⟨0xA1, 3, 0, 0, 6⟩, .inDone] (Dev.fresh_boot fun _ => 0xff)
    ⟨fun h => absurd h (by decide +kernel), fun _ => .inl (by decide +kernel),
      fun h => absurd h (by decide +kernel), trivial⟩
  exact ⟨hnone .rx, hnone .tx⟩

/-- An OUT packet right after the bus reset is refused and still reported. -/
theorem unsolicited_out_kept :
    ¬ ∀ σ, (machine .stm32f103).Reachable σ → ∀ e d, (σ.onBus e).Reports d →
      (σ.onBus e).Acknowledges .stm32f103 d := by
  intro h
  have hreach := TSys.Reachable.init (M := machine .stm32f103) (Dev.fresh_boot fun _ => 0xff)
  have hack := h _ (hreach.step .reset) (.out (.ofBytes [])) .rx (by decide +kernel)
  exact absurd hack.1 (by decide +kernel)

end LnDso
