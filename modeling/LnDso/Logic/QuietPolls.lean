import LnDso.Logic.Steps

/-!
# Polls without a packet

`runDfu` polls all the time, mostly with nothing to report. In every reachable
state in which endpoint 0 reports no transaction such a poll changes nothing at
all: the flags that `do_usb_poll` acknowledges are clear between polls, and so is
the mask bit that it clears. So a run with such polls put in anywhere is the run
without them.
-/

namespace LnDso

open Lib UsbPeriph

variable {cfg : Config} {σ : Dev} {u v : UsbPeriph}

/-- The bits of ISTR that the end of a poll acknowledges: SOF, SUSP, WKUP. -/
def tailBits : List Nat := [9, 11, 12]

theorem mem_tailBits {b : Nat} : b ∈ tailBits ↔ b = 9 ∨ b = 11 ∨ b = 12 := by
  simp [tailBits]

theorem usbIstrSof_bit : usbIstrSof = BitVec.twoPow 16 9 := rfl

theorem usbIstrSusp_bit : usbIstrSusp = BitVec.twoPow 16 11 := rfl

theorem usbIstrWkup_bit : usbIstrWkup = BitVec.twoPow 16 12 := rfl

namespace UsbPeriph

/-- Nothing for the end of a poll to do. -/
structure Unflagged (u : UsbPeriph) : Prop where
  istr : ∀ b ∈ tailBits, (u.reg usbIstrReg).getLsbD b = false
  sofm : u.reg usbCntrReg &&& usbCntrSofm = 0

/-- Reading ISTR shows the latched flags as they are. -/
theorem getReg_latched (u : UsbPeriph) {b : Nat} (hb : b ∈ tailBits) :
    (u.getReg usbIstrReg).getLsbD b = (u.reg usbIstrReg).getLsbD b := by
  have hctr : u.ctrBits.getLsbD b = false := by
    unfold ctrBits
    split
    · simp
    · next n hn =>
      have hn8 : n < 8 := List.mem_range.mp (List.mem_of_find?_eq_some hn)
      rcases mem_tailBits.mp hb with rfl | rfl | rfl <;> split <;> interval_cases n <;> rfl
  have hflags : (0x7F00 : Half).getLsbD b = true := by
    rcases mem_tailBits.mp hb with rfl | rfl | rfl <;> rfl
  rw [getReg, if_pos rfl, BitVec.getLsbD_or, BitVec.getLsbD_and, hctr, hflags, Bool.and_true,
    Bool.or_false]

/-- No register write raises a flag of ISTR. -/
theorem setReg_latched (i : Nat) (x : Half) {b : Nat} (h : (u.reg usbIstrReg).getLsbD b = false) :
    ((u.setReg i x).reg usbIstrReg).getLsbD b = false := by
  rw [setReg_reg]
  split
  · next hi =>
    subst hi
    rw [regWrite, if_neg (by decide), if_pos rfl, BitVec.getLsbD_and, h, Bool.false_and]
  · exact h

theorem Sw.latched (h : Sw u v) {b : Nat} (hu : (u.reg usbIstrReg).getLsbD b = false) :
    (v.reg usbIstrReg).getLsbD b = false :=
  h.preserves (P := fun reg => (reg usbIstrReg).getLsbD b = false)
    (fun _ i x _ hw => setReg_latched i x hw) hu

end UsbPeriph

/-! ## The end of a poll -/

/-- A flag is clear once it is acknowledged, and no other one changes. -/
theorem ackIstr_bit (istr : Half) {n : Nat} (hn : n < 16) (u : UsbPeriph) {b : Nat} :
    ((ackIstr istr (BitVec.twoPow 16 n) u).reg usbIstrReg).getLsbD b =
      ((u.reg usbIstrReg).getLsbD b && !(decide (b = n) && istr.getLsbD n)) := by
  have hshown : istr &&& BitVec.twoPow 16 n ≠ 0 ↔ istr.getLsbD n = true := by
    rw [BitVec.and_twoPow]
    cases istr.getLsbD n with
    | false => simp
    | true =>
        refine iff_of_true (fun h => ?_) rfl
        have hbit := congrArg (BitVec.getLsbD · n) h
        simp [hn] at hbit
  by_cases hb : b < 16
  · rw [ackIstr]
    split
    · next hset =>
      rw [clrIstr, setReg_reg, if_pos rfl, regWrite, if_neg (by decide), if_pos rfl,
        BitVec.getLsbD_and, BitVec.getLsbD_not, BitVec.getLsbD_twoPow, hshown.mp hset]
      simp [hb, hn, eq_comm]
    · next hset =>
      rw [Bool.eq_false_iff.mpr (mt hshown.mpr hset), Bool.and_false, Bool.not_false, Bool.and_true]
  · rw [BitVec.getLsbD_of_ge _ _ (Nat.not_lt.mp hb), BitVec.getLsbD_of_ge _ _ (Nat.not_lt.mp hb)]
    rfl

/-- The end of a poll acknowledges what `istr` shows. -/
theorem pollTail_unflagged {istr : Half}
    (hshown : ∀ b ∈ tailBits, istr.getLsbD b = false → (u.reg usbIstrReg).getLsbD b = false) :
    (pollTail istr u).Unflagged := by
  have hne : usbIstrReg ≠ usbCntrReg := by decide
  constructor
  · intro b hb
    have hlatched := hshown b hb
    rw [pollTail, setReg_reg, if_neg hne]
    rw [usbIstrSusp_bit, usbIstrWkup_bit, usbIstrSof_bit, ackIstr_bit istr (by decide),
      ackIstr_bit istr (by decide), ackIstr_bit istr (by decide)]
    cases hbit : istr.getLsbD b with
    | false =>
        rw [hlatched hbit]
        simp
    | true => rcases mem_tailBits.mp hb with rfl | rfl | rfl <;> simp [hbit]
  · rw [pollTail, setReg_reg, if_pos rfl, regWrite, if_neg (by decide), if_neg (by decide),
      if_neg (by decide), BitVec.and_assoc, show ~~~usbCntrSofm &&& usbCntrSofm = 0#16 from by decide]
    exact BitVec.and_zero

/-- With nothing to acknowledge the end of a poll changes nothing. -/
theorem pollTail_self (h : u.Unflagged) : pollTail (u.getReg usbIstrReg) u = u := by
  have hnone : ∀ n ∈ tailBits, ackIstr (u.getReg usbIstrReg) (BitVec.twoPow 16 n) u = u := by
    intro n hn
    have hclear : u.getReg usbIstrReg &&& BitVec.twoPow 16 n = 0 := by
      rw [BitVec.and_twoPow, getReg_latched u hn, h.istr n hn]
      rfl
    rw [ackIstr, if_neg (not_not.mpr hclear)]
  have hmask : u.reg usbCntrReg &&& ~~~usbCntrSofm = u.reg usbCntrReg := by
    have hall : usbCntrSofm ||| ~~~usbCntrSofm = BitVec.allOnes 16 := by decide
    calc u.reg usbCntrReg &&& ~~~usbCntrSofm
        = (u.reg usbCntrReg &&& usbCntrSofm) ||| (u.reg usbCntrReg &&& ~~~usbCntrSofm) := by
          rw [h.sofm]
          exact BitVec.zero_or.symm
      _ = u.reg usbCntrReg := by rw [← BitVec.and_or_distrib_left, hall, BitVec.and_allOnes]
  unfold pollTail
  dsimp only
  rw [usbIstrSusp_bit, usbIstrWkup_bit, usbIstrSof_bit, hnone 11 (by decide),
    hnone 12 (by decide), hnone 9 (by decide)]
  have hcntr : usbCntrReg ≠ usbIstrReg := by decide
  have hwrite : regWrite usbCntrReg (u.reg usbCntrReg) (u.reg usbCntrReg) = u.reg usbCntrReg := rfl
  rw [getReg_of_ne hcntr, hmask, setReg, hwrite, Function.update_eq_self]

/-! ## Between polls -/

/-- An event raises flags of ISTR only as the next read of ISTR shows them. -/
theorem doUsbPoll_unflagged (cfg : Config)
    (hsofm : σ.usb.reg usbCntrReg &&& usbCntrSofm = 0)
    (hlatched : σ.usb.getReg usbIstrReg &&& usbIstrReset ≠ 0 →
      ∀ b ∈ tailBits, (σ.usb.reg usbIstrReg).getLsbD b = false) :
    (doUsbPoll cfg σ).usb.Unflagged := by
  unfold doUsbPoll
  dsimp only
  split
  · next hreset =>
    -- the reset branch returns before the flags are acknowledged
    refine ⟨fun b hb => (pollReset_same σ).usb.latched (hlatched hreset b hb), ?_⟩
    rw [show (pollReset σ).usb.reg usbCntrReg = σ.usb.reg usbCntrReg from rfl]
    exact hsofm
  · refine pollTail_unflagged fun b hb hclear => ?_
    rw [getReg_latched σ.usb hb] at hclear
    split
    · obtain ⟨u, hu, hacts⟩ := pollCtr_acts cfg (σ.usb.getReg usbIstrReg) σ
      refine hacts.sw.latched ?_
      rcases hu with rfl | ⟨n, rfl⟩
      · exact hclear
      · exact setReg_latched n _ hclear
    · exact hclear

/-- An event on the bus latches nothing but RESET, or what the poll acknowledges. -/
theorem poll_unflagged (cfg : Config) (hreset : σ.usb.NoReset) (h : σ.usb.Unflagged) (e : Event) :
    (poll cfg σ e).usb.Unflagged := by
  have hne : usbCntrReg ≠ usbIstrReg := by decide
  -- a packet changes the register of its endpoint alone
  have hpacket : ∀ τ : Dev, (∀ i ≠ 0, τ.usb.reg i = σ.usb.reg i) → (doUsbPoll cfg τ).usb.Unflagged := by
    intro τ hτ
    refine doUsbPoll_unflagged cfg ?_ fun _ b hb => ?_
    · rw [hτ usbCntrReg (by decide)]
      exact h.sofm
    · rw [hτ usbIstrReg (by decide)]
      exact h.istr b hb
  cases e with
  | reset =>
      refine doUsbPoll_unflagged cfg h.sofm fun _ b hb => ?_
      show (σ.usb.reg usbIstrReg ||| usbIstrReset).getLsbD b = false
      rw [BitVec.getLsbD_or, h.istr b hb, Bool.false_or]
      rcases mem_tailBits.mp hb with rfl | rfl | rfl <;> rfl
  | setup p => exact hpacket _ fun i hi => hwSetup_reg_ne hi _ _
  | out pkt => exact hpacket _ fun i hi => hwOut_reg_ne hi _ _
  | inDone => exact hpacket _ fun i hi => hwIn_reg_ne hi _
  | flags f =>
      refine doUsbPoll_unflagged cfg ?_ fun hlatch => ?_
      · have hcntr : (hwFlags f σ.usb).reg usbCntrReg = σ.usb.reg usbCntrReg :=
          Function.update_of_ne hne (σ.usb.reg usbIstrReg ||| (f &&& 0x7B00)) σ.usb.reg
        show (hwFlags f σ.usb).reg usbCntrReg &&& usbCntrSofm = 0
        rw [hcntr]
        exact h.sofm
      · rw [getReg_and_reset] at hlatch
        exact absurd (hwFlags_noReset f hreset) hlatch

theorem unflagged_invariant (cfg : Config) : (machine cfg).Invariant fun σ => σ.usb.Unflagged := by
  have hinv : (machine cfg).Invariant fun σ => σ.usb.NoReset ∧ σ.usb.Unflagged :=
    TSys.Inductive.invariant
      { init := fun σ hboot => ⟨(tidy_invariant cfg σ (.init hboot)).noReset,
          fun b _ => by rw [hboot.istr]; simp, by rw [hboot.cntr]; decide⟩
        step := fun σ e hσ => ⟨poll_noReset cfg σ e, poll_unflagged cfg hσ.1 hσ.2 e⟩ }
  exact fun σ hσ => (hinv σ hσ).2

/-- A poll without a packet, and nothing left to report from before. -/
def Dev.Idles (σ : Dev) (e : Event) : Prop := e = .flags 0 ∧ σ.usb.ctrPending 0 = false

/-- **A poll without a packet changes nothing.** -/
theorem poll_idles (hσ : (machine cfg).Reachable σ) {e : Event} (he : σ.Idles e) :
    poll cfg σ e = σ := by
  obtain ⟨rfl, hpending⟩ := he
  obtain ⟨hrx, htx⟩ := Bool.or_eq_false_iff.mp hpending
  have hbus : σ.onBus (.flags 0) = σ := by
    have hnone : σ.usb.reg usbIstrReg ||| ((0 : Half) &&& 0x7B00) = σ.usb.reg usbIstrReg := by
      rw [show (0 : Half) &&& 0x7B00 = 0#16 from rfl, BitVec.or_zero]
    show { σ with usb := hwFlags 0 σ.usb } = σ
    rw [hwFlags, hnone, Function.update_eq_self]
  rw [poll_quiet (tidy_invariant cfg σ hσ) (e := .flags 0) trivial hrx htx, hbus, Dev.tail,
    pollTail_self (unflagged_invariant cfg σ hσ)]

/-- The events `es'` are `es` with polls without a packet put in, each in a state
with nothing to report and before another event. -/
abbrev WithPolls (cfg : Config) (σ : Dev) (es es' : List Event) : Prop :=
  (machine cfg).Padded Dev.Idles σ es es'

/-- Polls without a packet make no difference to a run. -/
theorem run_withPolls (hσ : (machine cfg).Reachable σ) {es es' : List Event}
    (h : WithPolls cfg σ es es') : (machine cfg).run σ es' = (machine cfg).run σ es :=
  h.run (P := (machine cfg).Reachable) _ (fun _ e hτ => hτ.step e) (fun _ _ hτ he => poll_idles hτ he) hσ

end LnDso
