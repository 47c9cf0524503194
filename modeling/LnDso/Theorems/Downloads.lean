import LnDso.Lib.Trace
import LnDso.Logic.Acts
import LnDso.Logic.Completion

/-!
# What becomes of a downloaded block

Two invariants over the record of calls: a block is applied at most once, by
the status stage of its own GETSTATUS transfer and with the data that was
accepted; and a pending block leaves the pending states only by being applied
or by a request that gives it up.
-/

namespace LnDso

open Lib Lib.Trace

variable {cfg : Config}

/-! ## Applied once, with its own data -/

def Call.IsSetup : Call → Prop
  | .setup _ => True
  | _ => False

def Call.IsDnload : Call → Prop
  | .dnload _ => True
  | _ => False

def Call.IsDnbusy : Call → Prop
  | .dnbusy _ => True
  | _ => False

instance : DecidablePred Call.IsDnbusy := fun c =>
  match c with
  | .dnbusy _ => isTrue trivial
  | .setup _ | .dispatch .. | .dnload _ | .upload _ | .getstatus | .complete _ | .send .. | .stall =>
      isFalse not_false

/-- `usbdfu_state` is STATE_DFU_DNLOAD_SYNC or STATE_DFU_DNBUSY: a block waits. -/
def Dfu.Pending (d : Dfu) : Prop :=
  d.usbdfuState = .dfuDnloadSync ∨ d.usbdfuState = .dfuDnbusy

/-- The block is the latest one accepted, and has not been applied. -/
def Unapplied (b : Block) (l : List Call) : Prop :=
  Since (fun c => ¬ c.IsDnload ∧ ¬ c.IsDnbusy) (· = .dnload b) l

/-- A GETSTATUS of the transfer in progress has registered the callback. -/
def Registered (l : List Call) : Prop := Since (fun c => ¬ c.IsSetup) (· = .getstatus) l

/-- What the calls before a run of the DNBUSY branch on `b` must be: the last
one is the status stage that called back, its transfer registered the callback,
and `b` is the latest accepted block, not applied since. -/
structure Justified (pre : List Call) (b : Block) : Prop where
  stage : ∃ l stage, pre = l ++ [.complete stage] ∧ (stage = .statusIn ∨ stage = .statusOut)
  registered : Registered pre
  unapplied : Unapplied b pre

/-- Every run of the DNBUSY branch is justified by the calls before it. -/
def DnbusyJustified : List Call → Prop := Each fun pre c => ∀ b, c = .dnbusy b → Justified pre b

/-- The invariant that carries `DnbusyJustified`. -/
structure History (σ : Dev) : Prop where
  justified : DnbusyJustified σ.calls
  registered : σ.pipe.usbCompleteCb ≠ none → Registered σ.calls
  unapplied : σ.dfu.Pending → Unapplied σ.dfu.prog.block σ.calls

theorem Dev.Boot.history {σ : Dev} (h : σ.Boot) : History σ where
  justified := by rw [h.calls]; exact each_nil _
  registered := fun hcb => absurd h.usbCompleteCb hcb
  unapplied := by
    rintro (hs | hs)
    · rw [h.usbdfuState] at hs
      exact absurd hs (by decide)
    · rw [h.usbdfuState] at hs
      exact absurd hs (by decide)

/-- A call that is no SETUP, no accepted block and no DNBUSY run, with nothing
else changed, keeps the history. -/
theorem History.call {σ : Dev} (h : History σ) {c : Call} (hs : ¬ c.IsSetup) (hd : ¬ c.IsDnload)
    (hb : ¬ c.IsDnbusy) : History (σ.call c) where
  justified := each_snoc.mpr ⟨h.justified, fun _ hc => absurd (hc ▸ trivial) hb⟩
  registered := fun hcb => (h.registered hcb).snoc hs
  unapplied := fun hp => (h.unapplied hp).snoc ⟨hd, hb⟩

theorem History.same {σ τ : Dev} (h : History σ) (hsame : σ.Same τ) : History τ where
  justified := by rw [hsame.calls]; exact h.justified
  registered := by rw [hsame.calls, hsame.cb]; exact h.registered
  unapplied := by rw [hsame.calls, hsame.dfu]; exact h.unapplied

/-- A change of the DFU state to one that is not pending. -/
theorem History.leave {σ : Dev} (h : History σ) {s : DfuState} (hs : s ≠ .dfuDnloadSync)
    (hb : s ≠ .dfuDnbusy) : History (σ.setDfuState s) where
  justified := h.justified
  registered := h.registered
  unapplied := fun hp => hp.elim (absurd · hs) (absurd · hb)

theorem History.reply {σ : Dev} (h : History σ) (bytes : List Byte) (len : Half) :
    History (σ.reply bytes len) :=
  ⟨h.justified, h.registered, h.unapplied⟩

theorem dfuDnload_history {σ : Dev} (h : History σ) : History (dfuDnload σ) := by
  unfold dfuDnload
  split
  · exact h.leave (by decide) (by decide)
  · refine ⟨each_snoc.mpr ⟨h.justified, fun b hc => ?_⟩, fun hcb => ?_, fun _ => ?_⟩
    · exact absurd hc (by simp)
    · exact (h.registered hcb).snoc not_false
    · exact .now _ rfl

theorem dfuUpload_history {σ : Dev} (h : History σ) : History (dfuUpload cfg σ) := by
  have hidle : History (σ.setDfuState .dfuUploadIdle) := h.leave (by decide) (by decide)
  unfold dfuUpload dfuUploadBlock
  dsimp only
  split
  · exact hidle.reply _ _
  split
  · split
    · have hcopy : ∀ fl bytes len, History
          (({ (σ.setDfuState .dfuUploadIdle) with flash := fl }).reply bytes len) :=
        fun fl bytes len => ⟨hidle.justified, hidle.registered, hidle.unapplied⟩
      exact (hcopy _ _ _).call not_false not_false not_false
    · exact (hidle.leave (by decide) (by decide)).reply _ _
  · exact (hidle.leave (by decide) (by decide)).reply _ _

/-- GETSTATUS moves a waiting block on, and makes none wait. -/
theorem dfuGetstatus_pending (σ : Dev) : (dfuGetstatus σ).dfu.Pending ↔ σ.dfu.Pending := by
  show (usbdfuGetstatus σ.dfu.usbdfuState).2.2 = .dfuDnloadSync ∨
    (usbdfuGetstatus σ.dfu.usbdfuState).2.2 = .dfuDnbusy ↔ _
  unfold Dfu.Pending
  cases σ.dfu.usbdfuState <;> decide

theorem dfuGetstatus_history {σ : Dev} (h : History σ) : History (dfuGetstatus σ) := by
  refine ⟨each_snoc.mpr ⟨h.justified, fun b hc => ?_⟩, fun _ => .now _ rfl, fun hp => ?_⟩
  · exact absurd hc (by simp)
  · exact (h.unapplied ((dfuGetstatus_pending σ).mp hp)).snoc ⟨not_false, not_false⟩

theorem usbdfuControlRequest_history {σ : Dev} (h : History σ) :
    History (usbdfuControlRequest cfg σ).2 := by
  unfold usbdfuControlRequest
  split
  · exact dfuDnload_history h
  · dsimp only
    split
    · exact h.leave (by decide) (by decide)
    · exact h
  · exact h.leave (by decide) (by decide)
  · exact h.leave (by decide) (by decide)
  · exact dfuUpload_history h
  · exact dfuGetstatus_history h
  · exact h.reply _ _
  · exact h

/-- The completion callback applies only a justified block. -/
theorem complete_history {σ : Dev} (h : History σ) {stage : UsbFsmState}
    (hcb : σ.pipe.usbCompleteCb ≠ none) (hstage : stage = .statusIn ∨ stage = .statusOut) :
    History (usbdfuGetstatusComplete cfg (σ.call (.complete stage))) := by
  have hc : History (σ.call (.complete stage)) := h.call not_false not_false not_false
  by_cases hs : (σ.call (.complete stage)).dfu.usbdfuState = .dfuDnbusy
  · have hjust : Justified (σ.calls ++ [.complete stage]) σ.dfu.prog.block :=
      ⟨⟨σ.calls, stage, rfl, hstage⟩, hc.registered hcb, hc.unapplied (.inr hs)⟩
    refine ⟨?_, fun _ => ?_, fun hp => ?_⟩
    · rw [usbdfuGetstatusComplete_calls _, if_pos hs]
      refine each_snoc.mpr ⟨hc.justified, fun b hb => ?_⟩
      obtain rfl := Call.dnbusy.inj hb
      exact hjust
    · rw [usbdfuGetstatusComplete_calls _, if_pos hs]
      exact (hc.registered hcb).snoc not_false
    · rw [Dfu.Pending, usbdfuGetstatusComplete_state, if_pos hs] at hp
      exact hp.elim (absurd · (by decide)) (absurd · (by decide))
  · rw [usbdfuGetstatusComplete_else hs]
    exact hc

theorem act_history {σ τ : Dev} (h : Act cfg σ τ) (hσ : History σ) : History τ := by
  cases h with
  | plumb hsame => exact hσ.same hsame
  | send => exact hσ.call not_false not_false not_false
  | stall => exact hσ.call not_false not_false not_false
  | forget => exact ⟨hσ.justified, fun hcb => absurd rfl hcb, hσ.unapplied⟩
  | setup hcb =>
      refine ⟨each_snoc.mpr ⟨hσ.justified, fun b hb => absurd hb (by simp)⟩,
        fun hne => absurd hcb hne, fun hp => (hσ.unapplied hp).snoc ⟨not_false, not_false⟩⟩
  | pass => exact hσ.call not_false not_false not_false
  | request =>
      refine usbdfuControlRequest_history ?_
      exact (hσ.call (c := .dispatch σ.pipe.usbReq σ.usbdControlBuffer) not_false not_false
        not_false).same ⟨rfl, rfl, rfl, rfl, .refl⟩
  | @complete cb stage hcb hstage =>
      cases cb
      exact complete_history hσ (by rw [hcb]; simp) hstage

/-- **At most once, with its own data.** In every run from boot, each run of
the DNBUSY branch follows an accepted download with no other download and no
other such run in between, works on exactly the block that download stored, and
ends the status stage of a transfer that registered the callback itself. -/
theorem dnbusy_justified (cfg : Config) (σ : Dev) (hboot : σ.Boot) (es : List Event) :
    DnbusyJustified ((machine cfg).run σ es).calls :=
  (run_acts (fun _ h => ⟨h.justified, h.registered, h.unapplied⟩) act_history hboot.history es).justified

/-- One block of two bytes, downloaded and completed by GETSTATUS. -/
def oneBlock : List Event :=
  [.reset, .setup ⟨0x21, 1, 2, 0, 2⟩, .out ⟨[0x12, 0x34], by decide⟩, .inDone,
    .setup ⟨0xA1, 3, 0, 0, 6⟩, .inDone, .out ⟨[], by decide⟩]

/-- The rule on a run that applies a block. -/
theorem dnbusy_justified_oneBlock :
    DnbusyJustified ((machine .stm32f103).run (Dev.fresh fun _ => 0xff) oneBlock).calls :=
  dnbusy_justified .stm32f103 _ (Dev.fresh_boot _) oneBlock

-- The run does reach the DNBUSY branch.
example : ((machine .stm32f103).run (Dev.fresh fun _ => 0xff) oneBlock).dfu.usbdfuState =
    .dfuDnloadIdle := by
  decide +kernel

/-! ## Kept until applied or given up -/

/-- The call is a dispatch of a DFU request that satisfies `P`. -/
def Call.Asks (P : DfuReq → UsbSetupData → Prop) : Call → Prop
  | .dispatch r _ => r.ClassInterface ∧ ∃ q, DfuReq.ofByte r.bRequest = some q ∧ P q r
  | _ => False

instance (P : DfuReq → UsbSetupData → Prop) [∀ q r, Decidable (P q r)] :
    DecidablePred (Call.Asks P) := fun c =>
  match c with
  | .dispatch r _ =>
      match h : DfuReq.ofByte r.bRequest with
      | some q => decidable_of_iff (r.ClassInterface ∧ P q r) (by simp [Call.Asks, h])
      | none => isFalse (by simp [Call.Asks, h])
  | .setup _ | .dnload _ | .upload _ | .getstatus | .complete _ | .dnbusy _ | .send .. | .stall =>
      isFalse not_false

/-- DFU_ABORT, DFU_DETACH, or a download of length zero. -/
def DfuReq.Leaves (q : DfuReq) (r : UsbSetupData) : Prop :=
  q = .abort ∨ q = .detach ∨ q = .dnload ∧ r.wLength = 0

instance (q : DfuReq) (r : UsbSetupData) : Decidable (q.Leaves r) :=
  inferInstanceAs (Decidable (_ ∨ _))

/-- A request that gives a pending block up: one that leaves, another download,
or an upload. -/
def DfuReq.GivesUp (q : DfuReq) (_ : UsbSetupData) : Prop :=
  q = .abort ∨ q = .detach ∨ q = .dnload ∨ q = .upload

/-- Since its acceptance the block was given up by a request in `P`, or the
DNBUSY branch has run on it, or it still waits, unchanged. -/
def Kept (P : DfuReq → UsbSetupData → Prop) (d : Dfu) (b : Block) (post : List Call) : Prop :=
  (∃ c ∈ post, c.Asks P) ∨ .dnbusy b ∈ post ∨ (d.Pending ∧ d.prog.block = b)

/-- Every accepted block is kept. -/
def AllKept (P : DfuReq → UsbSetupData → Prop) (σ : Dev) : Prop :=
  ∀ pre b post, σ.calls = pre ++ .dnload b :: post → Kept P σ.dfu b post

theorem Dev.Boot.allKept {σ : Dev} (h : σ.Boot) (P : DfuReq → UsbSetupData → Prop) :
    AllKept P σ := by
  intro pre b post heq
  rw [h.calls] at heq
  simp at heq

variable {P : DfuReq → UsbSetupData → Prop} {σ τ : Dev}

/-- The same calls and a DFU state that keeps a pending block. -/
theorem AllKept.of_dfu (h : AllKept P σ) (hcalls : τ.calls = σ.calls)
    (hdfu : σ.dfu.Pending → τ.dfu.Pending ∧ τ.dfu.prog.block = σ.dfu.prog.block) :
    AllKept P τ := by
  intro pre b post heq
  rcases h pre b post (hcalls ▸ heq) with hask | hrun | ⟨hp, hb⟩
  · exact .inl hask
  · exact .inr (.inl hrun)
  · exact .inr (.inr ⟨(hdfu hp).1, (hdfu hp).2.trans hb⟩)

theorem AllKept.call (h : AllKept P σ) {c : Call} (hc : ¬ c.IsDnload) : AllKept P (σ.call c) := by
  intro pre b post heq
  rcases snoc_eq_split heq with ⟨-, rfl, -⟩ | ⟨post', rfl, hpre⟩
  · exact absurd trivial hc
  · rcases h pre b post' hpre with ⟨e, he, hask⟩ | hrun | hpend
    · exact .inl ⟨e, List.mem_append_left _ he, hask⟩
    · exact .inr (.inl (List.mem_append_left _ hrun))
    · exact .inr (.inr hpend)

/-- Every block of the log has been given up. -/
def AllGivenUp (P : DfuReq → UsbSetupData → Prop) (l : List Call) : Prop :=
  ∀ pre b post, l = pre ++ .dnload b :: post → ∃ c ∈ post, c.Asks P

theorem AllGivenUp.snoc_ask (l : List Call) {c : Call} (hc : c.Asks P) (hd : ¬ c.IsDnload) :
    AllGivenUp P (l ++ [c]) := by
  intro pre b post heq
  rcases snoc_eq_split heq with ⟨-, rfl, -⟩ | ⟨post', rfl, -⟩
  · exact absurd trivial hd
  · exact ⟨c, List.mem_append_right _ (List.mem_singleton.mpr rfl), hc⟩

theorem AllGivenUp.snoc {l : List Call} (h : AllGivenUp P l) {c : Call} (hd : ¬ c.IsDnload) :
    AllGivenUp P (l ++ [c]) := by
  intro pre b post heq
  rcases snoc_eq_split heq with ⟨-, rfl, -⟩ | ⟨post', rfl, hpre⟩
  · exact absurd trivial hd
  · obtain ⟨e, he, hask⟩ := h pre b post' hpre
    exact ⟨e, List.mem_append_left _ he, hask⟩

theorem AllGivenUp.kept (h : AllGivenUp P τ.calls) : AllKept P τ :=
  fun pre b post heq => .inl (h pre b post heq)

/-- A new block over a log of blocks given up. -/
theorem AllGivenUp.kept_dnload {l : List Call} (h : AllGivenUp P l)
    (hcalls : τ.calls = l ++ [.dnload τ.dfu.prog.block]) (hp : τ.dfu.Pending) : AllKept P τ := by
  intro pre b post heq
  rw [hcalls] at heq
  rcases snoc_eq_split heq with ⟨-, hb, -⟩ | ⟨post', rfl, hpre⟩
  · exact .inr (.inr ⟨hp, (Call.dnload.inj hb).symm⟩)
  · obtain ⟨c, hc, hask⟩ := h pre b post' hpre
    exact .inl ⟨c, List.mem_append_left _ hc, hask⟩

/-- The request handler keeps every block, or was asked to give it up. -/
theorem usbdfuControlRequest_allKept {σ : Dev} (h : AllKept DfuReq.GivesUp σ)
    (hclass : σ.pipe.usbReq.ClassInterface) :
    AllKept DfuReq.GivesUp (usbdfuControlRequest cfg σ.toHandler).2 := by
  have hcall : AllKept DfuReq.GivesUp σ.toHandler :=
    (h.call (c := .dispatch σ.pipe.usbReq σ.usbdControlBuffer) not_false).of_dfu rfl
      fun hp => ⟨hp, rfl⟩
  have hgiven : ∀ q, DfuReq.ofByte σ.pipe.usbReq.bRequest = some q →
      q.GivesUp σ.pipe.usbReq → AllGivenUp DfuReq.GivesUp σ.toHandler.calls :=
    fun q hq hgive => .snoc_ask σ.calls ⟨hclass, q, hq, hgive⟩ not_false
  unfold usbdfuControlRequest
  split
  · next hq =>
    have hup := hgiven _ hq (.inr (.inr (.inl rfl)))
    unfold dfuDnload
    split
    · exact AllGivenUp.kept hup
    · exact hup.kept_dnload rfl (.inl rfl)
  · dsimp only
    split
    · next herr =>
      refine hcall.of_dfu rfl fun hp => ?_
      rcases hp with hp | hp <;> rw [hp] at herr <;> exact absurd herr (by decide)
    · exact hcall
  · next hq => exact AllGivenUp.kept (hgiven _ hq (.inl rfl))
  · next hq => exact AllGivenUp.kept (hgiven _ hq (.inr (.inl rfl)))
  · next hq =>
    have hup := hgiven _ hq (.inr (.inr (.inr rfl)))
    unfold dfuUpload dfuUploadBlock
    dsimp only
    split
    · exact AllGivenUp.kept hup
    split
    · split
      · refine AllGivenUp.kept ?_
        simp only [Dev.call_calls, Dev.reply_calls, Dev.setDfuState_calls]
        exact hup.snoc not_false
      · exact AllGivenUp.kept hup
    · exact AllGivenUp.kept hup
  · have hstate : AllKept DfuReq.GivesUp { dfuGetstatus σ.toHandler with
        calls := σ.toHandler.calls } :=
      hcall.of_dfu rfl fun hp => ⟨(dfuGetstatus_pending σ.toHandler).mpr hp, rfl⟩
    exact hstate.call (c := .getstatus) not_false
  · exact hcall.of_dfu rfl fun hp => ⟨hp, rfl⟩
  · exact hcall

theorem act_allKept {σ τ : Dev} (h : Act cfg σ τ) (hσ : AllKept DfuReq.GivesUp σ) :
    AllKept DfuReq.GivesUp τ := by
  cases h with
  | plumb hsame => exact hσ.of_dfu hsame.calls fun hp => by rw [hsame.dfu]; exact ⟨hp, rfl⟩
  | send => exact hσ.call not_false
  | stall => exact hσ.call not_false
  | forget => exact hσ.of_dfu rfl fun hp => ⟨hp, rfl⟩
  | setup => exact hσ.call not_false
  | pass => exact hσ.call not_false
  | request hclass => exact usbdfuControlRequest_allKept hσ hclass
  | @complete cb stage =>
      cases cb
      have hc : AllKept DfuReq.GivesUp (σ.call (.complete stage)) := hσ.call not_false
      by_cases hs : (σ.call (.complete stage)).dfu.usbdfuState = .dfuDnbusy
      · -- the branch runs on the block that waits
        intro pre b post heq
        have heq' : (σ.call (.complete stage)).calls ++ [.dnbusy σ.dfu.prog.block] =
            pre ++ .dnload b :: post := by
          rw [← heq]
          show _ = (usbdfuGetstatusComplete cfg (σ.call (.complete stage))).calls
          rw [usbdfuGetstatusComplete_calls _, if_pos hs]
          rfl
        rcases snoc_eq_split heq' with ⟨-, hbad, -⟩ | ⟨post', rfl, hpre⟩
        · exact absurd hbad (by simp)
        · rcases hc pre b post' hpre with ⟨e, he, hask⟩ | hrun | ⟨-, hb⟩
          · exact .inl ⟨e, List.mem_append_left _ he, hask⟩
          · exact .inr (.inl (List.mem_append_left _ hrun))
          · refine .inr (.inl (List.mem_append_right _ (List.mem_singleton.mpr ?_)))
            rw [← hb]
            rfl
      · show AllKept DfuReq.GivesUp (usbdfuGetstatusComplete cfg (σ.call (.complete stage)))
        rw [usbdfuGetstatusComplete_else hs]
        exact hc

/-- **No block is lost silently.** In every run from boot, each accepted block
waits unchanged until the DNBUSY branch runs on it, unless the host gives it up
by an abort, a detach, an upload or another download: no request is refused for
the state the device is in. -/
theorem accepted_kept (cfg : Config) (σ : Dev) (hboot : σ.Boot) (es : List Event) :
    AllKept DfuReq.GivesUp ((machine cfg).run σ es) :=
  run_acts (fun _ h => h) act_allKept (hboot.allKept _) es

/-- The rule on a run that applies its block. -/
theorem accepted_kept_oneBlock :
    AllKept DfuReq.GivesUp ((machine .stm32f103).run (Dev.fresh fun _ => 0xff) oneBlock) :=
  accepted_kept .stm32f103 _ (Dev.fresh_boot _) oneBlock

/-- Two downloads with no GETSTATUS between them. -/
def twoBlocks : List Event :=
  [.reset, .setup ⟨0x21, 1, 2, 0, 2⟩, .out ⟨[0x12, 0x34], by decide⟩, .inDone,
    .setup ⟨0x21, 1, 3, 0, 2⟩, .out ⟨[0x56, 0x78], by decide⟩]

/-- The block an accepted download carries. -/
def Call.block? : Call → Option Block
  | .dnload b => some b
  | _ => none

theorem split_of_block? {l : List Call} {i : Nat} {b : Block}
    (h : l[i]?.bind Call.block? = some b) : l = l.take i ++ .dnload b :: l.drop (i + 1) := by
  obtain ⟨c, hget, hc⟩ := Option.bind_eq_some_iff.mp h
  obtain ⟨hi, rfl⟩ := List.getElem?_eq_some_iff.mp hget
  have hdnload : l[i] = .dnload b := by
    cases hcall : l[i] <;> simp_all [Call.block?]
  rw [← hdnload, List.getElem_cons_drop, List.take_append_drop]

/-- A waiting block is replaced by the next download, which no state check
refuses: it is neither applied nor given up by a request that leaves. -/
theorem pending_block_replaced :
    ¬ ∀ es, AllKept DfuReq.Leaves ((machine .stm32f103).run (Dev.fresh fun _ => 0xff) es) := by
  intro h
  have hkept := h twoBlocks
  have hblock : ((machine .stm32f103).run (Dev.fresh fun _ => 0xff) twoBlocks).calls[2]?.bind
      Call.block? = some ⟨2, 2, [0x12, 0x34]⟩ := by decide +kernel
  have hrest : ∀ c ∈ ((machine .stm32f103).run (Dev.fresh fun _ => 0xff) twoBlocks).calls.drop 3,
      ¬ c.Asks DfuReq.Leaves ∧ ¬ c.IsDnbusy := by decide +kernel
  have hnew : ((machine .stm32f103).run (Dev.fresh fun _ => 0xff) twoBlocks).dfu.prog.block =
      ⟨3, 2, [0x56, 0x78]⟩ := by decide +kernel
  generalize (machine .stm32f103).run (Dev.fresh fun _ => 0xff) twoBlocks = σ at *
  rcases hkept _ _ _ (split_of_block? hblock) with ⟨c, hc, hask⟩ | hrun | ⟨-, hb⟩
  · exact (hrest c hc).1 hask
  · exact (hrest _ hrun).2 trivial
  · rw [hnew] at hb
    exact absurd hb (by decide)

end LnDso
