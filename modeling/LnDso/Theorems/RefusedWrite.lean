import LnDso.Logic.Dispatched

/-!
# A refused write

The DNBUSY branch skips an erase or a block out of range and goes to
dfuDNLOAD-IDLE as if it had run; the upload path goes to dfuERROR. So a
GETSTATUS after a refused write reports an error just if an upload refused in
between makes it one.
-/

namespace LnDso

open Lib

variable {cfg : Config} {σ τ : Dev} {e : Event} {q : UsbSetupData} {addr : Word}

/-- What the DNBUSY branch is to write fails its address check. -/
def Dfu.WriteRefused (cfg : Config) (d : Dfu) : Prop :=
  if d.prog.blocknum = 0 then d.prog.buf 0 = cmdErase ∧ eraseGuard cfg d.prog.operand = false
  else blockGuard cfg (blockAddr d.prog.addr d.prog.blocknum) d.prog.len = false

instance (d : Dfu) : Decidable (d.WriteRefused cfg) := inferInstanceAs (Decidable (ite _ _ _))

/-- The event runs the DNBUSY branch on a write that is refused. -/
structure Dev.RefusesWrite (cfg : Config) (σ : Dev) (e : Event) : Prop where
  runs : σ.RunsDnbusy (poll cfg σ e)
  refused : σ.dfu.WriteRefused cfg

/-- Anything but DNLOAD, CLRSTATUS, ABORT and GETSTATUS. -/
def UsbSetupData.Between (q : UsbSetupData) : Prop :=
  ∀ r, q.dfuReq? = some r → r = .upload ∨ r = .detach ∨ r = .getstate

/-- An upload of a block that the device refuses, the address pointer being `addr`. -/
structure UsbSetupData.UploadRefused (cfg : Config) (addr : Word) (q : UsbSetupData) : Prop where
  upload : q.dfuReq? = some .upload
  block : q.wValue ≠ 0
  refused : ¬ (cfg.enableDfuUpload = true ∧ uploadGuard cfg (blockAddr addr q.wValue) = true)

/-- An UPLOAD or a DETACH. -/
def UsbSetupData.UploadOrDetach (q : UsbSetupData) : Prop :=
  q.dfuReq? = some .upload ∨ q.dfuReq? = some .detach

/-- The last UPLOAD or DETACH is an upload that is refused. -/
def EndsInUploadRefused (cfg : Config) (addr : Word) (qs : List UsbSetupData) : Prop :=
  ∃ l q l', qs = l ++ q :: l' ∧ q.UploadRefused cfg addr ∧ ∀ r ∈ l', ¬ r.UploadOrDetach

/-- The reply is that of dfuERROR, with a status that is not OK. -/
structure Dev.ReportsError (τ : Dev) : Prop where
  status : τ.usbdControlBuffer 0 ≠ dfuStatusOk
  state : τ.usbdControlBuffer 4 = DfuState.dfuError.toByte

/-! ## The write that is refused -/

/-- The branch goes to dfuDNLOAD-IDLE; a refused write leaves the pointer. -/
theorem poll_refusesWrite (h : σ.Sound) (hrefused : σ.RefusesWrite cfg e) :
    (poll cfg σ e).dfu.usbdfuState = .dfuDnloadIdle ∧
      (poll cfg σ e).dfu.prog.addr = σ.dfu.prog.addr := by
  obtain ⟨hruns, hwrite⟩ := hrefused
  have happlied := poll_applies h hruns
  refine ⟨poll_dnbusy_state h hruns, happlied.addr.trans ?_⟩
  unfold Dfu.nextAddr
  rw [if_neg]
  rintro ⟨hzero, hset⟩
  unfold Dfu.WriteRefused at hwrite
  rw [if_pos hzero, hset] at hwrite
  exact absurd hwrite.1 (by decide)

/-! ## The requests in between -/

/-- What a request in between makes of the DFU state. -/
structure Dev.Waits (cfg : Config) (q : UsbSetupData) (σ τ : Dev) : Prop where
  addr : τ.dfu.prog.addr = σ.dfu.prog.addr
  busy : τ.dfu.usbdfuState ≠ .dfuDnbusy
  error : τ.dfu.usbdfuState = .dfuError ↔ q.UploadRefused cfg σ.dfu.prog.addr ∨
    σ.dfu.usbdfuState = .dfuError ∧ ¬ q.UploadOrDetach

theorem dispatch_waits (cfg : Config) (hbusy : σ.dfu.usbdfuState ≠ .dfuDnbusy)
    (hbetween : σ.pipe.usbReq.Between) :
    σ.Waits cfg σ.pipe.usbReq (usbControlRequestDispatch cfg σ).2 := by
  -- neither an UPLOAD nor a DETACH
  have hsame : (usbControlRequestDispatch cfg σ).2.dfu = σ.dfu → ¬ σ.pipe.usbReq.UploadOrDetach →
      σ.Waits cfg σ.pipe.usbReq (usbControlRequestDispatch cfg σ).2 := by
    intro hdfu hother
    refine ⟨by rw [hdfu], by rw [hdfu]; exact hbusy, ?_⟩
    rw [hdfu]
    constructor
    · intro herror
      exact .inr ⟨herror, hother⟩
    · rintro (hrefused | ⟨herror, -⟩)
      · exact absurd (.inl hrefused.upload) hother
      · exact herror
  cases hreq : σ.pipe.usbReq.dfuReq? with
  | none =>
      refine hsame (dispatch_dfu_of_none cfg hreq) ?_
      simp [UsbSetupData.UploadOrDetach, hreq]
  | some r =>
      have hdfu := dispatch_dfu_of_some cfg hreq
      have hbyte : DfuReq.ofByte σ.toHandler.pipe.usbReq.bRequest = some r :=
        (UsbSetupData.dfuReq?_eq_some.mp hreq).2
      unfold usbdfuControlRequest at hdfu
      rw [hbyte] at hdfu
      rcases hbetween r hreq with rfl | rfl | rfl
      · obtain ⟨hprog, hstate⟩ := dfuUpload_dfu cfg σ.toHandler
        have hiff : σ.pipe.usbReq.UploadRefused cfg σ.dfu.prog.addr ↔ σ.pipe.usbReq.wValue ≠ 0 ∧
            ¬ (cfg.enableDfuUpload = true ∧
              uploadGuard cfg (blockAddr σ.dfu.prog.addr σ.pipe.usbReq.wValue) = true) :=
          ⟨fun h => ⟨h.block, h.refused⟩, fun h => ⟨hreq, h.1, h.2⟩⟩
        have hmoves : σ.pipe.usbReq.UploadOrDetach := .inl hreq
        refine ⟨?_, ?_, ?_⟩
        · rw [hdfu]
          exact congrArg Prog.addr hprog
        · rw [hdfu]
          dsimp only
          rw [hstate]
          split
          · simp
          · simp
        · rw [hdfu, hiff]
          dsimp only
          rw [hstate]
          split
          · next hrefused => exact ⟨fun _ => .inl hrefused, fun _ => rfl⟩
          · next haccepted =>
            constructor
            · intro herror
              cases herror
            · rintro (hrefused | ⟨-, hother⟩)
              · exact absurd hrefused haccepted
              · exact absurd hmoves hother
      · have hmoves : σ.pipe.usbReq.UploadOrDetach := .inr hreq
        refine ⟨by rw [hdfu]; rfl, by rw [hdfu]; simp, ?_⟩
        rw [hdfu]
        constructor
        · intro herror
          cases herror
        · rintro (hrefused | ⟨-, hother⟩)
          · cases hrefused.upload.symm.trans hreq
          · exact absurd hmoves hother
      · refine hsame hdfu ?_
        simp [UsbSetupData.UploadOrDetach, hreq]

/-! ## Runs -/

theorem EndsInUploadRefused.cons {qs : List UsbSetupData} :
    EndsInUploadRefused cfg addr (q :: qs) ↔ EndsInUploadRefused cfg addr qs ∨
      q.UploadRefused cfg addr ∧ ∀ r ∈ qs, ¬ r.UploadOrDetach := by
  constructor
  · rintro ⟨l, r, l', heq, hrefused, hlast⟩
    cases l with
    | nil =>
        obtain ⟨rfl, rfl⟩ := List.cons.inj heq
        exact .inr ⟨hrefused, hlast⟩
    | cons p l =>
        obtain ⟨-, rfl⟩ := List.cons.inj heq
        exact .inl ⟨l, r, l', rfl, hrefused, hlast⟩
  · rintro (⟨l, r, l', rfl, hrefused, hlast⟩ | ⟨hrefused, hlast⟩)
    · exact ⟨q :: l, r, l', rfl, hrefused, hlast⟩
    · exact ⟨[], q, qs, rfl, hrefused, hlast⟩

theorem EndsInUploadRefused.nil : ¬ EndsInUploadRefused cfg addr [] := by
  rintro ⟨l, q, l', heq, -⟩
  simp at heq

/-- In between, the state is dfuERROR if the last UPLOAD or DETACH has made it
so, or if it was before and there is none. -/
theorem run_error (cfg : Config) (h : σ.Sound) (hbusy : σ.dfu.usbdfuState ≠ .dfuDnbusy)
    {es : List Event} (hes : ∀ q ∈ dispatches cfg σ es, q.Between) :
    ((machine cfg).run σ es).dfu.usbdfuState = .dfuError ↔
      EndsInUploadRefused cfg σ.dfu.prog.addr (dispatches cfg σ es) ∨
        σ.dfu.usbdfuState = .dfuError ∧ ∀ q ∈ dispatches cfg σ es, ¬ q.UploadOrDetach := by
  induction es generalizing σ with
  | nil =>
      show σ.dfu.usbdfuState = .dfuError ↔ EndsInUploadRefused cfg _ [] ∨ _ ∧ ∀ q ∈ [], _
      simp [EndsInUploadRefused.nil]
  | cons e es ih =>
      have hsound := h.poll cfg e
      show ((machine cfg).run (poll cfg σ e) es).dfu.usbdfuState = .dfuError ↔ _
      cases hq : σ.dispatched? e with
      | none =>
          have hsame : dispatches cfg σ (e :: es) = dispatches cfg (poll cfg σ e) es := by
            rw [dispatches, hq]
            rfl
          have hdfu := poll_dfu_of_none cfg h (dispatched?_eq_none.mp hq) hbusy
          rw [hsame] at hes ⊢
          have hrun := ih hsound (by rw [hdfu]; exact hbusy) hes
          rw [hdfu] at hrun
          exact hrun
      | some q =>
          have hmore : dispatches cfg σ (e :: es) = q :: dispatches cfg (poll cfg σ e) es := by
            rw [dispatches, hq]
            rfl
          rw [hmore] at hes ⊢
          obtain ⟨ρ, rfl, hρ, -, -, hdfu, -⟩ := poll_dispatch cfg h (dispatched?_eq_some.mp hq)
          have hwaits := dispatch_waits cfg (σ := ρ) (by rw [hρ]; exact hbusy)
            (hes _ List.mem_cons_self)
          obtain ⟨haddr, hbusy', herror⟩ := hwaits
          rw [← hdfu] at haddr hbusy' herror
          rw [hρ] at haddr herror
          have hrun := ih hsound hbusy' fun r hr => hes r (List.mem_cons_of_mem _ hr)
          rw [hrun, haddr, herror, EndsInUploadRefused.cons, List.forall_mem_cons]
          constructor
          · rintro (hends | ⟨hrefused | ⟨hbefore, hother⟩, hnone⟩)
            · exact .inl (.inl hends)
            · exact .inl (.inr ⟨hrefused, hnone⟩)
            · exact .inr ⟨hbefore, hother, hnone⟩
          · rintro ((hends | ⟨hrefused, hnone⟩) | ⟨hbefore, hother, hnone⟩)
            · exact .inl hends
            · exact .inr ⟨.inl hrefused, hnone⟩
            · exact .inr ⟨.inr ⟨hbefore, hother⟩, hnone⟩

/-! ## The report -/

/-- GETSTATUS reports an error just in dfuERROR. -/
theorem dfuGetstatus_reportsError (σ : Dev) :
    (dfuGetstatus σ).ReportsError ↔ σ.dfu.usbdfuState = .dfuError := by
  constructor
  · intro h
    by_contra hne
    refine h.status ?_
    cases hs : σ.dfu.usbdfuState with
    | dfuError => exact absurd hs hne
    | _ =>
      unfold dfuGetstatus
      rw [hs]
      rfl
  · intro hs
    unfold dfuGetstatus
    rw [hs]
    refine ⟨?_, rfl⟩
    show (DfuState.dfuError.toByte : Byte) ≠ dfuStatusOk
    decide

theorem poll_reportsError (h : σ.Sound) (hq : σ.Dispatches e q) (hget : q.dfuReq? = some .getstatus) :
    (poll cfg σ e).ReportsError ↔ σ.dfu.usbdfuState = .dfuError := by
  obtain ⟨ρ, rfl, hρ, -, -, -, hbuf⟩ := poll_dispatch cfg h hq
  obtain ⟨hclass, hreq⟩ := UsbSetupData.dfuReq?_eq_some.mp hget
  have hreport := dfuGetstatus_reportsError ρ.toHandler
  rw [usbControlRequestDispatch_getstatus hclass hreq] at hbuf
  rw [show ρ.toHandler.dfu = σ.dfu from hρ] at hreport
  rw [← hreport]
  constructor
  · rintro ⟨hstatus, hstate⟩
    rw [hbuf] at hstatus hstate
    exact ⟨hstatus, hstate⟩
  · rintro ⟨hstatus, hstate⟩
    refine ⟨?_, ?_⟩
    · rw [hbuf]
      exact hstatus
    · rw [hbuf]
      exact hstate

/-- **A refused write is reported only through an upload.** Once the DNBUSY
branch has skipped an erase or a block out of range, the next GETSTATUS before
a DNLOAD, CLRSTATUS or ABORT reports an error just if the last UPLOAD or DETACH
in between is an upload that is refused. -/
theorem refused_write_reported_iff (cfg : Config) {σ : Dev} (hσ : (machine cfg).Reachable σ)
    {e₀ : Event} (hrefused : σ.RefusesWrite cfg e₀) {es : List Event}
    (hes : ∀ q ∈ dispatches cfg (poll cfg σ e₀) es, q.Between) {e : Event} {q : UsbSetupData}
    (hq : ((machine cfg).run (poll cfg σ e₀) es).Dispatches e q)
    (hget : q.dfuReq? = some .getstatus) :
    (poll cfg ((machine cfg).run (poll cfg σ e₀) es) e).ReportsError ↔
      EndsInUploadRefused cfg σ.dfu.prog.addr (dispatches cfg (poll cfg σ e₀) es) := by
  have hsound := sound_invariant cfg σ hσ
  have hsound' : ((machine cfg).run (poll cfg σ e₀) es).Sound :=
    sound_invariant cfg _ (TSys.Reachable.run (machine cfg) (hσ.step e₀) es)
  obtain ⟨hstate, haddr⟩ := poll_refusesWrite hsound hrefused
  have hrun := run_error cfg (hsound.poll cfg e₀) (by rw [hstate]; simp) hes
  rw [poll_reportsError hsound' hq hget, hrun, hstate, haddr]
  simp

/-- ERASE of a page of the bootloader, up to the event that completes it. -/
def eraseBootDue : List Event :=
  [.reset] ++ (download 0 (.ofBytes [0x41, 0x00, 0x00, 0x00, 0x08])).dropLast

theorem eraseBootDue_refused :
    ((machine .stm32f103).run (Dev.fresh fun _ => 0xff) eraseBootDue).RefusesWrite .stm32f103
      (.out (.ofBytes [])) where
  runs := runsDnbusy_of_dnbusyBlock? (b := ⟨0, 5, [0x41, 0x00, 0x00, 0x00, 0x08]⟩) .stm32f103
    (sound_invariant _ _ (TSys.Reachable.run (machine .stm32f103)
      (.init (Dev.fresh_boot fun _ => 0xff)) eraseBootDue)) (by decide +kernel)
  refused := by decide +kernel

theorem eraseBootDue_upload : dispatches .stm32f103 (poll .stm32f103 ((machine .stm32f103).run
    (Dev.fresh fun _ => 0xff) eraseBootDue) (.out (.ofBytes []))) [.setup ⟨0xA1, 2, 2, 0, 64⟩] =
    [⟨0xA1, 2, 2, 0, 64⟩] := by
  decide +kernel

theorem uploadRequest_refused (addr : Word) :
    UsbSetupData.UploadRefused .stm32f103 addr ⟨0xA1, 2, 2, 0, 64⟩ :=
  ⟨by decide, by decide, fun h => absurd h.1 (by decide)⟩

/-- The erase refused, an upload that this build refuses, and GETSTATUS: the upload's
error is reported. -/
theorem refused_write_reported_upload :
    let σ := (machine .stm32f103).run (Dev.fresh fun _ => 0xff) eraseBootDue
    let τ := (machine .stm32f103).run (poll .stm32f103 σ (.out (.ofBytes [])))
      [.setup ⟨0xA1, 2, 2, 0, 64⟩]
    (poll .stm32f103 τ (.setup ⟨0xA1, 3, 0, 0, 6⟩)).ReportsError := by
  have hends : EndsInUploadRefused .stm32f103
      ((machine .stm32f103).run (Dev.fresh fun _ => 0xff) eraseBootDue).dfu.prog.addr
      (dispatches .stm32f103 (poll .stm32f103 ((machine .stm32f103).run
        (Dev.fresh fun _ => 0xff) eraseBootDue) (.out (.ofBytes []))) [.setup ⟨0xA1, 2, 2, 0, 64⟩]) := by
    rw [eraseBootDue_upload]
    exact ⟨[], _, [], rfl, uploadRequest_refused _, fun r hr => absurd hr List.not_mem_nil⟩
  refine Iff.mpr ?_ hends
  refine refused_write_reported_iff .stm32f103 (q := ⟨0xA1, 3, 0, 0, 6⟩) (TSys.Reachable.run
    (machine .stm32f103) (.init (Dev.fresh_boot fun _ => 0xff)) eraseBootDue)
    eraseBootDue_refused ?_ ⟨rfl, .inr (by decide)⟩ (by decide)
  have hreq : UsbSetupData.dfuReq? ⟨0xA1, 2, 2, 0, 64⟩ = some .upload := by decide
  rw [eraseBootDue_upload]
  intro q hq r hr
  rw [List.mem_singleton.mp hq, hreq] at hr
  exact .inl (Option.some.inj hr).symm

/-- The erase refused, and GETSTATUS: the host is told that all is well. -/
theorem refused_erase_reported_ok :
    let σ := (machine .stm32f103).run (Dev.fresh fun _ => 0xff) eraseBootDue
    let τ := poll .stm32f103 σ (.out (.ofBytes []))
    (machine .stm32f103).Reachable σ ∧ σ.RefusesWrite .stm32f103 (.out (.ofBytes [])) ∧
      τ.Dispatches (.setup ⟨0xA1, 3, 0, 0, 6⟩) ⟨0xA1, 3, 0, 0, 6⟩ ∧
      ¬ (poll .stm32f103 τ (.setup ⟨0xA1, 3, 0, 0, 6⟩)).ReportsError := by
  have hok : (poll .stm32f103 (poll .stm32f103 ((machine .stm32f103).run (Dev.fresh fun _ => 0xff)
      eraseBootDue) (.out (.ofBytes []))) (.setup ⟨0xA1, 3, 0, 0, 6⟩)).usbdControlBuffer 0 =
      dfuStatusOk := by
    decide +kernel
  refine ⟨TSys.Reachable.run (machine .stm32f103) (.init (Dev.fresh_boot fun _ => 0xff)) eraseBootDue,
    eraseBootDue_refused, ⟨rfl, .inr (by decide)⟩, ?_⟩
  intro hreport
  exact hreport.status hok

end LnDso
