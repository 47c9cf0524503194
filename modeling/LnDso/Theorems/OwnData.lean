import LnDso.Logic.Effects
import LnDso.Theorems.Downloads

/-!
# Blocks and their own data stage

DFU_DNLOAD copies the control buffer, without a look at the direction of the
transfer. After an OUT data stage the buffer holds the bytes of that stage; a
DFU_DNLOAD that asks for an IN data stage is dispatched at its SETUP, on what
the last request left behind.
-/

namespace LnDso

open Lib

variable {cfg : Config} {σ : Dev}

/-- A DFU_DNLOAD with a length, sent as a read. -/
def Event.DnloadIn : Event → Prop
  | .setup p => p.DirIn ∧ p.ClassInterface ∧ DfuReq.ofByte p.bRequest = some .dnload ∧ p.wLength ≠ 0
  | _ => False

/-- A block that is accepted holds the bytes `t` brought, all of them. -/
def Transfer.Supplies (t : Transfer) (c : Call) : Prop :=
  ∀ b, c = .dnload b → b.data = t.data ∧ b.len.toNat = t.data.length

/-- Every block accepted in the run holds the bytes of its own data stage. -/
def OwnData (cfg : Config) (σ : Dev) (es : List Event) : Prop :=
  ∀ pre e, pre ++ [e] <+: es → ((machine cfg).run σ pre).Records (transfer (pre ++ [e])).Supplies
    (poll cfg ((machine cfg).run σ pre) e)

/-! ## The calls of a dispatch -/

/-- No block is accepted. -/
def Call.NoBlock (c : Call) : Prop := ∀ b, c ≠ .dnload b

theorem Call.NoBlock.supplies {c : Call} (h : c.NoBlock) (t : Transfer) : t.Supplies c :=
  fun b hc => absurd hc (h b)

theorem Call.Plain.noBlock {c : Call} (h : c.Plain) : c.NoBlock := by
  rintro b rfl
  exact h

theorem dfuUpload_noBlock (σ : Dev) : σ.Records Call.NoBlock (dfuUpload cfg σ) := by
  unfold dfuUpload dfuUploadBlock
  dsimp only
  split
  · exact .of_eq rfl
  split
  · split
    · exact .one rfl (by simp [Call.NoBlock])
    · exact .of_eq rfl
  · exact .of_eq rfl

theorem usbdfuControlRequest_noBlock
    (h : DfuReq.ofByte σ.pipe.usbReq.bRequest = some .dnload → σ.pipe.datasize = 0) :
    σ.Records Call.NoBlock (usbdfuControlRequest cfg σ).2 := by
  unfold usbdfuControlRequest
  split
  · next hreq =>
    dsimp only
    rw [dfuDnload, if_pos (h hreq)]
    exact .of_eq rfl
  · dsimp only
    split <;> exact .of_eq rfl
  · exact .of_eq rfl
  · exact .of_eq rfl
  · exact dfuUpload_noBlock σ
  · exact .one rfl (by simp [Call.NoBlock])
  · exact .of_eq rfl
  · exact .of_eq rfl

/-- Only DFU_DNLOAD with a length accepts a block. -/
theorem dispatch_noBlock (h : σ.pipe.usbReq.ClassInterface →
      DfuReq.ofByte σ.pipe.usbReq.bRequest = some .dnload → σ.pipe.usbReq.wLength = 0) :
    σ.Records Call.NoBlock (usbControlRequestDispatch cfg σ).2 := by
  have hcall : σ.Records Call.NoBlock (σ.call (.dispatch σ.pipe.usbReq σ.usbdControlBuffer)) :=
    .one rfl (by simp [Call.NoBlock])
  by_cases hclass : σ.pipe.usbReq.ClassInterface
  · have hhandler : σ.Records Call.NoBlock σ.toHandler := hcall
    cases hreq : DfuReq.ofByte σ.pipe.usbReq.bRequest with
    | none =>
        rw [usbControlRequestDispatch_unknown hclass hreq]
        exact hhandler
    | some r =>
        rw [usbControlRequestDispatch_class hclass hreq]
        exact hhandler.trans (usbdfuControlRequest_noBlock fun hdn => h hclass hdn)
  · rw [usbControlRequestDispatch_pass hclass]
    exact hcall.trans (.of_eq (usbdStandardRequest_same cfg _).calls)

/-- DFU_DNLOAD with a length accepts what the control buffer holds. -/
theorem dispatch_dnload (cfg : Config) (hclass : σ.pipe.usbReq.ClassInterface)
    (hreq : DfuReq.ofByte σ.pipe.usbReq.bRequest = some .dnload) (hw : σ.pipe.usbReq.wLength ≠ 0) :
    ∃ b : Block, b.len.toNat = min dfuTransferSize σ.pipe.usbReq.wLength.toNat ∧
      b.data = σ.usbdControlBuffer.read 0 b.len.toNat ∧
      (usbControlRequestDispatch cfg σ).2.calls =
        σ.calls ++ [.dispatch σ.pipe.usbReq σ.usbdControlBuffer, .dnload b] := by
  rw [usbControlRequestDispatch_dnload hclass hreq]
  have hsize : σ.toHandler.pipe.datasize = σ.pipe.usbReq.wLength := rfl
  unfold dfuDnload
  rw [if_neg (hsize ▸ hw)]
  dsimp only
  let len : Half := if 1024 < σ.pipe.usbReq.wLength then BitVec.ofNat 16 dfuTransferSize
    else σ.pipe.usbReq.wLength
  have hlen : len.toNat = min dfuTransferSize σ.pipe.usbReq.wLength.toNat := by
    show (if 1024 < σ.pipe.usbReq.wLength then _ else _ : Half).toNat = _
    split
    · next hlt => exact (Nat.min_eq_left (Nat.le_of_lt hlt)).symm
    · next hle => exact (Nat.min_eq_right (Nat.not_lt.mp hle)).symm
  refine ⟨⟨σ.pipe.usbReq.wValue, len, σ.usbdControlBuffer.read 0 len.toNat⟩, hlen, rfl, ?_⟩
  have hread : (σ.dfu.prog.buf.write 0 (σ.usbdControlBuffer.read 0 len.toNat)).read 0 len.toNat =
      σ.usbdControlBuffer.read 0 len.toNat := by
    have hself := Mem.read_write σ.dfu.prog.buf 0 (σ.usbdControlBuffer.read 0 len.toNat)
    rw [Mem.length_read] at hself
    exact hself
  show σ.calls ++ [_] ++ [Call.dnload ⟨_, len, Mem.read _ 0 len.toNat⟩] = _
  rw [List.append_assoc]
  exact congrArg (fun d => σ.calls ++ [Call.dispatch _ _, Call.dnload ⟨_, len, d⟩]) hread

/-! ## One poll -/

/-- The last packet of a data stage completes the bytes in the control buffer. -/
theorem Dev.Open.dispatched {t : Transfer} (h : σ.Open t) {pkt : Packet} {q : UsbSetupData}
    (hq : σ.Dispatches (.out pkt) q) :
    q = t.req ∧ (t.next (.out pkt)).data.length = q.wLength.toNat ∧
      (σ.stored (.out pkt)).read 0 q.wLength.toNat = (t.next (.out pkt)).data := by
  obtain ⟨rfl, hfsm, hle⟩ := hq
  have hlast := h.receiving.le_of_last hfsm
  have hmin := Nat.min_eq_right hlast
  have hlt := h.receiving.lt
  rw [h.receiving.usbReq, h.receiving.datasize] at hle
  obtain ⟨hlen, hread⟩ := h.stored (by rw [hmin]; exact hle)
  rw [hmin] at hlen hread
  have hall : (t.next (.out pkt)).data.length = t.req.wLength.toNat := by omega
  refine ⟨h.receiving.usbReq, ?_, ?_⟩
  · rw [h.receiving.usbReq]
    exact hall
  · rw [hall] at hread
    rw [Dev.stored, h.receiving.usbReq, h.receiving.datasize]
    exact hread

/-- The callback accepts no block. -/
theorem complete_noBlock (stage : UsbFsmState) (σ : Dev) :
    σ.Records Call.NoBlock (usbdfuGetstatusComplete cfg (σ.call (.complete stage))) := by
  have hcall : σ.Records Call.NoBlock (σ.call (.complete stage)) := .one rfl (by simp [Call.NoBlock])
  have hcalls := usbdfuGetstatusComplete_calls cfg (σ.call (.complete stage))
  split at hcalls
  · exact hcall.trans (.one hcalls (by simp [Call.NoBlock]))
  · exact hcall.trans (.of_eq hcalls)

/-- A poll that dispatches no DFU_DNLOAD with a length accepts no block. -/
theorem poll_noBlock {t : Transfer} {e : Event} {τ : Dev} (h : Effect cfg σ e τ)
    (hno : ∀ q, σ.Dispatches e q → q.ClassInterface →
      DfuReq.ofByte q.bRequest = some .dnload → q.wLength = 0) : σ.Records t.Supplies τ := by
  have hplain : ∀ {τ υ : Dev}, τ.Plumbed υ → τ.Records Call.NoBlock υ :=
    fun hpl => hpl.calls.mono fun c hc => hc.noBlock
  refine Dev.Records.mono (P := Call.NoBlock) (fun c hc => hc.supplies t) ?_
  cases h with
  | idle _ hpl => exact hplain hpl
  | dispatch hq hpl _ hpl' =>
      exact ((hplain hpl).trans (dispatch_noBlock (hno _ hq))).trans (hplain hpl')
  | complete _ _ hpl hpl' => exact ((hplain hpl).trans (complete_noBlock _ _)).trans (hplain hpl')

/-- A poll that dispatches DFU_DNLOAD with a length accepts the bytes it finds. -/
theorem poll_block {e : Event} {τ : Dev} (h : Effect cfg σ e τ) {q : UsbSetupData}
    (hq : σ.Dispatches e q) (hclass : q.ClassInterface)
    (hreq : DfuReq.ofByte q.bRequest = some .dnload) (hw : q.wLength ≠ 0) :
    ∃ (b : Block) (l l' : List Call), b.len.toNat = min dfuTransferSize q.wLength.toNat ∧
      b.data = (σ.stored e).read 0 b.len.toNat ∧ τ.calls = σ.calls ++ (l ++ .dnload b :: l') ∧
      ∀ c ∈ l ++ l', c.NoBlock := by
  cases h with
  | idle hno => exact absurd hq (hno q)
  | complete hno => exact absurd hq (hno q)
  | @dispatch ρ hq' hpl hbuf hpl' =>
      obtain rfl : q = ρ.pipe.usbReq := hq.unique hq'
      obtain ⟨b, hlen, hdata, hcalls⟩ := dispatch_dnload cfg hclass hreq hw
      obtain ⟨l, hl, hplain⟩ := hpl.calls
      obtain ⟨l', hl', hplain'⟩ := hpl'.calls
      refine ⟨b, l ++ [.dispatch ρ.pipe.usbReq ρ.usbdControlBuffer], l', hlen, ?_, ?_, ?_⟩
      · rw [hdata, hbuf]
      · rw [hl', hcalls, hl]
        simp
      · intro c hc
        rcases List.mem_append.mp hc with hc | hc
        · rcases List.mem_append.mp hc with hc | hc
          · exact (hplain c hc).noBlock
          · rw [List.mem_singleton.mp hc]
            simp [Call.NoBlock]
        · exact (hplain' c hc).noBlock

/-- A poll accepts only bytes of its own transfer, unless it brings an IN DFU_DNLOAD. -/
theorem poll_supplies (htidy : σ.Tidy) {t : Transfer} (h : σ.Tracks t) (e : Event) :
    σ.Records (t.next e).Supplies (poll cfg σ e) ↔ ¬ e.DnloadIn := by
  have heff := poll_effect cfg htidy h e
  constructor
  · intro hrec hin
    cases e with
    | setup p =>
        obtain ⟨hdir, hclass, hreq, hw⟩ := hin
        obtain ⟨b, l, l', hlen, -, hcalls, -⟩ := poll_block heff ⟨rfl, .inr hdir⟩ hclass hreq hw
        -- the transfer has no OUT data stage, but the block has a length
        obtain ⟨-, hzero⟩ := hrec.mem hcalls (by simp) b rfl
        have hpos : p.wLength.toNat ≠ 0 := fun h0 => hw (BitVec.eq_of_toNat_eq h0)
        have hz : b.len.toNat = 0 := hzero
        rw [dfuTransferSize] at hlen
        omega
    | _ => exact hin
  · intro hnot
    by_cases hdn : ∃ q, σ.Dispatches e q ∧ q.ClassInterface ∧
        DfuReq.ofByte q.bRequest = some .dnload ∧ q.wLength ≠ 0
    · obtain ⟨q, hq, hclass, hreq, hw⟩ := hdn
      obtain ⟨b, l, l', hlen, hdata, hcalls, hothers⟩ := poll_block heff hq hclass hreq hw
      cases e with
      | setup p =>
          obtain ⟨rfl, hdir⟩ := hq
          exact absurd ⟨hdir.resolve_left hw, hclass, hreq, hw⟩ hnot
      | out pkt =>
          have hopen : σ.Open t := h.resolve_left fun hno => hno.last hq.2.1
          obtain ⟨rfl, hall, hread⟩ := hopen.dispatched hq
          have hfit : t.req.wLength.toNat ≤ dfuTransferSize := hopen.fits
          rw [Nat.min_eq_right hfit] at hlen
          refine ⟨_, hcalls, fun c hc b' hb' => ?_⟩
          rw [List.append_cons, List.append_assoc] at hc
          rcases List.mem_append.mp hc with hc | hc
          · exact absurd hb' (hothers c (List.mem_append_left _ hc) b')
          rcases List.mem_append.mp hc with hc | hc
          · rw [List.mem_singleton.mp hc] at hb'
            obtain rfl := Call.dnload.inj hb'
            refine ⟨?_, hlen.trans hall.symm⟩
            rw [hdata, hlen]
            exact hread
          · exact absurd hb' (hothers c (List.mem_append_right _ hc) b')
      | _ => exact absurd hq not_false
    · refine poll_noBlock heff fun q hq hclass hreq => ?_
      by_contra hw
      exact hdn ⟨q, hq, hclass, hreq, hw⟩

/-! ## Every run -/

theorem transfer_snoc (es : List Event) (e : Event) :
    transfer (es ++ [e]) = (transfer es).next e := by
  rw [transfer, List.foldl_append]
  rfl

/-- In a run every accepted block holds the bytes of its own data stage just if
no DFU_DNLOAD with a length is sent as a read. -/
theorem dnload_own_data (cfg : Config) (σ : Dev) (hboot : σ.Boot) (es : List Event) :
    OwnData cfg σ es ↔ ∀ e ∈ es, ¬ e.DnloadIn := by
  have hstep : ∀ pre e, ((machine cfg).run σ pre).Records (transfer (pre ++ [e])).Supplies
      (poll cfg ((machine cfg).run σ pre) e) ↔ ¬ e.DnloadIn := by
    intro pre e
    obtain ⟨htidy, htracks⟩ := run_tracks cfg hboot pre
    rw [transfer_snoc]
    exact poll_supplies htidy htracks e
  constructor
  · intro hown e he
    obtain ⟨pre, post, rfl⟩ := List.append_of_mem he
    refine (hstep pre e).mp (hown pre e ⟨post, ?_⟩)
    simp
  · intro hno pre e hpre
    exact (hstep pre e).mpr (hno e (hpre.subset (by simp)))

/-- The rule on a run that accepts a block. -/
theorem dnload_own_data_oneBlock : OwnData .stm32f103 (Dev.fresh fun _ => 0xff) oneBlock :=
  (dnload_own_data .stm32f103 _ (Dev.fresh_boot _) oneBlock).mpr (by
    simp [oneBlock, Event.DnloadIn, UsbSetupData.DirIn, DfuReq.ofByte])

/-- A GETSTATUS, then a DFU_DNLOAD of six bytes sent as a read. -/
def dnloadIn : List Event := [.reset, .setup ⟨0xA1, 3, 0, 0, 6⟩, .setup ⟨0xA1, 1, 2, 0, 6⟩]

/-- The block that is accepted is the reply to GETSTATUS; no OUT packet was sent. -/
theorem dnloadIn_takes_reply :
    ¬ ∀ es, OwnData .stm32f103 (Dev.fresh fun _ => 0xff) es := by
  intro h
  have hrec := h dnloadIn [.reset, .setup ⟨0xA1, 3, 0, 0, 6⟩] (.setup ⟨0xA1, 1, 2, 0, 6⟩)
    (List.prefix_refl _)
  obtain ⟨l, hl, hsupplies⟩ := hrec
  have hblock : ((machine .stm32f103).run (Dev.fresh fun _ => 0xff) dnloadIn).calls[6]?.bind
      Call.block? = some ⟨2, 6, [0, 0, 0, 0, 2, 0]⟩ := by decide +kernel
  have hfour : ((machine .stm32f103).run (Dev.fresh fun _ => 0xff)
      [.reset, .setup ⟨0xA1, 3, 0, 0, 6⟩]).calls.length = 4 := by decide +kernel
  rw [show (machine .stm32f103).run (Dev.fresh fun _ => 0xff) dnloadIn = poll .stm32f103
    ((machine .stm32f103).run (Dev.fresh fun _ => 0xff) [.reset, .setup ⟨0xA1, 3, 0, 0, 6⟩])
    (.setup ⟨0xA1, 1, 2, 0, 6⟩) from rfl, hl, List.getElem?_append_right (by rw [hfour]; decide),
    hfour] at hblock
  obtain ⟨c, hget, hc⟩ := Option.bind_eq_some_iff.mp hblock
  have hdnload : c = .dnload ⟨2, 6, [0, 0, 0, 0, 2, 0]⟩ := by
    cases c <;> simp_all [Call.block?]
  have hdata := (hsupplies c (List.mem_of_getElem? hget) _ hdnload).1
  exact absurd hdata (by decide)

end LnDso
