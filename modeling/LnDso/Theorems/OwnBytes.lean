import LnDso.Logic.Dispatched
import LnDso.Logic.Pages
import LnDso.Theorems.Commands

/-!
# The bytes of a command

A command is parsed from `prog.buf`, of which a download writes its own bytes
only, and without a look at its length. So a SETADDR or an ERASE that is cut
short takes the rest of its operand from the download before.
-/

namespace LnDso

open Lib

variable {cfg : Config} {σ τ : Dev} {e : Event} {D : Download}

/-- From `σ` on the host starts the download `D`, and after `es` the event `e`
completes it: the DNBUSY branch runs, on `D`, for the first time. -/
structure Delivers (cfg : Config) (D : Download) (σ : Dev) (es : List Event) (e : Event) : Prop where
  starts : ∃ i, es.head? = some (.setup (D.request i))
  first : σ.Records Call.NotDnbusy ((machine cfg).run σ es)
  holds : ((machine cfg).run σ es).dfu.prog.Holds D
  completes : ((machine cfg).run σ es).RunsDnbusy (poll cfg ((machine cfg).run σ es) e)

/-- What the download does to address pointer and flash is the same in any two
runs that start it with the same pointer and the same flash. -/
def UsesOwnBytes (cfg : Config) (D : Download) : Prop :=
  ∀ {σ τ : Dev} {es es' : List Event} {e e' : Event}, (machine cfg).Reachable σ →
    (machine cfg).Reachable τ → Delivers cfg D σ es e → Delivers cfg D τ es' e' →
    τ.dfu.prog.addr = σ.dfu.prog.addr → τ.flash.mem = σ.flash.mem →
    let σ' := poll cfg ((machine cfg).run σ es) e
    let τ' := poll cfg ((machine cfg).run τ es') e'
    τ'.dfu.prog.addr = σ'.dfu.prog.addr ∧ τ'.flash.mem = σ'.flash.mem

/-- The command is whole, or it is no SETADDR and no ERASE that could pass the
address check, whatever completes its operand. -/
def Download.SelfContained (cfg : Config) (D : Download) : Prop :=
  5 ≤ D.bytes.length ∨ D.bytes.head? ≠ some cmdSetaddr ∧
    ∀ a : Word, D.bytes <+: cmdErase :: operandBytes a → eraseGuard cfg a = false

/-! ## Self-contained commands -/

/-- The first bytes of a block are those of its download. -/
theorem Prog.Holds.head {p : Prog} (h : p.Holds D) : D.bytes.head? = some (p.buf 0) := by
  have hpos := D.pos
  rw [List.head?_eq_getElem?, List.getElem?_eq_getElem hpos]
  exact congrArg some (h.byte (List.getElem?_eq_getElem hpos)).symm

/-- A cut command is the beginning of the command that its block shows. -/
theorem Prog.Holds.begins_operand {p : Prog} (h : p.Holds D) (hshort : D.bytes.length ≤ 5) :
    D.bytes <+: p.buf 0 :: operandBytes p.operand := by
  have hbytes : p.buf 0 :: operandBytes p.operand = p.buf.read 0 5 := by
    unfold operandBytes Prog.operand Mem.word
    rw [Word.bytes_ofBytes]
    rfl
  rw [hbytes, List.prefix_iff_eq_take]
  apply List.ext_getElem?
  intro i
  rw [List.getElem?_take, Mem.getElem?_read]
  split
  · next hi =>
    rw [if_pos (by omega), Nat.zero_add, List.getElem?_eq_getElem hi]
    exact congrArg some (h.byte (List.getElem?_eq_getElem hi)).symm
  · next hi => exact List.getElem?_eq_none (Nat.not_lt.mp hi)

/-- What a self-contained command does depends on the pointer and the cells only. -/
theorem SelfContained.next_congr (hbuild : cfg.enableSafewrite = false) (hzero : D.blocknum = 0)
    (hself : D.SelfContained cfg) {d d' : Dfu} (h : d.prog.Holds D) (h' : d'.prog.Holds D)
    (haddr : d'.prog.addr = d.prog.addr) (m : Nor.Cells 32) :
    d'.nextAddr = d.nextAddr ∧ dnbusyCells cfg d' m = dnbusyCells cfg d m := by
  have hfirst : d'.prog.buf 0 = d.prog.buf 0 := Option.some.inj (h'.head.symm.trans h.head)
  have hblock := h.blocknum.trans hzero
  have hblock' := h'.blocknum.trans hzero
  have hwipe : ∀ erased, wipedCells cfg erased m = m := by
    intro erased
    rw [wipedCells, hbuild]
    rfl
  unfold Dfu.nextAddr dnbusyCells commandCells
  dsimp only
  rw [hwipe, hwipe, hblock, hblock', hfirst, haddr]
  by_cases hwhole : 5 ≤ D.bytes.length
  · have hoperand : d'.prog.operand = d.prog.operand := by
      have hbyte : ∀ i < 5, d'.prog.buf i = d.prog.buf i := by
        intro i hi
        have hget := List.getElem?_eq_getElem (l := D.bytes) (i := i) (by omega)
        exact (h'.byte hget).trans (h.byte hget).symm
      unfold Prog.operand Mem.word
      rw [hbyte 1 (by omega), hbyte 2 (by omega), hbyte 3 (by omega), hbyte 4 (by omega)]
    rw [hoperand]
    exact ⟨rfl, rfl⟩
  · obtain ⟨hset, herase⟩ := hself.resolve_left hwhole
    have hcut : D.bytes.length ≤ 5 := by omega
    have hno : d.prog.buf 0 ≠ cmdSetaddr := by
      intro hcmd
      rw [h.head, hcmd] at hset
      exact hset rfl
    refine ⟨?_, ?_⟩
    · rw [if_neg fun hc => hno hc.2, if_neg fun hc => hno hc.2]
    · rw [if_pos rfl, if_pos rfl]
      by_cases hcmd : d.prog.buf 0 = cmdErase
      · have hguard := herase d.prog.operand (hcmd ▸ h.begins_operand hcut)
        have hguard' := herase d'.prog.operand ((hfirst.trans hcmd) ▸ h'.begins_operand hcut)
        rw [hguard, hguard', if_neg Bool.false_ne_true, if_neg Bool.false_ne_true]
      · rw [if_neg hcmd, if_neg hcmd]

/-- The run of a delivery leaves the pointer and the cells to its DNBUSY run. -/
theorem Delivers.applies {es : List Event} (h : Delivers cfg D σ es e)
    (hσ : (machine cfg).Reachable σ) :
    ∃ d : Dfu, d.prog.Holds D ∧ d.prog.addr = σ.dfu.prog.addr ∧
      d = ((machine cfg).run σ es).dfu ∧
      (poll cfg ((machine cfg).run σ es) e).dfu.prog.addr = d.nextAddr ∧
      (poll cfg ((machine cfg).run σ es) e).flash.mem = dnbusyCells cfg d σ.flash.mem := by
  have hsound : ((machine cfg).run σ es).Sound :=
    sound_invariant cfg _ (TSys.Reachable.run (machine cfg) hσ es)
  obtain ⟨haddr, hmem⟩ := run_kept (sound_invariant cfg σ hσ) h.first
  have happlied := poll_applies hsound h.completes
  refine ⟨_, h.holds, haddr, rfl, happlied.addr, ?_⟩
  rw [happlied.flash.mem, hmem]

theorem SelfContained.usesOwnBytes (hbuild : cfg.enableSafewrite = false) (hzero : D.blocknum = 0)
    (hself : D.SelfContained cfg) : UsesOwnBytes cfg D := by
  intro σ τ es es' e e' hσ hτ h h' haddr hmem
  obtain ⟨d, hholds, hd, -, hnext, hcells⟩ := h.applies hσ
  obtain ⟨d', hholds', hd', -, hnext', hcells'⟩ := h'.applies hτ
  obtain ⟨hpointer, hflash⟩ := SelfContained.next_congr hbuild hzero hself hholds hholds'
    (hd'.trans (haddr.trans hd.symm)) σ.flash.mem
  refine ⟨?_, ?_⟩
  · rw [hnext, hnext', hpointer]
  · rw [hcells, hcells', hmem, hflash]

/-! ## A delivery in six events -/

/-- A download of one packet and the GETSTATUS that completes it, up to the last event. -/
def delivery (D : Download) : List Event :=
  [.setup (D.request 0), .out (.ofBytes D.bytes), .inDone, .setup (getstatusRequest 0 0 6), .inDone]

/-- A poll outside dfuDNBUSY does not run the branch. -/
theorem poll_notDnbusy_of_state (cfg : Config) (h : σ.Sound) (hs : σ.dfu.usbdfuState ≠ .dfuDnbusy)
    (e : Event) : σ.Records Call.NotDnbusy (poll cfg σ e) :=
  poll_notDnbusy h fun hrun => hs (poll_applies h hrun).state

/-- The packet of the status stage runs the branch that is due. -/
theorem answered_runs {I : List Download → Store → Prop} {done : List Download}
    (h : Follows I (.answered done D) σ) (htidy : σ.Tidy) (pkt : Packet) :
    σ.RunsDnbusy (poll cfg σ (.out pkt)) := by
  obtain ⟨hfsm, hdue⟩ := h
  obtain ⟨τ, P, istr, -, hdfu, -, hcalls, -, hpoll⟩ :=
    poll_statusOut cfg htidy.noReset hfsm hdue.cb pkt
  have hstate : τ.dfu.usbdfuState = .dfuDnbusy := by
    rw [hdfu]
    exact hdue.state
  refine ⟨[.complete .statusOut, .dnbusy τ.dfu.prog.block], τ.dfu.prog.block, ?_, by simp⟩
  rw [hpoll]
  show (usbdfuGetstatusComplete cfg τ).calls = _
  rw [usbdfuGetstatusComplete_calls, if_pos hstate, hcalls]
  simp

theorem delivery_delivers (h : σ.Sound) (hs : σ.dfu.usbdfuState ≠ .dfuDnbusy)
    (hshort : D.bytes.length ≤ 64) : Delivers cfg D σ (delivery D) (.out (.ofBytes [])) := by
  let I : List Download → Store → Prop := fun _ _ => True
  have hbytes : (Packet.ofBytes D.bytes).bytes = D.bytes := List.take_of_length_le (by omega)
  -- the states after each of the five events
  let σ₁ := poll cfg σ (.setup (D.request 0))
  let σ₂ := poll cfg σ₁ (.out (.ofBytes D.bytes))
  let σ₃ := poll cfg σ₂ .inDone
  let σ₄ := poll cfg σ₃ (.setup (getstatusRequest 0 0 6))
  let σ₅ := poll cfg σ₄ .inDone
  have h₁ : σ₁.Sound := h.poll cfg _
  have h₂ : σ₂.Sound := h₁.poll cfg _
  have h₃ : σ₃.Sound := h₂.poll cfg _
  have h₄ : σ₄.Sound := h₃.poll cfg _
  obtain ⟨hsending, hdfu⟩ : Follows I (.sending [] D 0) σ₁ ∧ σ₁.dfu = σ.dfu :=
    start_sending ⟨h.idle, trivial⟩ h.tidy D 0
  have hsent : Follows I (.sent [] D) σ₂ := last_follows hsending (by omega) hbytes
  have hwait : Follows I (.sent [] D) σ₃ := poll_stays (waiting_stable cfg I _ _) h₂.tidy hsent trivial
  have hasked : Follows I (.asked [] D) σ₄ := ask_follows hwait h₃.tidy (by decide)
  have hanswered : Follows I (.answered [] D) σ₅ := read_follows hasked
  have hsync : ∀ {τ : Dev}, Follows I (.sent [] D) τ → τ.dfu.usbdfuState ≠ .dfuDnbusy := by
    intro τ hτ
    rw [hτ.holds.1]
    simp
  have hlast : σ₄.Records Call.NotDnbusy σ₅ := by
    refine poll_notDnbusy h₄ fun hrun => ?_
    obtain ⟨stage, hcompletes⟩ := poll_dnbusy_completes h₄ hrun
    have hfsm := hcompletes.fsm.symm.trans hasked.2.1
    rcases hcompletes.status with rfl | rfl <;> cases hfsm
  refine ⟨⟨0, rfl⟩, ?_, hanswered.2.holds, answered_runs hanswered (h₄.poll cfg _).tidy _⟩
  have hfirst : σ.Records Call.NotDnbusy σ₂ := (poll_notDnbusy_of_state cfg h hs _).trans
    (poll_notDnbusy_of_state cfg h₁ (by rw [hdfu]; exact hs) _)
  exact ((hfirst.trans (poll_notDnbusy_of_state cfg h₂ (hsync hsent) _)).trans
    (poll_notDnbusy_of_state cfg h₃ (hsync hwait) _)).trans hlast

/-! ## What a download leaves of the one before -/

/-- A download of data has at most `n` bytes. -/
def UsbSetupData.DownloadsUpTo (n : Nat) (r : UsbSetupData) : Prop :=
  r.dfuReq? = some .dnload → r.wLength.toNat ≤ n

theorem dfuDnload_above {n k : Nat} (hle : σ.pipe.datasize.toNat ≤ n) (hk : n ≤ k) :
    (dfuDnload σ).dfu.prog.buf k = σ.dfu.prog.buf k := by
  unfold dfuDnload
  split
  · rfl
  · let len : Half :=
      if 1024 < σ.pipe.datasize then BitVec.ofNat 16 dfuTransferSize else σ.pipe.datasize
    have hlen : len.toNat ≤ n := by
      show BitVec.toNat (ite _ _ _) ≤ n
      split
      · next hbig =>
        have hlt : 1024 < σ.pipe.datasize.toNat := hbig
        show 1024 ≤ n
        omega
      · exact hle
    show σ.dfu.prog.buf.write 0 (σ.usbdControlBuffer.read 0 len.toNat) k = _
    apply Mem.write_above
    rw [Mem.length_read]
    omega

theorem dnbusy_buf (cfg : Config) (σ : Dev) : (dnbusy cfg σ).dfu.prog.buf = σ.dfu.prog.buf := by
  have hwipe : (safewriteErase cfg σ).dfu.prog.buf = σ.dfu.prog.buf :=
    congrArg Prog.buf (safewriteErase_prog σ)
  unfold dnbusy
  split
  · rw [dnbusyCommand_dfu]
    split
    · exact hwipe
    · split <;> rfl
  · rw [dnbusyBlock_dfu]
    exact hwipe

/-- Downloads of at most `n` bytes leave the rest of the buffer. -/
theorem above_stable (cfg : Config) (n : Nat) (buf : Mem) :
    Stable cfg (UsbSetupData.DownloadsUpTo n) fun d _ => ∀ k, n ≤ k → d.prog.buf k = buf k where
  request {σ} hclass hle h := by
    unfold usbdfuControlRequest
    split
    · next hreq =>
      intro k hk
      have hlen := hle (UsbSetupData.dfuReq?_eq_some.mpr ⟨hclass, hreq⟩)
      exact (dfuDnload_above (σ := σ.toHandler) hlen hk).trans (h k hk)
    · dsimp only
      split
      · exact h
      · exact h
    · exact h
    · exact h
    · dsimp only
      rw [(dfuUpload_dfu cfg σ.toHandler).1]
      exact h
    · exact h
    · exact h
    · exact h
  complete {σ} h := by
    by_cases hs : σ.dfu.usbdfuState = .dfuDnbusy
    · rw [usbdfuGetstatusComplete_dnbusy hs, Dev.setDfuState_dfu]
      dsimp only
      rw [dnbusy_buf]
      exact h
    · rw [usbdfuGetstatusComplete_else hs]
      exact h

/-- An event of a delivery downloads no more than its own bytes. -/
theorem delivery_brings : ∀ e ∈ delivery D, e.Brings (UsbSetupData.DownloadsUpTo D.bytes.length) := by
  intro e he
  simp only [delivery, List.mem_cons, List.not_mem_nil, or_false] at he
  rcases he with rfl | rfl | rfl | rfl | rfl
  · intro _
    exact Nat.le_of_eq (D.request_wLength 0)
  · trivial
  · trivial
  · intro hdnload
    cases (UsbSetupData.dfuReq?_eq_some.mp hdnload).2
  · trivial

theorem run_stays {Q : UsbSetupData → Prop} {P : Dfu → Flash → Prop} (hstable : Stable cfg Q P)
    (htidy : σ.Tidy) (h : σ.Stays Q P) {es : List Event} (hes : ∀ e ∈ es, e.Brings Q) :
    ((machine cfg).run σ es).Stays Q P := by
  induction es generalizing σ with
  | nil => exact h
  | cons e es ih =>
      exact ih (poll_tidy cfg htidy e) (poll_stays hstable htidy h (hes e List.mem_cons_self))
        fun x hx => hes x (List.mem_cons_of_mem e hx)

/-- A download that leaves the operand `a` in the buffer, behind a byte that is
no command. -/
def fill (a : Word) : Download :=
  ⟨0, 0 :: operandBytes a, List.length_pos_of_ne_nil (List.cons_ne_nil 0 (operandBytes a)),
    Nat.le_add_left 5 1019⟩

/-- The download sent, and not completed. -/
def filling (a : Word) : List Event :=
  [.reset, .setup ((fill a).request 0), .out (.ofBytes (fill a).bytes)]

theorem filling_sent (cfg : Config) {I : List Download → Store → Prop} (h : σ.Sound)
    (hclean : Clean I [] σ.dfu σ.flash) (a : Word) :
    Follows I (.sent [] (fill a)) ((machine cfg).run σ (filling a)) := by
  have hreset : poll cfg σ .reset = pollReset (σ.onBus .reset) := poll_reset h.tidy.noReset
  have hclean' : Clean I [] (poll cfg σ .reset).dfu (poll cfg σ .reset).flash := by
    rw [hreset]
    exact hclean
  have hsending : Follows I (.sending [] (fill a) 0)
      (poll cfg (poll cfg σ .reset) (.setup ((fill a).request 0))) :=
    (start_sending hclean' (h.poll cfg .reset).tidy (fill a) 0).1
  have hlen : (fill a).bytes.length = 5 := rfl
  have hbytes : (Packet.ofBytes (fill a).bytes).bytes = (fill a).bytes :=
    List.take_of_length_le (by rw [hlen]; decide)
  exact last_follows hsending (by rw [hlen]; decide) hbytes

/-- A cut command delivered after `fill a` has the operand `a`, if it can. -/
theorem delivery_after_fill {I : List Download → Store → Prop} (hreach : (machine cfg).Reachable σ)
    {a : Word} (hsent : Follows I (.sent [] (fill a)) σ) {c : Byte}
    (hext : D.bytes <+: c :: operandBytes a) :
    Delivers cfg D σ (delivery D) (.out (.ofBytes [])) ∧
      ((machine cfg).run σ (delivery D)).dfu.prog.operand = a := by
  have hsound := sound_invariant cfg σ hreach
  obtain ⟨hsync, hfill, -⟩ := hsent.holds
  have hshort : D.bytes.length ≤ 5 := hext.length_le
  have hdelivers : Delivers cfg D σ (delivery D) (.out (.ofBytes [])) :=
    delivery_delivers hsound (by rw [hsync]; simp) (by omega)
  refine ⟨hdelivers, ?_⟩
  have hquiet : ∀ r : UsbSetupData, r.Quiet → r.DownloadsUpTo D.bytes.length := by
    intro r hr hdnload
    obtain ⟨hclass, hreq⟩ := UsbSetupData.dfuReq?_eq_some.mp hdnload
    rcases hr hclass with hq | hq | hq <;> cases hreq.symm.trans hq
  have hstays := run_stays (above_stable cfg D.bytes.length σ.dfu.prog.buf) hsound.tidy
    ⟨fun _ _ => rfl, fun hmore => hquiet _ (hsent.more hmore), fun hlast => hquiet _ (hsent.last hlast)⟩
    (delivery_brings (D := D))
  -- every byte of the operand, of the command or of the fill
  have hbyte : ∀ {i : Nat} {b : Byte}, (c :: operandBytes a)[i + 1]? = some b →
      ((machine cfg).run σ (delivery D)).dfu.prog.buf (i + 1) = b := by
    intro i b hb
    obtain ⟨l, hl⟩ := hext
    by_cases hi : i + 1 < D.bytes.length
    · rw [← hl, List.getElem?_append_left hi] at hb
      exact hdelivers.holds.byte hb
    · rw [hstays.holds _ (Nat.not_lt.mp hi)]
      exact hfill.byte hb
  unfold Prog.operand Mem.word
  rw [hbyte (i := 0) rfl, hbyte (i := 1) rfl, hbyte (i := 2) rfl, hbyte (i := 3) rfl]
  exact Word.ofBytes_byte a

/-- Two operands that complete a cut command come to the same, if it uses its own
bytes only. -/
theorem UsesOwnBytes.operands (h : UsesOwnBytes cfg D) (m : Nor.Cells 32) {c : Byte} {a b : Word}
    (ha : D.bytes <+: c :: operandBytes a) (hb : D.bytes <+: c :: operandBytes b) :
    ∃ d d' : Dfu, d.prog.Holds D ∧ d'.prog.Holds D ∧ d.prog.operand = a ∧ d'.prog.operand = b ∧
      d'.nextAddr = d.nextAddr ∧ dnbusyCells cfg d' m = dnbusyCells cfg d m := by
  obtain ⟨σ₀, hboot, hmem₀⟩ : ∃ σ₀ : Dev, σ₀.Boot ∧ σ₀.flash.mem = m :=
    ⟨Dev.fresh m, Dev.fresh_boot m, rfl⟩
  have hsound := sound_invariant cfg _ (.init hboot)
  have hclean : Clean (fun _ s => s.addr = 0 ∧ s.cells = m) [] σ₀.dfu σ₀.flash :=
    ⟨hsound.idle, hboot.addr, hmem₀⟩
  have hfill : ∀ a, (machine cfg).Reachable ((machine cfg).run σ₀ (filling a)) :=
    fun a => TSys.Reachable.run (machine cfg) (.init hboot) (filling a)
  have hsent := filling_sent cfg hsound hclean a
  have hsent' := filling_sent cfg hsound hclean b
  obtain ⟨hdelivers, hoperand⟩ := delivery_after_fill (hfill a) hsent ha
  obtain ⟨hdelivers', hoperand'⟩ := delivery_after_fill (hfill b) hsent' hb
  obtain ⟨-, -, -, haddr, hmem⟩ := hsent.holds
  obtain ⟨-, -, -, haddr', hmem'⟩ := hsent'.holds
  obtain ⟨d, hholds, -, rfl, hnext, hcells⟩ := hdelivers.applies (hfill a)
  obtain ⟨d', hholds', -, rfl, hnext', hcells'⟩ := hdelivers'.applies (hfill b)
  obtain ⟨hpointer, hflash⟩ := h (hfill a) (hfill b) hdelivers hdelivers' (haddr'.trans haddr.symm)
    (hmem'.trans hmem.symm)
  refine ⟨_, _, hholds, hholds', hoperand, hoperand', ?_, ?_⟩
  · rw [← hnext, ← hnext']
    exact hpointer
  · rw [hcells, hcells'] at hflash
    rw [show (Dev.flash _).mem = m from hmem, show (Dev.flash _).mem = m from hmem'] at hflash
    exact hflash

/-- A SETADDR that is cut short takes the last byte of the address from the fill. -/
theorem not_usesOwnBytes_setaddr (hzero : D.blocknum = 0) (hcmd : D.bytes.head? = some cmdSetaddr)
    (hcut : D.bytes.length < 5) : ¬ UsesOwnBytes cfg D := by
  intro h
  obtain ⟨l, hl⟩ := List.head?_eq_some_iff.mp hcmd
  have hext : ∀ t, D.bytes <+: cmdSetaddr :: operandBytes (Word.ofBytes (l.getD 0 0) (l.getD 1 0)
      (l.getD 2 0) t) := by
    intro t
    rw [hl, List.length_cons] at hcut
    unfold operandBytes
    rw [hl, Word.bytes_ofBytes, List.prefix_cons_inj]
    rcases l with _ | ⟨b₀, _ | ⟨b₁, _ | ⟨b₂, l⟩⟩⟩
    · exact List.nil_prefix
    · exact ⟨[0, 0, t], rfl⟩
    · exact ⟨[0, t], rfl⟩
    · obtain rfl : l = [] := by
        simp only [List.length_cons] at hcut
        exact List.eq_nil_of_length_eq_zero (by omega)
      exact ⟨[t], rfl⟩
  obtain ⟨d, d', hd, hd', hop, hop', hsame, -⟩ := h.operands (fun _ => 0) (hext 0) (hext 1)
  have hset : ∀ {d : Dfu}, d.prog.Holds D → d.nextAddr = d.prog.operand := by
    intro d hd
    have hfirst : d.prog.buf 0 = cmdSetaddr := Option.some.inj (hd.head.symm.trans hcmd)
    exact if_pos ⟨hd.blocknum.trans hzero, hfirst⟩
  rw [hset hd, hset hd', hop, hop'] at hsame
  have hbytes := congrArg operandBytes hsame
  unfold operandBytes at hbytes
  rw [Word.bytes_ofBytes, Word.bytes_ofBytes] at hbytes
  simp at hbytes

/-- An ERASE that is cut short erases a page or not, by the last byte of the fill. -/
theorem not_usesOwnBytes_erase (hbuild : cfg.enableSafewrite = false) (hzero : D.blocknum = 0)
    (hcut : D.bytes.length < 5) {a : Word} (hext : D.bytes <+: cmdErase :: operandBytes a)
    (hguard : eraseGuard cfg a = true) : ¬ UsesOwnBytes cfg D := by
  intro h
  let b := Word.ofBytes (Word.byte a 0) (Word.byte a 1) (Word.byte a 2) 0
  have hext' : D.bytes <+: cmdErase :: operandBytes b := by
    have hfour : D.bytes <+: [cmdErase, Word.byte a 0, Word.byte a 1, Word.byte a 2] :=
      List.prefix_of_prefix_length_le hext ⟨[Word.byte a 3], rfl⟩ (Nat.lt_succ_iff.mp hcut)
    refine hfour.trans ?_
    unfold operandBytes
    rw [Word.bytes_ofBytes]
    exact ⟨[0], rfl⟩
  have hrefused : eraseGuard cfg b = false := by
    have hb : b.toNat < 2 ^ 24 := by
      have h0 := (Word.byte a 0).isLt
      have h1 := (Word.byte a 1).isLt
      have h2 := (Word.byte a 2).isLt
      show (Word.ofBytes _ _ _ 0).toNat < _
      rw [Word.ofBytes, BitVec.toNat_ofNat]
      exact Nat.lt_of_le_of_lt (Nat.mod_le _ _) (by simp; omega)
    have hstart := cfg.addr_bounds.1
    refine Bool.eq_false_iff.mpr fun hpass => ?_
    have hlo := ((addrGuard_iff cfg b _).mp hpass).1
    omega
  obtain ⟨d, d', hd, hd', hop, hop', -, hsame⟩ := h.operands (fun _ => 0x55) hext hext'
  have hcells : ∀ {d : Dfu} {m : Nor.Cells 32}, d.prog.Holds D → dnbusyCells cfg d m =
      if eraseGuard cfg d.prog.operand then Nor.ensureErased flashPageSize m d.prog.operand
      else m := by
    intro d m hd
    have hfirst : d.prog.buf 0 = cmdErase := by
      have hhead := hd.begins_operand (Nat.le_of_lt hcut)
      obtain ⟨l, hl⟩ := hext
      obtain ⟨l', hl'⟩ := hhead
      have hpos := D.pos
      have h0 := congrArg (·[0]?) hl
      have h0' := congrArg (·[0]?) hl'
      rw [List.getElem?_append_left hpos] at h0 h0'
      exact (Option.some.inj (h0'.symm.trans h0))
    have hwipe : wipedCells cfg d.erased m = m := by
      rw [wipedCells, hbuild]
      rfl
    unfold dnbusyCells commandCells
    dsimp only
    rw [if_pos (hd.blocknum.trans hzero), if_pos hfirst, hwipe]
  rw [hcells hd, hcells hd', hop, hop', hguard, hrefused] at hsame
  have hcell := congrFun hsame a
  rw [if_neg Bool.false_ne_true, if_pos rfl, Nor.ensureErased, if_neg, Nor.erasePage_same rfl] at hcell
  · exact absurd hcell (by decide)
  · intro hblank
    have hff : (0x55 : Byte) = 0xff := hblank 0 (by decide)
    exact absurd hff (by decide)

/-- **A command uses only its own bytes just if they are enough.** Without
ENABLE_SAFEWRITE, what a command does to address pointer and flash is
independent of earlier downloads exactly for the payloads that hold a whole
command, no SETADDR and no ERASE, or an ERASE that no operand makes pass. -/
theorem usesOwnBytes_iff (cfg : Config) (hbuild : cfg.enableSafewrite = false) (D : Download)
    (hzero : D.blocknum = 0) : UsesOwnBytes cfg D ↔ D.SelfContained cfg := by
  constructor
  · intro h
    refine or_iff_not_imp_left.mpr fun hwhole => ⟨fun hcmd => ?_, fun a hext => ?_⟩
    · exact not_usesOwnBytes_setaddr hzero hcmd (Nat.not_le.mp hwhole) h
    · refine Bool.eq_false_iff.mpr fun hguard => ?_
      exact not_usesOwnBytes_erase hbuild hzero (Nat.not_le.mp hwhole) hext hguard h
  · exact SelfContained.usesOwnBytes hbuild hzero

/-- SETADDR to the first page of the application. -/
theorem usesOwnBytes_setaddr :
    UsesOwnBytes .stm32f103 (FlashCmd.setaddr 0x08002000).download :=
  (usesOwnBytes_iff .stm32f103 rfl _ rfl).mpr
    (.inl (show 5 ≤ (FlashCmd.setaddr 0x08002000).download.bytes.length from Nat.le_refl 5))

/-- SETADDR without an address. -/
def cutSetaddr : Download := ⟨0, [cmdSetaddr], Nat.succ_pos _, Nat.le_add_left 1 1023⟩

/-- Its address is what an earlier download has left. -/
theorem cutSetaddr_takes_fill : ¬ UsesOwnBytes .stm32f103 cutSetaddr :=
  not_usesOwnBytes_setaddr rfl rfl (show 1 < 5 by decide)

end LnDso
