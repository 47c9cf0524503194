import LnDso.Machine.FlashOps

/-!
# Flashing routines: what they log

`Logs Q` relates two flash states when every access between them satisfies `Q`
and cells change only where a logged erase or program hits. Each routine is
given the accesses it makes; what addresses these reach is then a matter of the
guards alone.
-/

namespace LnDso

open Lib

/-! ## The blank scan -/

/-- The scan reads words from its page and changes nothing but the log. -/
theorem flashPageIsErasedLoop_reads (addr : Word) (n i : Nat) (fl : Flash) :
    ∃ ops, (flashPageIsErasedLoop addr n i fl).2 = { fl with log := fl.log ++ ops } ∧
      ∀ op ∈ ops, ∃ j < i + n, op = .scan (addr + BitVec.ofNat 32 (4 * j)) := by
  induction n generalizing i fl with
  | zero => exact ⟨[], by simp [flashPageIsErasedLoop], by simp⟩
  | succ n ih =>
      rw [flashPageIsErasedLoop]
      split
      · refine ⟨[.scan (addr + BitVec.ofNat 32 (4 * i))], rfl, ?_⟩
        intro op hop
        exact ⟨i, by omega, List.mem_singleton.mp hop⟩
      · obtain ⟨ops, heq, hops⟩ := ih (i + 1) (fl.record (.scan (addr + BitVec.ofNat 32 (4 * i))))
        refine ⟨.scan (addr + BitVec.ofNat 32 (4 * i)) :: ops, ?_, ?_⟩
        · rw [heq]
          simp [Flash.record]
        · intro op hop
          rcases List.mem_cons.mp hop with rfl | hop
          · exact ⟨i, by omega, rfl⟩
          · obtain ⟨j, hj, hop⟩ := hops op hop
            exact ⟨j, by omega, hop⟩

theorem flashPageIsErased_reads (addr : Word) (fl : Flash) :
    ∃ ops, (flashPageIsErased addr fl).2 = { fl with log := fl.log ++ ops } ∧
      ∀ op ∈ ops, ∃ j < 256, op = .scan (addr + BitVec.ofNat 32 (4 * j)) := by
  obtain ⟨ops, heq, hops⟩ := flashPageIsErasedLoop_reads addr 256 0 fl
  exact ⟨ops, heq, by simpa using hops⟩

theorem flash_word_eq_ff (fl : Flash) (a : Word) :
    fl.word a = 0xffffffff ↔ ∀ k < 4, fl.mem (a + BitVec.ofNat 32 k) = 0xff#8 := by
  rw [Flash.word]
  refine (Word.ofBytes_eq_ff _ _ _ _).trans ?_
  constructor
  · rintro ⟨h0, h1, h2, h3⟩ k hk
    obtain rfl | rfl | rfl | rfl : k = 0 ∨ k = 1 ∨ k = 2 ∨ k = 3 := by omega
    · simpa using h0
    · exact h1
    · exact h2
    · exact h3
  · intro h
    refine ⟨?_, h 1 (by decide), h 2 (by decide), h 3 (by decide)⟩
    simpa using h 0 (by decide)

theorem flashPageIsErasedLoop_iff (addr : Word) (n i : Nat) (fl : Flash) :
    (flashPageIsErasedLoop addr n i fl).1 = true ↔
      ∀ k, 4 * i ≤ k → k < 4 * (i + n) → fl.mem (addr + BitVec.ofNat 32 k) = 0xff#8 := by
  induction n generalizing i fl with
  | zero =>
      refine iff_of_true rfl fun k h1 h2 => ?_
      omega
  | succ n ih =>
      have hword := flash_word_eq_ff fl (addr + BitVec.ofNat 32 (4 * i))
      have hoff : ∀ k, addr + BitVec.ofNat 32 (4 * i) + BitVec.ofNat 32 k =
          addr + BitVec.ofNat 32 (4 * i + k) := fun k => by
        rw [BitVec.ofNat_add, BitVec.add_assoc]
      rw [flashPageIsErasedLoop]
      split
      · next hne =>
        refine iff_of_false Bool.false_ne_true fun hall => hne (hword.mpr fun k hk => ?_)
        rw [hoff]
        exact hall _ (by omega) (by omega)
      · next heq =>
        rw [ih]
        have h4 := hword.mp (not_not.mp heq)
        constructor
        · intro hall k h1 h2
          by_cases hk : k < 4 * (i + 1)
          · have := h4 (k - 4 * i) (by omega)
            rwa [hoff, show 4 * i + (k - 4 * i) = k by omega] at this
          · exact hall k (by omega) (by omega)
        · intro hall k h1 h2
          exact hall k (by omega) (by omega)

/-- The scan passes exactly on 1024 erased cells. -/
theorem flashPageIsErased_iff (addr : Word) (fl : Flash) :
    (flashPageIsErased addr fl).1 = true ↔ Nor.Blank fl.mem addr flashPageSize := by
  rw [flashPageIsErased, flashPageIsErasedLoop_iff]
  exact ⟨fun h i hi => h i (by omega) hi, fun h k _ hk => h k hk⟩

/-- A blank scan reads every word of its page. -/
theorem flashPageIsErasedLoop_blank {addr : Word} {n i : Nat} {fl : Flash}
    (h : (flashPageIsErasedLoop addr n i fl).1 = true) {j : Nat} (hij : i ≤ j) (hj : j < i + n) :
    .scan (addr + BitVec.ofNat 32 (4 * j)) ∈ (flashPageIsErasedLoop addr n i fl).2.log := by
  induction n generalizing i fl with
  | zero => omega
  | succ n ih =>
      rw [flashPageIsErasedLoop] at h ⊢
      split at h
      · exact absurd h Bool.false_ne_true
      · next heq =>
        rw [if_neg heq]
        by_cases hji : j = i
        · subst hji
          obtain ⟨ops, hops, -⟩ := flashPageIsErasedLoop_reads addr n (j + 1)
            (fl.record (.scan (addr + BitVec.ofNat 32 (4 * j))))
          rw [hops]
          exact List.mem_append_left _ (List.mem_append_right _ (List.mem_singleton.mpr rfl))
        · exact ih h (by omega) (by omega)

/-! ## Accesses between two states -/

namespace Flash

/-- From `fl` to `fl'` every access satisfies `Q`, cells change only where an
erase or a program hits, and no erase is left started. -/
structure Logs (Q : FlashOp → Prop) (fl fl' : Flash) : Prop where
  ops : ∃ ops, fl'.log = fl.log ++ ops ∧ (∀ op ∈ ops, Q op) ∧
    ∀ a, fl'.mem a ≠ fl.mem a → ∃ op ∈ ops, op.Modifies ∧ op.Hits a
  strt : fl.cr.strt = false → fl'.cr.strt = false

variable {Q : FlashOp → Prop}

/-- No access, the same cells. -/
theorem Logs.silent {fl fl' : Flash} (hlog : fl'.log = fl.log) (hmem : fl'.mem = fl.mem)
    (hstrt : fl.cr.strt = false → fl'.cr.strt = false) : Logs Q fl fl' :=
  ⟨⟨[], by rw [hlog, List.append_nil], by simp, fun a hne => absurd (congrFun hmem a) hne⟩, hstrt⟩

theorem Logs.refl (fl : Flash) : Logs Q fl fl := .silent rfl rfl id

theorem Logs.trans {fl fl' fl'' : Flash} (h : Logs Q fl fl') (h' : Logs Q fl' fl'') :
    Logs Q fl fl'' := by
  obtain ⟨ops, hlog, hops, hmem⟩ := h.ops
  obtain ⟨ops', hlog', hops', hmem'⟩ := h'.ops
  refine ⟨⟨ops ++ ops', by rw [hlog', hlog, List.append_assoc], ?_, ?_⟩, h'.strt ∘ h.strt⟩
  · intro op hop
    rcases List.mem_append.mp hop with hop | hop
    · exact hops op hop
    · exact hops' op hop
  · intro a hne
    by_cases heq : fl'.mem a = fl.mem a
    · obtain ⟨op, hop, hhit⟩ := hmem' a fun h => hne (h.trans heq)
      exact ⟨op, List.mem_append_right _ hop, hhit⟩
    · obtain ⟨op, hop, hhit⟩ := hmem a heq
      exact ⟨op, List.mem_append_left _ hop, hhit⟩

/-- One access. -/
theorem Logs.one {fl fl' : Flash} {op : FlashOp} (hq : Q op) (hlog : fl'.log = fl.log ++ [op])
    (hmem : ∀ a, fl'.mem a ≠ fl.mem a → op.Modifies ∧ op.Hits a)
    (hstrt : fl.cr.strt = false → fl'.cr.strt = false) : Logs Q fl fl' :=
  ⟨⟨[op], hlog, fun _ h => List.mem_singleton.mp h ▸ hq,
    fun a hne => ⟨op, List.mem_singleton.mpr rfl, hmem a hne⟩⟩, hstrt⟩

/-- Accesses that read. -/
theorem Logs.reads {fl : Flash} {ops : List FlashOp} (hq : ∀ op ∈ ops, Q op) :
    Logs Q fl { fl with log := fl.log ++ ops } :=
  ⟨⟨ops, rfl, hq, fun _ hne => absurd rfl hne⟩, id⟩

theorem Logs.mem_log {fl fl' : Flash} (h : Logs Q fl fl') {op : FlashOp} (hop : op ∈ fl.log) :
    op ∈ fl'.log := by
  obtain ⟨ops, hlog, -⟩ := h.ops
  rw [hlog]
  exact List.mem_append_left _ hop

/-- A set of addresses that no erase and no program hits, with its cells as
they were. -/
structure Spares (S : Word → Prop) (fl fl' : Flash) : Prop where
  log : ∃ ops, fl'.log = fl.log ++ ops ∧ ∀ op ∈ ops, op.Modifies → ∀ a, op.Hits a → ¬ S a
  mem : ∀ a, S a → fl'.mem a = fl.mem a

theorem Logs.spares {S : Word → Prop} {fl fl' : Flash}
    (h : Logs (fun op => op.Modifies → ∀ a, op.Hits a → ¬ S a) fl fl') : Spares S fl fl' := by
  obtain ⟨ops, hlog, hops, hmem⟩ := h.ops
  refine ⟨⟨ops, hlog, hops⟩, fun a ha => by_contra fun hne => ?_⟩
  obtain ⟨op, hop, hmod, hhit⟩ := hmem a hne
  exact hops op hop hmod a hhit ha

/-! ### Controller registers -/

/-- A write of FLASH_CR with STRT starts an erase of the page of FLASH_AR. -/
theorem writeCr_logs {v : FlashCr} {fl : Flash}
    (h : v.strt = true → ∀ cr bsy, Q (.erase cr bsy fl.ar)) : Logs Q fl (fl.writeCr v) := by
  unfold writeCr
  cases hv : v.strt with
  | false =>
      dsimp only
      split
      · exact Logs.refl fl
      · exact .silent rfl rfl fun _ => rfl
  | true =>
      dsimp only
      split
      · exact .one (h hv _ _) rfl (fun _ hne => absurd rfl hne) id
      · split
        · refine .one (h hv _ _) rfl (fun a hne => ⟨trivial, ?_⟩) fun _ => rfl
          by_contra hpage
          exact hne (Nor.erasePage_other hpage)
        · exact .one (h hv _ _) rfl (fun _ hne => absurd rfl hne) fun _ => rfl

/-- A write of FLASH_CR without STRT. -/
theorem writeCr_silent {v : FlashCr} {fl : Flash} (h : v.strt = false) :
    Logs Q fl (fl.writeCr v) :=
  writeCr_logs fun hv => by rw [h] at hv; exact absurd hv Bool.false_ne_true

theorem writeKeyr_fields (key : Word) (fl : Flash) :
    (fl.writeKeyr key).log = fl.log ∧ (fl.writeKeyr key).mem = fl.mem ∧
      (fl.writeKeyr key).cr.strt = fl.cr.strt := by
  unfold writeKeyr
  split
  · split
    · exact ⟨rfl, rfl, rfl⟩
    · split <;> exact ⟨rfl, rfl, rfl⟩
    · exact ⟨rfl, rfl, rfl⟩
  · exact ⟨rfl, rfl, rfl⟩

theorem writeKeyr_logs (key : Word) (fl : Flash) : Logs Q fl (fl.writeKeyr key) := by
  obtain ⟨hlog, hmem, hstrt⟩ := writeKeyr_fields key fl
  exact .silent hlog hmem fun h => hstrt.trans h

theorem storeHalf_logs (re : Half → Half → Half) {a : Word} (v : Half) (fl : Flash)
    (h : ∀ cr bsy, Q (.program cr bsy a v)) : Logs Q fl (fl.storeHalf re a v) := by
  unfold storeHalf
  dsimp only
  split
  · refine .one (h _ _) rfl (fun b hne => ⟨trivial, ?_⟩) id
    by_contra hb
    exact hne (Nor.programHalf_other re _ v (fun h0 => hb (.inl h0)) fun h1 => hb (.inr h1))
  · exact .one (h _ _) rfl (fun _ hne => absurd rfl hne) id

end Flash

open Flash

variable {Q : FlashOp → Prop}

/-! ### Routines -/

theorem flashUnlock_logs {fl : Flash} (hs : fl.cr.strt = false) : Logs Q fl (flashUnlock fl) := by
  have hlock : Logs Q fl (fl.writeCr { fl.cr with lock := true }) := writeCr_silent hs
  exact (hlock.trans (writeKeyr_logs _ _)).trans (writeKeyr_logs _ _)

theorem flashLock_logs {fl : Flash} (hs : fl.cr.strt = false) : Logs Q fl (flashLock fl) :=
  writeCr_silent hs

theorem flashWaitForLastOperation_logs (fl : Flash) :
    Logs Q fl (flashWaitForLastOperation fl) :=
  .silent rfl rfl id

/-- The accesses of a page erase. -/
def EraseOps (Q : FlashOp → Prop) (page : Word) : Prop := ∀ cr bsy, Q (.erase cr bsy page)

/-- The accesses of a blank scan. -/
def ScanOps (Q : FlashOp → Prop) (addr : Word) : Prop :=
  ∀ j < 256, Q (.scan (addr + BitVec.ofNat 32 (4 * j)))

/-- The accesses of a buffer program. -/
def ProgramOps (Q : FlashOp → Prop) (address : Word) (len : Nat) : Prop :=
  ∀ i < len / 2, ∀ cr bsy v, Q (.program cr bsy (address + BitVec.ofNat 32 (2 * i)) v)

theorem flashPageIsErased_logs {addr : Word} (fl : Flash) (h : ScanOps Q addr) :
    Logs Q fl (flashPageIsErased addr fl).2 := by
  obtain ⟨ops, heq, hops⟩ := flashPageIsErased_reads addr fl
  rw [heq]
  refine .reads fun op hop => ?_
  obtain ⟨j, hj, rfl⟩ := hops op hop
  exact h j hj

theorem flashErasePage_logs {page : Word} {fl : Flash} (hs : fl.cr.strt = false)
    (h : EraseOps Q page) : Logs Q fl (flashErasePage page fl) := by
  let f1 := flashWaitForLastOperation fl
  let f2 := f1.writeCr { f1.cr with per := true }
  let f3 := f2.writeAr page
  let f4 := flashWaitForLastOperation (f3.writeCr { f3.cr with strt := true })
  have h2 : Logs Q fl f2 := (flashWaitForLastOperation_logs fl).trans (writeCr_silent hs)
  have h3 : Logs Q f2 f3 := .silent rfl rfl id
  have hstart : Logs Q f3 (f3.writeCr { f3.cr with strt := true }) := writeCr_logs fun _ => h
  have h4 : Logs Q f3 f4 := hstart.trans (flashWaitForLastOperation_logs _)
  have h14 := (h2.trans h3).trans h4
  exact h14.trans (writeCr_silent (h14.strt hs))

theorem flashEraseIfNeeded_logs {addr : Word} {fl : Flash} (hs : fl.cr.strt = false)
    (hscan : ScanOps Q addr) (herase : EraseOps Q addr) :
    Logs Q fl (flashEraseIfNeeded addr fl) := by
  have h : Logs Q fl (flashPageIsErased addr fl).2 := flashPageIsErased_logs fl hscan
  unfold flashEraseIfNeeded
  dsimp only
  split
  · exact h
  · exact h.trans (flashErasePage_logs (h.strt hs) herase)

/-- A page that scans blank is left as it is. -/
theorem flashEraseIfNeeded_blank {addr : Word} {fl : Flash}
    (h : Nor.Blank fl.mem addr flashPageSize) :
    flashEraseIfNeeded addr fl = (flashPageIsErased addr fl).2 := by
  unfold flashEraseIfNeeded
  dsimp only
  rw [if_pos ((flashPageIsErased_iff addr fl).mpr h)]

theorem flashPageIsErased_mem (addr : Word) (fl : Flash) :
    (flashPageIsErased addr fl).2.mem = fl.mem := by
  obtain ⟨ops, heq, -⟩ := flashPageIsErased_reads addr fl
  rw [heq]

theorem flashProgramBufferLoop_logs (re : Half → Half → Half) (address : Word) (data : Mem)
    (n i : Nat) (fl : Flash) (h : ∀ j, i ≤ j → j < i + n → ∀ cr bsy v,
      Q (.program cr bsy (address + BitVec.ofNat 32 (2 * j)) v)) :
    Logs Q fl (flashProgramBufferLoop re address data n i fl) := by
  induction n generalizing i fl with
  | zero => exact Logs.refl fl
  | succ n ih =>
      rw [flashProgramBufferLoop]
      exact .trans (storeHalf_logs re _ fl fun cr bsy => h i (by omega) (by omega) cr bsy _)
        (.trans (flashWaitForLastOperation_logs _)
          (ih (i + 1) _ fun j h1 h2 => h j (by omega) (by omega)))

theorem flashProgramBuffer_logs (re : Half → Half → Half) {address : Word} (data : Mem)
    {len : Nat} {fl : Flash} (hs : fl.cr.strt = false) (h : ProgramOps Q address len) :
    Logs Q fl (flashProgramBuffer re address data len fl) := by
  let f1 := flashWaitForLastOperation fl
  let f2 := f1.writeCr { f1.cr with pg := true }
  let f3 := flashProgramBufferLoop re address data (len / 2) 0 f2
  have h2 : Logs Q fl f2 := (flashWaitForLastOperation_logs fl).trans (writeCr_silent hs)
  have h3 : Logs Q f2 f3 :=
    flashProgramBufferLoop_logs re address data (len / 2) 0 f2 fun j _ hj => h j (by omega)
  have h13 := h2.trans h3
  exact h13.trans (writeCr_silent (h13.strt hs))

/-- The wipe scans and erases pages of `[start_addr, end_addr)`. -/
def WipeOps (cfg : Config) (Q : FlashOp → Prop) : Prop :=
  ∀ page : Word, cfg.startAddr.toNat ≤ page.toNat → page.toNat + 1024 ≤ cfg.endAddr.toNat →
    page.toNat % 1024 = 0 → ScanOps Q page ∧ EraseOps Q page

theorem checkDoEraseLoop_logs {cfg : Config} (h : WipeOps cfg Q) (n : Nat) {addr : Word}
    {fl : Flash} (hs : fl.cr.strt = false) (hstart : cfg.startAddr.toNat ≤ addr.toNat)
    (halign : addr.toNat % 1024 = 0) : Logs Q fl (checkDoEraseLoop cfg.endAddr n addr fl) := by
  obtain ⟨-, -, hend, -, hend'⟩ := cfg.addr_bounds
  induction n generalizing addr fl with
  | zero => exact Logs.refl fl
  | succ n ih =>
      rw [checkDoEraseLoop]
      split
      · next hlt =>
        have hlt' : addr.toNat < cfg.endAddr.toNat := hlt
        have hnext : (addr + 1024).toNat = addr.toNat + 1024 := by
          rw [BitVec.toNat_add, show (1024 : Word).toNat = 1024 from rfl]
          exact Nat.mod_eq_of_lt (by omega)
        obtain ⟨hscan, herase⟩ := h addr hstart (by omega) halign
        have he : Logs Q fl (flashEraseIfNeeded addr fl) := flashEraseIfNeeded_logs hs hscan herase
        exact he.trans (ih (he.strt hs) (by omega) (by omega))
      · exact Logs.refl fl

/-- The wipe of a blank part erases nothing. -/
theorem checkDoErase_blank (cfg : Config) (erased : Bool) {fl : Flash}
    (h : ∀ a, fl.mem a = 0xff#8) : (checkDoErase cfg erased fl).2.mem = fl.mem := by
  have hloop : ∀ (n : Nat) (addr : Word) (fl : Flash), (∀ a, fl.mem a = 0xff#8) →
      (checkDoEraseLoop cfg.endAddr n addr fl).mem = fl.mem := by
    intro n
    induction n with
    | zero => intro addr fl _; rfl
    | succ n ih =>
        intro addr fl h
        have hpage : (flashEraseIfNeeded addr fl).mem = fl.mem := by
          rw [flashEraseIfNeeded_blank fun i _ => h _, flashPageIsErased_mem]
        rw [checkDoEraseLoop]
        split
        · rw [ih _ _ fun a => (congrFun hpage a).trans (h a), hpage]
        · rfl
  unfold checkDoErase
  split
  · rfl
  · exact hloop _ _ _ h

theorem checkDoErase_logs {cfg : Config} (h : WipeOps cfg Q) (erased : Bool) {fl : Flash}
    (hs : fl.cr.strt = false) : Logs Q fl (checkDoErase cfg erased fl).2 := by
  obtain ⟨-, -, -, halign, -⟩ := cfg.addr_bounds
  unfold checkDoErase
  split
  · exact Logs.refl fl
  · exact checkDoEraseLoop_logs h cfg.flashSizeKb hs (Nat.le_refl _) halign

end LnDso
