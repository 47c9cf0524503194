import LnDso.Logic.Applied
import LnDso.Theorems.Commands

/-!
# Downloads in chunks

An image is written by erasing its pages and then, chunk by chunk, setting the
address pointer and downloading block number 2. Each chunk finds its own cells
erased. But the blank scan of a chunk in the last page reads past the erased
pages, and what it finds there can make the chunk erase the part of its page
that earlier chunks have written. In the last page it reads past the end of the
flash, where the cells are taken to be readable and to hold anything.
-/

namespace LnDso

open Lib FlashCmd

variable {cfg : Config} {s : Store} {m1 : Nor.Cells 32}

/-! ## The host's plan -/

theorem two_ne_zero_half : (2 : Half) ≠ 0 := by decide

/-- The data blocks, the first one for address `c`. -/
def chunkCmds : Word → List Payload → List FlashCmd
  | _, [] => []
  | c, data :: rest =>
      .setaddr c :: .block ⟨2, two_ne_zero_half⟩ data :: chunkCmds (c + BitVec.ofNat 32 data.bytes.length) rest

/-- The image that the chunks partition. -/
def image (chunks : List Payload) : List Byte := chunks.flatMap Payload.bytes

def eraseCmds (pages : List PageAddr) : List FlashCmd :=
  pages.map fun b : PageAddr => .erase b.val

/-- Erase the pages, then write the chunks from address `A` on. -/
def downloadPlan (A : Word) (pages : List PageAddr) (chunks : List Payload) : List FlashCmd :=
  eraseCmds pages ++ chunkCmds A chunks

@[simp] theorem image_nil : image [] = [] := rfl

@[simp] theorem image_cons (data : Payload) (rest : List Payload) :
    image (data :: rest) = data.bytes ++ image rest := rfl

@[simp] theorem runAll_nil (cfg : Config) (s : Store) : runAll cfg s [] = s := rfl

@[simp] theorem runAll_cons (cfg : Config) (s : Store) (c : FlashCmd) (cmds : List FlashCmd) :
    runAll cfg s (c :: cmds) = runAll cfg (c.run cfg s) cmds := rfl

theorem runAll_append (cfg : Config) (s : Store) (cmds cmds' : List FlashCmd) :
    runAll cfg s (cmds ++ cmds') = runAll cfg (runAll cfg s cmds) cmds' :=
  List.foldl_append

/-! ## The erases -/

/-- After an ERASE or a data block the wipe is not due. -/
theorem not_wipeDue (cfg : Config) (erased : Bool) :
    ¬ WipeDue cfg (erased || cfg.enableSafewrite) := by
  rintro ⟨hbuild, herased⟩
  rw [hbuild, Bool.or_true] at herased
  exact absurd herased (by simp)

/-- One of the pages contains the cell. -/
def Covered (pages : List PageAddr) (x : Word) : Prop :=
  ∃ b ∈ pages, b.val.toNat ≤ x.toNat ∧ x.toNat < b.val.toNat + flashPageSize

theorem erase_cells {b : PageAddr} (happ : cfg.App b.val) :
    (FlashCmd.run cfg s (.erase b.val)).cells =
      Nor.eraseRange b.val.toNat (b.val.toNat + flashPageSize) (wipedCells cfg s.erased s.cells) := by
  have hpage : b.val.toNat % flashPageSize = 0 := b.property
  have hguard : eraseGuard cfg b.val = true :=
    (addrGuard_page cfg b.property (by decide) (by decide)).mpr (.inl happ)
  have hready := Nor.ensureErased_page (P := flashPageSize) (by decide)
    (wipedCells cfg s.erased s.cells) hpage
  unfold FlashCmd.run
  dsimp only
  rw [if_pos hguard]
  exact hready

/-- One page erased, and then the others. -/
theorem covered_cons {b : PageAddr} {pages : List PageAddr} {m m' : Nor.Cells 32}
    (hcov : ∀ x, Covered pages x → m' x = 0xff)
    (hother : ∀ x, ¬ Covered pages x →
      m' x = Nor.eraseRange b.val.toNat (b.val.toNat + flashPageSize) m x) :
    (∀ x, Covered (b :: pages) x → m' x = 0xff) ∧ ∀ x, ¬ Covered (b :: pages) x → m' x = m x := by
  constructor
  · intro x hx
    by_cases hrest : Covered pages x
    · exact hcov x hrest
    · obtain ⟨b', hb', hin⟩ := hx
      rcases List.mem_cons.mp hb' with rfl | hmem
      · exact (hother x hrest).trans (if_pos hin)
      · exact absurd ⟨b', hmem, hin⟩ hrest
  · intro x hx
    have hrest : ¬ Covered pages x := by
      rintro ⟨b', hmem, hin⟩
      exact hx ⟨b', List.mem_cons_of_mem b hmem, hin⟩
    exact (hother x hrest).trans (if_neg fun hin => hx ⟨b, List.mem_cons_self, hin⟩)

theorem erases_settled {pages : List PageAddr} (happ : ∀ b ∈ pages, cfg.App b.val)
    (hdue : ¬ WipeDue cfg s.erased) :
    let s' := runAll cfg s (eraseCmds pages)
    ¬ WipeDue cfg s'.erased ∧ (∀ x, Covered pages x → s'.cells x = 0xff) ∧
      ∀ x, ¬ Covered pages x → s'.cells x = s.cells x := by
  induction pages generalizing s with
  | nil =>
      refine ⟨hdue, fun x hx => ?_, fun _ _ => rfl⟩
      obtain ⟨b, hb, -⟩ := hx
      exact absurd hb List.not_mem_nil
  | cons b pages ih =>
      have hcells := erase_cells (s := s) (happ b List.mem_cons_self)
      obtain ⟨hdue', hcov, hother⟩ := ih (s := FlashCmd.run cfg s (.erase b.val))
        (fun b' hb' => happ b' (List.mem_cons_of_mem b hb')) (not_wipeDue cfg s.erased)
      rw [hcells, wipedCells_else hdue] at hother
      exact ⟨hdue', covered_cons hcov hother⟩

/-- The erases leave their pages erased; the first one may wipe as well. -/
theorem erases_cells {pages : List PageAddr} (hne : pages ≠ []) (happ : ∀ b ∈ pages, cfg.App b.val) :
    let s' := runAll cfg s (eraseCmds pages)
    ¬ WipeDue cfg s'.erased ∧ (∀ x, Covered pages x → s'.cells x = 0xff) ∧
      ∀ x, ¬ Covered pages x → s'.cells x = wipedCells cfg s.erased s.cells x := by
  cases pages with
  | nil => exact absurd rfl hne
  | cons b pages =>
      have hcells := erase_cells (s := s) (happ b List.mem_cons_self)
      obtain ⟨hdue', hcov, hother⟩ := erases_settled (s := FlashCmd.run cfg s (.erase b.val))
        (fun b' hb' => happ b' (List.mem_cons_of_mem b hb')) (not_wipeDue cfg s.erased)
      rw [hcells] at hother
      exact ⟨hdue', covered_cons hcov hother⟩

/-! ## One chunk -/

section Chunk

variable {E : Nat} {m : Nor.Cells 32} {c x : Word} {data : Payload}

/-- The cells from `c` up to the end `E` of the erased pages are erased, those
past it are the ones of `m1`. -/
structure Ahead (E : Nat) (m1 m : Nor.Cells 32) (c : Nat) : Prop where
  blank : ∀ x : Word, c ≤ x.toNat → x.toNat < E → m x = 0xff
  past : ∀ x : Word, E ≤ x.toNat → m x = m1 x

/-- What a blank scan from `c` reads past `E` is erased. -/
def TailBlank (E : Nat) (m1 : Nor.Cells 32) (c : Nat) : Prop :=
  ∀ x : Word, E ≤ x.toNat → x.toNat < c + flashPageSize → m1 x = 0xff

theorem TailBlank.mono {c c' : Nat} (h : TailBlank E m1 c') (hle : c ≤ c') : TailBlank E m1 c :=
  fun x hE hx => h x hE (Nat.lt_of_lt_of_le hx (Nat.add_le_add_right hle _))

/-- Only from within the last page does the scan read past the end. -/
theorem lt_of_not_tailBlank {c : Nat} (h : ¬ TailBlank E m1 c) : E < c + flashPageSize := by
  refine Nat.not_le.mp fun hle => h fun x hE hx => ?_
  omega

theorem offset_toNat {k : Nat} (h : c.toNat + k < 2 ^ 32) :
    (c + BitVec.ofNat 32 k).toNat = c.toNat + k := by
  rw [BitVec.toNat_add, BitVec.toNat_ofNat, Nat.mod_eq_of_lt (a := k) (by omega)]
  exact Nat.mod_eq_of_lt h

theorem offset_eq (h : c.toNat ≤ x.toNat) : c + BitVec.ofNat 32 (x.toNat - c.toNat) = x := by
  have hx := x.isLt
  apply BitVec.eq_of_toNat_eq
  rw [offset_toNat (by omega)]
  omega

theorem Ahead.scan (h : Ahead E m1 m c.toNat) (hc : c.toNat < E) (hE : E + flashPageSize < 2 ^ 32) :
    Nor.Blank m c flashPageSize ↔ TailBlank E m1 c.toNat := by
  constructor
  · intro hblank x hxE hx
    rw [← h.past x hxE, ← offset_eq (show c.toNat ≤ x.toNat by omega)]
    exact hblank _ (by omega)
  · intro htail i hi
    have hoff := offset_toNat (c := c) (k := i) (by omega)
    by_cases hin : c.toNat + i < E
    · exact h.blank _ (by omega) (by omega)
    · rw [h.past _ (by omega)]
      exact htail _ (by omega) (by omega)

theorem blockAddr_two (c : Word) : blockAddr c 2 = c := by
  rw [blockAddr, show ((2 : Half).toNat : Int) - 2 = 0 from rfl, Int.zero_mul]
  exact BitVec.add_zero c

/-- SETADDR and block number 2 program the chunk at its address. -/
theorem chunk_run (hdue : ¬ WipeDue cfg s.erased) (hlo : cfg.startAddr.toNat ≤ c.toNat)
    (hhi : c.toNat + data.bytes.length ≤ cfg.endAddr.toNat) :
    (runAll cfg s [.setaddr c, .block ⟨2, two_ne_zero_half⟩ data]).cells =
      Nor.programHalves cfg.reprogram data.mem.halves c (data.bytes.length / 2) 0
        (Nor.ensureErased flashPageSize s.cells c) := by
  obtain ⟨-, -, hend, -, -⟩ := cfg.addr_bounds
  have hle := data.le
  simp only [dfuTransferSize] at hle
  have hguard : blockGuard cfg c (BitVec.ofNat 16 data.bytes.length) = true := by
    refine (addrGuard_iff cfg _ _).mpr ⟨hlo, ?_⟩
    rw [BitVec.toNat_add, BitVec.toNat_setWidth, BitVec.toNat_ofNat,
      Nat.mod_eq_of_lt (a := data.bytes.length) (by omega),
      Nat.mod_eq_of_lt (a := data.bytes.length) (by omega), Nat.mod_eq_of_lt (by omega)]
    exact hhi
  rw [runAll_cons, runAll_cons, runAll_nil, FlashCmd.run, FlashCmd.run]
  dsimp only
  rw [blockAddr_two, if_pos hguard, readyCells, wipedCells_else hdue]

/-- What a chunk leaves: its own bytes; `0xff` in the rest of its page, if what
the scan reads past the end is not erased; and everything else. -/
structure ChunkCells (E : Nat) (m1 m : Nor.Cells 32) (c : Word) (data : Payload)
    (m' : Nor.Cells 32) : Prop where
  hit : ∀ x : Word, c.toNat ≤ x.toNat → x.toNat < c.toNat + data.bytes.length →
    m' x = data.mem (x.toNat - c.toNat)
  lost : ∀ x : Word, ¬ (c.toNat ≤ x.toNat ∧ x.toNat < c.toNat + data.bytes.length) →
    x.toNat / flashPageSize = c.toNat / flashPageSize → ¬ TailBlank E m1 c.toNat → m' x = 0xff
  kept : ∀ x : Word, ¬ (c.toNat ≤ x.toNat ∧ x.toNat < c.toNat + data.bytes.length) →
    (x.toNat / flashPageSize = c.toNat / flashPageSize → TailBlank E m1 c.toNat) → m' x = m x

theorem program_chunkCells (re : Half → Half → Half) (h : Ahead E m1 m c.toNat)
    (hfit : c.toNat + data.bytes.length ≤ E) (hE : E + flashPageSize < 2 ^ 32) :
    ChunkCells E m1 m c data (Nor.programHalves re data.mem.halves c (data.bytes.length / 2) 0
      (Nor.ensureErased flashPageSize m c)) := by
  have hpos := data.pos
  have heven := data.even
  have hscan := h.scan (by omega) hE
  -- programs reach the cells of the chunk only
  have hother : ∀ x : Word, ¬ (c.toNat ≤ x.toNat ∧ x.toNat < c.toNat + data.bytes.length) →
      Nor.programHalves re data.mem.halves c (data.bytes.length / 2) 0
        (Nor.ensureErased flashPageSize m c) x = Nor.ensureErased flashPageSize m c x := by
    intro x hx
    refine Nor.programHalves_other _ _ _ _ _ _ fun j _ hj heq => hx ?_
    rw [heq, offset_toNat (by omega)]
    omega
  refine ⟨fun x hlo hhi => ?_, fun x hx hpage htail => ?_, fun x hx htail => ?_⟩
  · rw [← offset_eq hlo, Nor.programHalves_blank _ _ _ _ _ _ (by omega) ?_ (Nat.zero_le _) (by omega),
      Nor.dataByte_halves, offset_eq hlo]
    intro j _ hj
    have hoff := offset_toNat (c := c) (k := j) (by omega)
    exact Nor.ensureErased_erased (h.blank _ (by omega) (by omega))
  · rw [hother x hx, Nor.ensureErased, if_neg (mt hscan.mp htail)]
    exact Nor.erasePage_same hpage
  · rw [hother x hx, Nor.ensureErased]
    split
    · rfl
    · next hblank => exact Nor.erasePage_other fun hpage => hblank (hscan.mpr (htail hpage))

/-- After the chunk the cells ahead of the next one are erased. -/
theorem ChunkCells.ahead {m' : Nor.Cells 32} (hm : ChunkCells E m1 m c data m')
    (h : Ahead E m1 m c.toNat) (hfit : c.toNat + data.bytes.length ≤ E)
    (hE : E % flashPageSize = 0) : Ahead E m1 m' (c.toNat + data.bytes.length) := by
  have hpos := data.pos
  constructor
  · intro x hx hlt
    by_cases hlost : x.toNat / flashPageSize = c.toNat / flashPageSize ∧ ¬ TailBlank E m1 c.toNat
    · exact hm.lost x (by omega) hlost.1 hlost.2
    · rw [hm.kept x (by omega) fun hpage => not_not.mp fun htail => hlost ⟨hpage, htail⟩]
      exact h.blank x (by omega) hlt
  · intro x hx
    rw [hm.kept x (by omega) fun hpage => ?_]
    · exact h.past x hx
    · -- the page of the chunk lies before the end
      simp only [flashPageSize] at hpage hE
      omega

/-! ## All chunks -/

/-- Where the last chunk starts in the image. -/
def lastOffset (chunks : List Payload) : Nat := (image chunks.dropLast).length

theorem lastOffset_cons (data data' : Payload) (rest : List Payload) :
    lastOffset (data :: data' :: rest) = data.bytes.length + lastOffset (data' :: rest) := by
  simp [lastOffset]

theorem lastOffset_lt {chunks : List Payload} (hne : chunks ≠ []) :
    lastOffset chunks < (image chunks).length := by
  have hpos := (chunks.getLast hne).pos
  have hsplit : image chunks = image chunks.dropLast ++ (chunks.getLast hne).bytes := by
    rw [← List.flatMap_singleton Payload.bytes (chunks.getLast hne), image, image,
      ← List.flatMap_append, List.dropLast_append_getLast]
  rw [hsplit, List.length_append, lastOffset]
  omega

/-- The last chunk, at `l`, erases the cell: it is in the same page, before it. -/
def Lost (E : Nat) (m1 : Nor.Cells 32) (l : Nat) (x : Word) : Prop :=
  ¬ TailBlank E m1 l ∧ x.toNat / flashPageSize = l / flashPageSize ∧ x.toNat < l

/-- What the chunks leave: the image, but for what the last chunk erases. -/
structure Written (E : Nat) (m1 m : Nor.Cells 32) (c : Nat) (chunks : List Payload)
    (m' : Nor.Cells 32) : Prop where
  lost : ∀ x, Lost E m1 (c + lastOffset chunks) x → m' x = 0xff
  hit : ∀ x : Word, ¬ Lost E m1 (c + lastOffset chunks) x → c ≤ x.toNat →
    x.toNat < c + (image chunks).length → m' x = (image chunks).getD (x.toNat - c) 0xff
  kept : ∀ x : Word, x.toNat < E → ¬ Lost E m1 (c + lastOffset chunks) x →
    ¬ (c ≤ x.toNat ∧ x.toNat < c + (image chunks).length) → m' x = m x

/-- One chunk alone. -/
theorem ChunkCells.written {m' : Nor.Cells 32} (hm : ChunkCells E m1 m c data m')
    (h : Ahead E m1 m c.toNat) : Written E m1 m c.toNat [data] m' := by
  have hlast : lastOffset [data] = 0 := rfl
  have himage : image [data] = data.bytes := List.append_nil _
  refine ⟨fun x hx => ?_, fun x _ hlo hhi => ?_, fun x hE hx hout => ?_⟩
  · obtain ⟨htail, hpage, hlt⟩ := hx
    rw [hlast, Nat.add_zero] at htail hpage hlt
    exact hm.lost x (by omega) hpage htail
  · rw [himage] at hhi ⊢
    exact hm.hit x hlo hhi
  · rw [himage] at hout
    rw [hlast, Nat.add_zero] at hx
    by_cases hlost : x.toNat / flashPageSize = c.toNat / flashPageSize ∧ ¬ TailBlank E m1 c.toNat
    · -- past the chunk the page was erased already
      have hpast : c.toNat ≤ x.toNat :=
        Nat.not_lt.mp fun hlt => hx ⟨hlost.2, hlost.1, hlt⟩
      rw [hm.lost x hout hlost.1 hlost.2, h.blank x hpast hE]
    · exact hm.kept x hout fun hpage => not_not.mp fun htail => hlost ⟨hpage, htail⟩

/-- A chunk, and then others. -/
theorem ChunkCells.written_cons {m' m'' : Nor.Cells 32} {data' : Payload} {rest : List Payload}
    (hm : ChunkCells E m1 m c data m') (h : Ahead E m1 m c.toNat) (hE : E % flashPageSize = 0)
    (hfit : c.toNat + (image (data :: data' :: rest)).length ≤ E)
    (hrest : Written E m1 m' (c.toNat + data.bytes.length) (data' :: rest) m'') :
    Written E m1 m c.toNat (data :: data' :: rest) m'' := by
  have hlast : c.toNat + lastOffset (data :: data' :: rest) =
      c.toNat + data.bytes.length + lastOffset (data' :: rest) := by
    rw [lastOffset_cons, Nat.add_assoc]
  have hlt : lastOffset (data' :: rest) < (image (data' :: rest)).length := lastOffset_lt (by simp)
  have hlen : (image (data :: data' :: rest)).length =
      data.bytes.length + (image (data' :: rest)).length := by
    rw [image_cons, List.length_append]
  refine ⟨fun x hx => hrest.lost x (hlast ▸ hx), fun x hx hlo hhi => ?_, fun x hxE hx hout => ?_⟩
  · rw [hlast] at hx
    by_cases hfirst : x.toNat < c.toNat + data.bytes.length
    · have hkept := hrest.kept x (by omega) hx (by omega)
      rw [hkept, hm.hit x hlo hfirst, image_cons, List.getD_append _ _ _ _ (by omega)]
      rfl
    · rw [hrest.hit x hx (by omega) (by omega), image_cons data,
        List.getD_append_right _ _ _ _ (by omega)]
      congr 1
      omega
  · have hkept := hrest.kept x hxE (hlast ▸ hx) (by omega)
    rw [hkept]
    by_cases hlost : x.toNat / flashPageSize = c.toNat / flashPageSize ∧ ¬ TailBlank E m1 c.toNat
    · have hend := lt_of_not_tailBlank hlost.2
      have hpast : c.toNat ≤ x.toNat := by
        refine Nat.not_lt.mp fun hbefore => hx ⟨fun htail => ?_, ?_, ?_⟩
        · exact hlost.2 (htail.mono (Nat.le_add_right _ _))
        · -- both chunks start in the last page
          have hpage := hlost.1
          simp only [flashPageSize] at hpage hend hE ⊢
          omega
        · omega
      rw [hm.lost x (by omega) hlost.1 hlost.2, h.blank x hpast hxE]
    · exact hm.kept x (by omega) fun hpage => not_not.mp fun htail => hlost ⟨hpage, htail⟩

theorem chunks_written (hE : E % flashPageSize = 0) (hend : E ≤ cfg.endAddr.toNat) (rest : List Payload)
    (hdue : ¬ WipeDue cfg s.erased) (h : Ahead E m1 s.cells c.toNat)
    (hlo : cfg.startAddr.toNat ≤ c.toNat) (hfit : c.toNat + (image (data :: rest)).length ≤ E) :
    Written E m1 s.cells c.toNat (data :: rest) (runAll cfg s (chunkCmds c (data :: rest))).cells := by
  obtain ⟨-, -, hbound, -, -⟩ := cfg.addr_bounds
  induction rest generalizing data s c with
  | nil =>
      have hfit' : c.toNat + data.bytes.length ≤ E := by simpa using hfit
      have hcells := program_chunkCells cfg.reprogram h hfit' (by simp only [flashPageSize]; omega)
      rw [← chunk_run hdue hlo (by omega)] at hcells
      exact hcells.written h
  | cons data' rest ih =>
      have hlen : (image (data :: data' :: rest)).length =
          data.bytes.length + (image (data' :: rest)).length := by
        rw [image_cons, List.length_append]
      have hfit' : c.toNat + data.bytes.length ≤ E := by omega
      have hcells := program_chunkCells cfg.reprogram h hfit' (by simp only [flashPageSize]; omega)
      rw [← chunk_run hdue hlo (by omega)] at hcells
      have hnext := offset_toNat (c := c) (k := data.bytes.length) (by omega)
      have hahead := hcells.ahead h (by omega) hE
      refine hcells.written_cons h hE hfit ?_
      rw [← hnext] at hahead ⊢
      exact ih (not_wipeDue cfg s.erased) hahead (by omega) (by omega)

end Chunk

/-! ## The whole download -/

/-- The cells hold the bytes. -/
def Stored (m : Nor.Cells 32) (A : Word) (data : List Byte) : Prop :=
  ∀ i (hi : i < data.length), m (A + BitVec.ofNat 32 i) = data[i]

/-- Where the pages end that meet `[A, A + L)`, for `A` on a page boundary. -/
def pagesEnd (A L : Nat) : Nat := A + (L + (flashPageSize - 1)) / flashPageSize * flashPageSize

/-- The last chunk does no harm: from its address a blank scan finds what lies
past the erased pages blank, or the image holds nothing but `0xff` before it in
its page. -/
def Undisturbed (m1 : Nor.Cells 32) (A : Nat) (chunks : List Payload) : Prop :=
  TailBlank (pagesEnd A (image chunks).length) m1 (A + lastOffset chunks) ∨
    ∀ i < lastOffset chunks, (A + i) / flashPageSize = (A + lastOffset chunks) / flashPageSize →
      (image chunks)[i]? = some 0xff

/-- The pages that meet the range cover it up to their end. -/
theorem covered_iff {A : PageAddr} {L : Nat} {pages : List PageAddr}
    (hpages : ∀ b : PageAddr, b ∈ pages ↔ A.val.toNat ≤ b.val.toNat ∧ b.val.toNat < A.val.toNat + L)
    (x : Word) : Covered pages x ↔ A.val.toNat ≤ x.toNat ∧ x.toNat < pagesEnd A.val.toNat L := by
  have hA := A.property
  simp only [pagesEnd, flashPageSize, dfuTransferSize] at hA ⊢
  constructor
  · rintro ⟨b, hb, hlo, hhi⟩
    have hb' := b.property
    obtain ⟨hle, hlt⟩ := (hpages b).mp hb
    simp only [flashPageSize, dfuTransferSize] at hb' hhi
    omega
  · rintro ⟨hlo, hhi⟩
    have hx := x.isLt
    have hpage : (BitVec.ofNat 32 (x.toNat / 1024 * 1024)).toNat = x.toNat / 1024 * 1024 := by
      rw [BitVec.toNat_ofNat]
      exact Nat.mod_eq_of_lt (by omega)
    refine ⟨⟨BitVec.ofNat 32 (x.toNat / 1024 * 1024), ?_⟩, (hpages _).mpr ?_, ?_⟩
    · rw [hpage, dfuTransferSize]
      omega
    · rw [hpage]
      omega
    · rw [hpage, flashPageSize]
      omega

/-- An image that is written is stored just if the last chunk does no harm. -/
theorem Written.stored_iff {m m' : Nor.Cells 32} {A : Word} {chunks : List Payload}
    (h : Written (pagesEnd A.toNat (image chunks).length) m1 m A.toNat chunks m')
    (hne : chunks ≠ []) (hfit : A.toNat + (image chunks).length < 2 ^ 32) :
    Stored m' A (image chunks) ↔ Undisturbed m1 A.toNat chunks := by
  have hlt := lastOffset_lt hne
  have hoff : ∀ i < (image chunks).length, (A + BitVec.ofNat 32 i).toNat = A.toNat + i :=
    fun i hi => offset_toNat (by omega)
  constructor
  · intro hstored
    by_cases htail : TailBlank (pagesEnd A.toNat (image chunks).length) m1 (A.toNat + lastOffset chunks)
    · exact .inl htail
    · refine .inr fun i hi hpage => ?_
      have hi' : i < (image chunks).length := Nat.lt_trans hi hlt
      have hlost := h.lost (A + BitVec.ofNat 32 i) ⟨htail, by rw [hoff i hi', hpage], by
        rw [hoff i hi']
        omega⟩
      rw [List.getElem?_eq_getElem hi', ← hstored i hi', hlost]
  · intro hun i hi
    have haddr := hoff i hi
    by_cases hlost : Lost (pagesEnd A.toNat (image chunks).length) m1
        (A.toNat + lastOffset chunks) (A + BitVec.ofNat 32 i)
    · obtain ⟨htail, hpage, hbefore⟩ := hlost
      have hblank := (hun.resolve_left htail) i (by omega) (by rw [← haddr, hpage])
      rw [h.lost _ ⟨htail, hpage, hbefore⟩]
      exact ((List.getElem?_eq_some_iff.mp hblank).2).symm
    · rw [h.hit _ hlost (by omega) (by omega), haddr, Nat.add_sub_cancel_left]
      exact List.getD_eq_getElem _ _ hi

/-- The pages end on a page boundary, past the image and inside the application flash. -/
theorem pagesEnd_bounds (cfg : Config) {A L : Nat} (hA : A % flashPageSize = 0)
    (hhi : A + L ≤ cfg.endAddr.toNat) : pagesEnd A L % flashPageSize = 0 ∧
      A + L ≤ pagesEnd A L ∧ pagesEnd A L ≤ cfg.endAddr.toNat := by
  obtain ⟨-, -, -, -, hend⟩ := cfg.addr_bounds
  simp only [pagesEnd, flashPageSize] at hA ⊢
  omega

/-- The plan on the store. -/
theorem plan_written {A : PageAddr} {pages : List PageAddr} {data : Payload} {rest : List Payload}
    (hlo : cfg.startAddr.toNat ≤ A.val.toNat)
    (hhi : A.val.toNat + (image (data :: rest)).length ≤ cfg.endAddr.toNat)
    (hpages : ∀ b : PageAddr, b ∈ pages ↔
      A.val.toNat ≤ b.val.toNat ∧ b.val.toNat < A.val.toNat + (image (data :: rest)).length) :
    ∃ m, Written (pagesEnd A.val.toNat (image (data :: rest)).length)
      (wipedCells cfg s.erased s.cells) m A.val.toNat (data :: rest)
      (runAll cfg s (downloadPlan A pages (data :: rest))).cells := by
  obtain ⟨hE, hfit, hEnd⟩ := pagesEnd_bounds cfg A.property hhi
  have hpos := data.pos
  have hlen : (image (data :: rest)).length = data.bytes.length + (image rest).length := by
    rw [image_cons, List.length_append]
  have hne : pages ≠ [] := List.ne_nil_of_mem ((hpages A).mpr ⟨Nat.le_refl _, by omega⟩)
  have happ : ∀ b ∈ pages, cfg.App b.val := by
    intro b hb
    obtain ⟨hle, hlt⟩ := (hpages b).mp hb
    exact ⟨by omega, by omega⟩
  obtain ⟨hdue, hcov, hother⟩ := erases_cells (s := s) hne happ
  rw [downloadPlan, runAll_append]
  generalize runAll cfg s (eraseCmds pages) = s' at hdue hcov hother
  have hahead : Ahead (pagesEnd A.val.toNat (image (data :: rest)).length)
      (wipedCells cfg s.erased s.cells) s'.cells A.val.toNat := by
    constructor
    · intro x hx hlt
      exact hcov x ((covered_iff hpages x).mpr ⟨hx, hlt⟩)
    · intro x hx
      refine hother x fun hin => ?_
      exact absurd ((covered_iff hpages x).mp hin).2 (Nat.not_lt.mpr hx)
  exact ⟨s'.cells, chunks_written hE hEnd rest hdue hahead hlo hfit⟩

/-- **When chunking does no harm.** The host erases the pages that meet `[A, A + L)`,
in any order, and downloads an image of `L` bytes chunk by chunk, each download
completed by GETSTATUS, with polls without a packet anywhere. The flash then holds
the image just if the blank scan of the last chunk finds what lies past the erased
pages blank, or what it erases before the chunk is `0xff` in the image. -/
theorem chunks_stored (cfg : Config) {σ : Dev} (hσ : (machine cfg).Reachable σ) (hrest : σ.AtRest)
    {A : PageAddr} {pages : List PageAddr} {chunks : List Payload}
    (hlo : cfg.startAddr.toNat ≤ A.val.toNat)
    (hhi : A.val.toNat + (image chunks).length ≤ cfg.endAddr.toNat)
    (hpages : ∀ b : PageAddr, b ∈ pages ↔
      A.val.toNat ≤ b.val.toNat ∧ b.val.toNat < A.val.toNat + (image chunks).length)
    {es es' : List Event}
    (hrun : HostRun (.rest []) es (.rest ((downloadPlan A pages chunks).map FlashCmd.download)))
    (hpolls : WithPolls cfg σ es es') :
    Stored ((machine cfg).run σ es').flash.mem A (image chunks) ↔
      Undisturbed (wipedCells cfg σ.dfu.erased σ.flash.mem) A.val.toNat chunks := by
  have hsound := sound_invariant cfg σ hσ
  rw [run_withPolls hσ hpolls]
  rw [session_commands cfg hsound.tidy hsound.idle hrest hrun]
  cases chunks with
  | nil =>
      refine iff_of_true (fun i hi => ?_) (.inr fun i hi => ?_)
      · exact absurd hi (Nat.not_lt_zero i)
      · exact absurd hi (Nat.not_lt_zero i)
  | cons data rest =>
      obtain ⟨-, -, hbound, -, -⟩ := cfg.addr_bounds
      obtain ⟨m, hwritten⟩ := plan_written
        (s := ⟨σ.dfu.erased, σ.dfu.prog.addr, σ.flash.mem⟩) hlo hhi hpages
      exact hwritten.stored_iff (by simp) (by omega)

theorem firstPage_aligned : (0x08002000 : Word).toNat % dfuTransferSize = 0 := rfl

/-- The first application page. -/
def firstPage : PageAddr := ⟨0x08002000, firstPage_aligned⟩

/-- Four bytes in chunks of two. -/
def twoChunks : List Payload :=
  [⟨[0xab, 0xcd], by decide, by decide, by decide⟩, ⟨[0x56, 0x78], by decide, by decide, by decide⟩]

/-- A reset, and the download of the two chunks. -/
def twoChunksEvents : List Event :=
  .reset :: sendAll ((downloadPlan firstPage [firstPage] twoChunks).map FlashCmd.download)

theorem twoChunks_run : HostRun (.rest []) twoChunksEvents
    (.rest ((downloadPlan firstPage [firstPage] twoChunks).map FlashCmd.download)) :=
  .cons (.other trivial) (sendAll_run (by decide))

theorem firstPage_only (b : PageAddr) : b ∈ [firstPage] ↔ firstPage.val.toNat ≤ b.val.toNat ∧
    b.val.toNat < firstPage.val.toNat + (image twoChunks).length := by
  have hb := b.property
  have hfirst : firstPage.val.toNat = 134225920 := rfl
  have hlen : (image twoChunks).length = 4 := rfl
  rw [List.mem_singleton, Subtype.ext_iff, ← BitVec.toNat_inj, hfirst, hlen]
  simp only [dfuTransferSize] at hb
  omega

/-- The two chunks over a blank part, with a poll without a packet after the reset:
what lies past the page is blank, so they are stored. -/
theorem chunks_stored_blank :
    Stored ((machine .stm32f103).run (Dev.fresh fun _ => 0xff)
      (.reset :: .flags 0 :: twoChunksEvents.tail)).flash.mem firstPage (image twoChunks) := by
  have hpolls : WithPolls .stm32f103 (Dev.fresh fun _ => 0xff) twoChunksEvents
      (.reset :: .flags 0 :: twoChunksEvents.tail) :=
    .cons _ (.idle ⟨rfl, by decide +kernel⟩ (.refl _ _ _))
  refine (chunks_stored .stm32f103 (.init (Dev.fresh_boot _)) (Dev.fresh_boot _).atRest (by decide)
    (by decide) firstPage_only twoChunks_run hpolls).mpr (.inl fun x _ _ => ?_)
  rw [wipedCells, if_neg (by decide)]
  rfl

/-- Over a part that holds `0x55` the second chunk erases the first: its scan
runs into the next page. -/
theorem second_chunk_erases :
    ¬ ∀ σ, (machine .stm32f103).Reachable σ → σ.AtRest →
      ∀ (A : PageAddr) (pages : List PageAddr) (chunks : List Payload),
        Config.stm32f103.startAddr.toNat ≤ A.val.toNat →
        A.val.toNat + (image chunks).length ≤ Config.stm32f103.endAddr.toNat →
        (∀ b : PageAddr, b ∈ pages ↔
          A.val.toNat ≤ b.val.toNat ∧ b.val.toNat < A.val.toNat + (image chunks).length) →
        ∀ es, HostRun (.rest []) es (.rest ((downloadPlan A pages chunks).map FlashCmd.download)) →
          Stored ((machine .stm32f103).run σ es).flash.mem A (image chunks) := by
  intro h
  have hstored := h (Dev.fresh fun _ => 0x55) (.init (Dev.fresh_boot _)) (Dev.fresh_boot _).atRest
    firstPage [firstPage] twoChunks (by decide) (by decide) firstPage_only twoChunksEvents
    twoChunks_run 0 (by decide)
  exact absurd hstored (by decide +kernel)

end LnDso
