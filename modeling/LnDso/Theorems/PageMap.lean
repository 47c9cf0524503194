import LnDso.Logic.Pages
import LnDso.Theorems.Session

/-!
# Page-aligned downloads

Over a session of downloads that keep to pages the flash is the initial one
with their page writes applied in order: in each page the last write wins.
-/

namespace LnDso

open Lib

variable {cfg : Config} {m0 : Nor.Cells 32}

/-- The address pointer at boot. -/
def PageAddr.zero : PageAddr := ⟨0, rfl⟩

/-- Pointer and flash are what page-aligned downloads make of `m0`. -/
def PageMapped (cfg : Config) (m0 : Nor.Cells 32) (Ds : List Download) (ptr : Word)
    (m : Nor.Cells 32) : Prop :=
  ∀ ops : List PageOp, Ds = ops.map PageOp.download → ptr = pointerAfter PageAddr.zero ops ∧
    ∀ a : Word, a.toNat < cfg.endAddr.toNat →
      m a = Write.applyAll m0 ((pageWrites PageAddr.zero ops).map (PageWrite.cells cfg)) a

theorem pageMapped_carried (hbuild : cfg.enableSafewrite = false) (m0 : Nor.Cells 32) :
    Carried cfg fun Ds s => PageMapped cfg m0 Ds s.addr s.cells := by
  intro done D d m hmapped hholds ops hops
  obtain ⟨ops', last, rfl, hdone, hlast⟩ := List.append_eq_map_iff.mp hops
  obtain ⟨op, rfl, rfl⟩ : ∃ op, last = [op] ∧ D = op.download := by
    obtain ⟨op, rest, rfl, hop, hrest⟩ := List.map_eq_cons_iff.mp hlast
    rw [List.map_eq_nil_iff] at hrest
    exact ⟨op, by rw [hrest], hop.symm⟩
  obtain ⟨hptr, hcells⟩ := hmapped ops' hdone.symm
  refine ⟨?_, fun a ha => ?_⟩
  · rw [pointerAfter_snoc]
    exact nextAddr_op hholds hptr
  · show dnbusyCells cfg d m a = _
    rw [dnbusyCells_op hbuild hholds hptr m ha, pageWrites_snoc, List.map_append,
      Write.applyAll_append]
    exact Write.applyAll_congr (hcells a ha) _

/-- Pages at different addresses share no cell. -/
theorem not_covers_of_ne {w w' : PageWrite} {a : Word} (hw : w.addr % dfuTransferSize = 0)
    (hw' : w'.addr % dfuTransferSize = 0) (hne : w'.addr ≠ w.addr) (h : w.Covers a) :
    ¬ w'.Covers a := by
  obtain ⟨hlo, hhi⟩ := h
  rintro ⟨hlo', hhi'⟩
  simp only [dfuTransferSize] at hw hw' hhi hhi'
  omega

/-- **Last writer wins.** In every session of page-aligned downloads, each
completed by GETSTATUS, with any other requests between them and polls without a
packet anywhere: a page of the
application flash holds what the last block for it brought, padded with `0xff`,
or `0xff` throughout if an ERASE was last; every other cell up to the end of the
flash is unchanged. A block whose target wraps around hits no page. -/
theorem page_map_refined (cfg : Config) (hbuild : cfg.enableSafewrite = false) {σ : Dev}
    (hboot : σ.Boot) {es es' : List Event} {ops : List PageOp}
    (hrun : HostRun (.rest []) es (.rest (ops.map PageOp.download)))
    (hpolls : WithPolls cfg σ es es') :
    let τ := (machine cfg).run σ es'
    let ws := pageWrites PageAddr.zero ops
    (∀ l w r, ws = l ++ w :: r → w.InApp cfg → (∀ w' ∈ r, w'.addr ≠ w.addr) →
      ∀ (a : Word) (k : Nat), k < dfuTransferSize → (a.toNat : Int) = w.addr + k →
        τ.flash.mem a = w.data.getD k 0xff) ∧
    ∀ a : Word, a.toNat < cfg.endAddr.toNat → (∀ w ∈ ws, w.InApp cfg → ¬ w.Covers a) →
      τ.flash.mem a = σ.flash.mem a := by
  rw [run_withPolls (.init hboot) hpolls]
  intro τ ws
  have hstart : PageMapped cfg σ.flash.mem [] σ.dfu.prog.addr σ.flash.mem := by
    intro ops hops
    obtain rfl := List.map_eq_nil_iff.mp hops.symm
    exact ⟨hboot.addr, fun _ _ => rfl⟩
  have hmapped := (session (pageMapped_carried hbuild σ.flash.mem) (tidy_invariant cfg σ (.init hboot))
    hboot.flash hboot.atRest hstart hrun ops rfl).2
  constructor
  · intro l w r hws happ hlast a k hk hak
    obtain ⟨-, -, -, -, hend⟩ := cfg.addr_bounds
    have haligned : ∀ w' ∈ ws, w'.addr % dfuTransferSize = 0 := fun w' hw' => pageWrites_aligned hw'
    have hw := haligned w (hws ▸ List.mem_append_right l List.mem_cons_self)
    have hcover : w.Covers a := ⟨by omega, by omega⟩
    have hin : a.toNat < cfg.endAddr.toNat := by
      have hlt := happ.2
      simp only [dfuTransferSize] at hw hk
      omega
    have hmiss : ∀ c ∈ r.map (PageWrite.cells cfg), c a = none := fun c hc => by
      obtain ⟨w', hw', rfl⟩ := List.mem_map.mp hc
      have hmem : w' ∈ ws := hws ▸ List.mem_append_right l (List.mem_cons_of_mem w hw')
      exact PageWrite.cells_miss fun _ =>
        not_covers_of_ne hw (haligned w' hmem) (hlast w' hw') hcover
    refine (hmapped a hin).trans ?_
    rw [show pageWrites PageAddr.zero ops = l ++ w :: r from hws, List.map_append, List.map_cons]
    exact Write.applyAll_last (PageWrite.cells_hit happ hk hak) hmiss
  · intro a ha hout
    refine (hmapped a ha).trans (Write.applyAll_other fun c hc => ?_)
    obtain ⟨w, hw, rfl⟩ := List.mem_map.mp hc
    exact PageWrite.cells_miss (hout w hw)

/-- SETADDR to the first application page, then a block of two bytes. -/
def setaddrAndBlock : List PageOp :=
  [.setaddr ⟨0x08002000, rfl⟩,
    .block ⟨2, by decide⟩ ⟨[0x12, 0x34], by decide, by decide, by decide⟩]

/-- What the host sends for the two. -/
def setaddrAndBlockEvents : List Event :=
  [.reset, .setup ⟨0x21, 1, 0, 0, 5⟩, .out (.ofBytes [0x21, 0x00, 0x20, 0x00, 0x08]), .inDone,
    .setup ⟨0xA1, 3, 0, 0, 6⟩, .inDone, .out (.ofBytes []),
    .setup ⟨0x21, 1, 2, 0, 2⟩, .out (.ofBytes [0x12, 0x34]), .inDone,
    .setup ⟨0xA1, 3, 0, 0, 6⟩, .inDone, .out (.ofBytes [])]

theorem setaddrAndBlock_run :
    HostRun (.rest []) setaddrAndBlockEvents (.rest (setaddrAndBlock.map PageOp.download)) := by
  refine .cons (.other trivial) (.cons (.start (PageOp.download (.setaddr ⟨0x08002000, rfl⟩)) 0) ?_)
  refine .cons (.last (by decide) (by decide)) (.cons (.wait trivial) ?_)
  refine .cons (.ask (v := 0) (i := 0) (w := 6) (by decide)) (.cons .read (.cons (.status _) ?_))
  refine .cons (.start (PageOp.download (.block ⟨2, by decide⟩
    ⟨[0x12, 0x34], by decide, by decide, by decide⟩)) 0) ?_
  refine .cons (.last (by decide) (by decide)) (.cons (.wait trivial) ?_)
  refine .cons (.ask (v := 0) (i := 0) (w := 6) (by decide)) (.cons .read (.cons (.status _) ?_))
  exact .nil

/-- The same with polls without a packet in the data stage of the first download
and before its status is read. -/
def setaddrAndBlockPolls : List Event :=
  [.reset, .flags 0, .setup ⟨0x21, 1, 0, 0, 5⟩, .flags 0, .flags 0,
    .out (.ofBytes [0x21, 0x00, 0x20, 0x00, 0x08]), .inDone,
    .setup ⟨0xA1, 3, 0, 0, 6⟩, .flags 0, .inDone, .flags 0, .out (.ofBytes []),
    .setup ⟨0x21, 1, 2, 0, 2⟩, .out (.ofBytes [0x12, 0x34]), .inDone,
    .setup ⟨0xA1, 3, 0, 0, 6⟩, .inDone, .out (.ofBytes [])]

theorem setaddrAndBlock_polls :
    WithPolls .stm32f103 (Dev.fresh fun _ => 0x55) setaddrAndBlockEvents setaddrAndBlockPolls := by
  refine .cons _ (.idle ⟨rfl, by decide +kernel⟩ (.cons _ ?_))
  refine .idle ⟨rfl, by decide +kernel⟩ (.idle ⟨rfl, by decide +kernel⟩ (.cons _ (.cons _ ?_)))
  refine .cons _ (.idle ⟨rfl, by decide +kernel⟩ (.cons _ (.idle ⟨rfl, by decide +kernel⟩ ?_)))
  exact .refl _ _ _

/-- Over a part full of `0x55`: the second byte, and the last cell of the page. -/
theorem page_map_refined_oneBlock :
    let τ := (machine .stm32f103).run (Dev.fresh fun _ => 0x55) setaddrAndBlockPolls
    τ.flash.mem 0x08002001 = 0x34 ∧ τ.flash.mem 0x080023ff = 0xff := by
  have hmap := (page_map_refined .stm32f103 rfl (Dev.fresh_boot fun _ => 0x55)
    setaddrAndBlock_run setaddrAndBlock_polls).1 [] ⟨0x08002000, [0x12, 0x34]⟩ [] rfl (by decide)
    (fun _ hw' => absurd hw' List.not_mem_nil)
  constructor
  · rw [hmap 0x08002001 1 (by decide) rfl]
    rfl
  · rw [hmap 0x080023ff 1023 (by decide) rfl]
    exact List.getD_eq_default _ _ (by decide)

end LnDso
