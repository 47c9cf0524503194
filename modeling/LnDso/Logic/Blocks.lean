import LnDso.Logic.FlashMem
import LnDso.Logic.Guards

/-!
# Data blocks on cells

The DNBUSY branch fits three ranges together: the blank scan reads 1024 bytes
from the block's own address, the erase clears the page that contains this
address, and the store loop programs the whole half-words of the block.
-/

namespace LnDso

open Lib

variable {cfg : Config} {d : Dfu} {m : Nor.Cells 32}

/-- The cells as the store loop of a block at `base` finds them. -/
def readyCells (cfg : Config) (erased : Bool) (m : Nor.Cells 32) (base : Word) : Nor.Cells 32 :=
  Nor.ensureErased flashPageSize (wipedCells cfg erased m) base

/-- The wipe of `check_do_erase` is due. -/
def WipeDue (cfg : Config) (erased : Bool) : Prop := cfg.enableSafewrite = true ∧ erased = false

instance (cfg : Config) (erased : Bool) : Decidable (WipeDue cfg erased) :=
  inferInstanceAs (Decidable (_ ∧ _))

/-- The store loop of a block at `base` finds the cell at `a` erased: the wipe
is due, or the blank scan passes, or the page of `base`, which is erased if it
does not, contains `a`. -/
def Cleared (cfg : Config) (erased : Bool) (m : Nor.Cells 32) (base a : Word) : Prop :=
  WipeDue cfg erased ∨ Nor.Blank m base flashPageSize ∨
    a.toNat / flashPageSize = base.toNat / flashPageSize

instance (cfg : Config) (erased : Bool) (m : Nor.Cells 32) (base a : Word) :
    Decidable (Cleared cfg erased m base a) := inferInstanceAs (Decidable (_ ∨ _ ∨ _))

theorem wipedCells_due {erased : Bool} (h : WipeDue cfg erased) (m : Nor.Cells 32) :
    wipedCells cfg erased m = cfg.wipe m := by
  obtain ⟨hbuild, rfl⟩ := h
  simp [wipedCells, hbuild]

theorem wipedCells_else {erased : Bool} (h : ¬ WipeDue cfg erased) (m : Nor.Cells 32) :
    wipedCells cfg erased m = m := by
  refine if_neg fun hc => h ?_
  simpa [WipeDue] using hc

theorem wipe_app {a : Word} (h : cfg.App a) (m : Nor.Cells 32) : cfg.wipe m a = 0xff#8 := if_pos h

theorem readyCells_cleared {erased : Bool} {base : Word} {k : Nat} (hk : k < flashPageSize)
    (happ : cfg.App (base + BitVec.ofNat 32 k))
    (h : Cleared cfg erased m base (base + BitVec.ofNat 32 k)) :
    readyCells cfg erased m base (base + BitVec.ofNat 32 k) = 0xff#8 := by
  by_cases hdue : WipeDue cfg erased
  · have hwiped := wipe_app happ m
    rw [readyCells, wipedCells_due hdue, Nor.ensureErased]
    split
    · exact hwiped
    · by_cases hpage : (base + BitVec.ofNat 32 k).toNat / flashPageSize = base.toNat / flashPageSize
      · exact Nor.erasePage_same hpage
      · rw [Nor.erasePage_other hpage, hwiped]
  · rw [readyCells, wipedCells_else hdue, Nor.ensureErased]
    split
    · next hblank => exact hblank k hk
    · next hblank =>
      rcases h with hd | hb | hpage
      · exact absurd hd hdue
      · exact absurd hb hblank
      · exact Nor.erasePage_same hpage

theorem readyCells_kept {erased : Bool} {base a : Word} (h : ¬ Cleared cfg erased m base a) :
    readyCells cfg erased m base a = m a := by
  obtain ⟨hdue, hblank, hpage⟩ : ¬ WipeDue cfg erased ∧ ¬ Nor.Blank m base flashPageSize ∧
      a.toNat / flashPageSize ≠ base.toNat / flashPageSize := by
    simpa [Cleared, not_or] using h
  rw [readyCells, wipedCells_else hdue, Nor.ensureErased, if_neg hblank, Nor.erasePage_other hpage]

/-- The address of the block that waits. -/
def Dfu.baseaddr (d : Dfu) : Word := blockAddr d.prog.addr d.prog.blocknum

/-- The block lies in `[start_addr, end_addr)`, at an even address. -/
structure Dfu.Placed (cfg : Config) (d : Dfu) : Prop where
  even : d.baseaddr.toNat % 2 = 0
  pos : 0 < d.prog.len.toNat
  le : d.prog.len.toNat ≤ dfuTransferSize
  lo : cfg.startAddr.toNat ≤ d.baseaddr.toNat
  hi : d.baseaddr.toNat + d.prog.len.toNat ≤ cfg.endAddr.toNat

namespace Dfu.Placed

theorem offset (h : d.Placed cfg) {k : Nat} (hk : k < d.prog.len.toNat) :
    (d.baseaddr + BitVec.ofNat 32 k).toNat = d.baseaddr.toNat + k := by
  obtain ⟨-, -, hend, -, -⟩ := cfg.addr_bounds
  have hhi := h.hi
  rw [BitVec.toNat_add, BitVec.toNat_ofNat, Nat.mod_eq_of_lt (a := k) (by omega)]
  exact Nat.mod_eq_of_lt (by omega)

theorem app (h : d.Placed cfg) {k : Nat} (hk : k < d.prog.len.toNat) :
    cfg.App (d.baseaddr + BitVec.ofNat 32 k) := by
  have hlo := h.lo
  have hhi := h.hi
  rw [Config.App, h.offset hk]
  omega

theorem guard (h : d.Placed cfg) : blockGuard cfg d.baseaddr d.prog.len = true := by
  obtain ⟨-, -, hend, -, -⟩ := cfg.addr_bounds
  have hhi := h.hi
  refine (addrGuard_iff cfg _ _).mpr ⟨h.lo, ?_⟩
  rw [BitVec.toNat_add, BitVec.toNat_setWidth, Nat.mod_eq_of_lt (a := d.prog.len.toNat) (by omega),
    Nat.mod_eq_of_lt (by omega)]
  exact hhi

theorem blockCells (h : d.Placed cfg) (m : Nor.Cells 32) :
    blockCells cfg d m = Nor.programHalves cfg.reprogram d.prog.buf.halves d.baseaddr
      (d.prog.len.toNat / 2) 0 (readyCells cfg d.erased m d.baseaddr) := if_pos h.guard

end Dfu.Placed

/-- The three ranges fit for the block: the cell of an odd last byte, which no
store reaches, holds that byte already, and every half-word that is not erased
first takes its program. -/
structure Dfu.Storable (cfg : Config) (d : Dfu) (m : Nor.Cells 32) : Prop where
  cleared : d.prog.len.toNat % 2 = 1 →
    Cleared cfg d.erased m d.baseaddr (d.baseaddr + BitVec.ofNat 32 (d.prog.len.toNat - 1)) →
    d.prog.buf (d.prog.len.toNat - 1) = 0xff#8
  kept : d.prog.len.toNat % 2 = 1 →
    ¬ Cleared cfg d.erased m d.baseaddr (d.baseaddr + BitVec.ofNat 32 (d.prog.len.toNat - 1)) →
    d.prog.buf (d.prog.len.toNat - 1) = m (d.baseaddr + BitVec.ofNat 32 (d.prog.len.toNat - 1))
  halves : ∀ k < d.prog.len.toNat / 2,
    ¬ Cleared cfg d.erased m d.baseaddr (d.baseaddr + BitVec.ofNat 32 (2 * k)) →
    Nor.Takes cfg.reprogram (Nor.half m (d.baseaddr + BitVec.ofNat 32 (2 * k))) (d.prog.buf.halves k)

/-- Both cells of a half-word of the block are cleared, or neither is. -/
theorem cleared_succ (h : d.Placed cfg) {k : Nat} (hk : 2 * k + 1 < d.prog.len.toNat) :
    Cleared cfg d.erased m d.baseaddr (d.baseaddr + BitVec.ofNat 32 (2 * k + 1)) ↔
      Cleared cfg d.erased m d.baseaddr (d.baseaddr + BitVec.ofNat 32 (2 * k)) := by
  have heven := h.even
  unfold Cleared
  rw [h.offset hk, h.offset (Nat.lt_of_succ_lt hk)]
  have hpage : (d.baseaddr.toNat + (2 * k + 1)) / flashPageSize =
      (d.baseaddr.toNat + 2 * k) / flashPageSize := by
    simp only [flashPageSize]
    omega
  rw [hpage]

theorem half_readyCells (h : d.Placed cfg) {k : Nat} (hk : 2 * k + 1 < d.prog.len.toNat) (v : Half) :
    Nor.Takes cfg.reprogram (Nor.half (readyCells cfg d.erased m d.baseaddr)
        (d.baseaddr + BitVec.ofNat 32 (2 * k))) v ↔
      (¬ Cleared cfg d.erased m d.baseaddr (d.baseaddr + BitVec.ofNat 32 (2 * k)) →
        Nor.Takes cfg.reprogram (Nor.half m (d.baseaddr + BitVec.ofNat 32 (2 * k))) v) := by
  have hpage : 2 * k + 1 < flashPageSize := Nat.lt_of_lt_of_le hk h.le
  have hsucc := cleared_succ (m := m) h hk
  by_cases hc : Cleared cfg d.erased m d.baseaddr (d.baseaddr + BitVec.ofNat 32 (2 * k))
  · refine iff_of_true (.inl (Nor.half_eq_iff.mpr ⟨?_, ?_⟩)) fun hn => absurd hc hn
    · exact readyCells_cleared (Nat.lt_of_succ_lt hpage) (h.app (Nat.lt_of_succ_lt hk)) hc
    · rw [Nor.add_ofNat_succ]
      exact readyCells_cleared hpage (h.app hk) (hsucc.mpr hc)
  · rw [Nor.half_congr (m := m)]
    · simp [hc]
    · exact readyCells_kept hc
    · rw [Nor.add_ofNat_succ]
      exact readyCells_kept (mt hsucc.mp hc)

/-- The block is stored byte for byte exactly if it is storable. -/
theorem blockCells_exact (h : d.Placed cfg) :
    (∀ i < d.prog.len.toNat, blockCells cfg d m (d.baseaddr + BitVec.ofNat 32 i) = d.prog.buf i) ↔
      d.Storable cfg m := by
  obtain ⟨-, -, hend, -, -⟩ := cfg.addr_bounds
  have hhi := h.hi
  have hpos := h.pos
  have hle : d.prog.len.toNat ≤ flashPageSize := h.le
  have hexact := Nor.programHalves_exact cfg.reprogram d.prog.buf.halves d.baseaddr
    (d.prog.len.toNat / 2) (readyCells cfg d.erased m d.baseaddr) (by omega)
  have hbyte : ∀ i, Nor.dataByte d.prog.buf.halves i = d.prog.buf i := Nor.dataByte_halves _
  -- no store reaches an odd last byte
  have hlast : d.prog.len.toNat % 2 = 1 →
      blockCells cfg d m (d.baseaddr + BitVec.ofNat 32 (d.prog.len.toNat - 1)) =
        readyCells cfg d.erased m d.baseaddr
          (d.baseaddr + BitVec.ofNat 32 (d.prog.len.toNat - 1)) := by
    intro hodd
    rw [h.blockCells]
    refine Nor.programHalves_other _ _ _ _ _ _ fun j _ hj heq => ?_
    exact absurd (Nor.add_ofNat_inj _ (by omega) (by omega) heq) (by omega)
  rw [← h.blockCells] at hexact
  constructor
  · intro hall
    have htakes := hexact.mp fun j hj => (hall j (by omega)).trans (hbyte j).symm
    refine ⟨fun hodd hc => ?_, fun hodd hc => ?_, fun k hk => ?_⟩
    · rw [← hall _ (by omega), hlast hodd]
      exact readyCells_cleared (by omega) (h.app (by omega)) hc
    · rw [← hall _ (by omega), hlast hodd]
      exact readyCells_kept hc
    · exact (half_readyCells h (by omega) _).mp (htakes k hk)
  · intro hs i hi
    by_cases hpair : i < 2 * (d.prog.len.toNat / 2)
    · have htakes := hexact.mpr fun k hk => (half_readyCells h (by omega) _).mpr (hs.halves k hk)
      rw [htakes i hpair, hbyte]
    · have hodd : d.prog.len.toNat % 2 = 1 := by omega
      obtain rfl : i = d.prog.len.toNat - 1 := by omega
      rw [hlast hodd]
      by_cases hc : Cleared cfg d.erased m d.baseaddr
          (d.baseaddr + BitVec.ofNat 32 (d.prog.len.toNat - 1))
      · rw [hs.cleared hodd hc]
        exact readyCells_cleared (by omega) (h.app (by omega)) hc
      · rw [hs.kept hodd hc]
        exact readyCells_kept hc

/-! ## Whole pages -/

/-- A block of whole half-words at the start of a page of `[start_addr, end_addr)`. -/
structure Dfu.FillsPage (cfg : Config) (d : Dfu) : Prop where
  aligned : d.prog.addr.toNat % dfuTransferSize = 0
  lo : cfg.startAddr.toNat ≤ target d.prog.addr d.prog.blocknum
  hi : target d.prog.addr d.prog.blocknum + dfuTransferSize ≤ cfg.endAddr.toNat
  even : d.prog.len.toNat % 2 = 0
  pos : 0 < d.prog.len.toNat
  le : d.prog.len.toNat ≤ dfuTransferSize

namespace Dfu.FillsPage

theorem baseaddr (h : d.FillsPage cfg) :
    (d.baseaddr.toNat : Int) = target d.prog.addr d.prog.blocknum := by
  obtain ⟨-, -, hend, -, -⟩ := cfg.addr_bounds
  have hlo := h.lo
  have hhi := h.hi
  rw [Dfu.baseaddr, blockAddr_toNat]
  exact Int.emod_eq_of_lt (by omega) (by omega)

theorem page (h : d.FillsPage cfg) : d.baseaddr.toNat % flashPageSize = 0 := by
  have hbase := h.baseaddr
  have haligned := h.aligned
  simp only [target, dfuTransferSize, flashPageSize] at hbase haligned ⊢
  omega

theorem placed (h : d.FillsPage cfg) : d.Placed cfg := by
  have hbase := h.baseaddr
  have hpage := h.page
  have hlo := h.lo
  have hhi := h.hi
  have hle := h.le
  refine ⟨?_, h.pos, hle, ?_, ?_⟩
  · simp only [flashPageSize] at hpage
    omega
  · omega
  · omega

theorem offset (h : d.FillsPage cfg) {k : Nat} (hk : k < flashPageSize) :
    (d.baseaddr + BitVec.ofNat 32 k).toNat = d.baseaddr.toNat + k := by
  obtain ⟨-, -, hend, -, -⟩ := cfg.addr_bounds
  have hbase := h.baseaddr
  have hhi := h.hi
  simp only [flashPageSize] at hk
  rw [BitVec.toNat_add, BitVec.toNat_ofNat, Nat.mod_eq_of_lt (a := k) (by omega)]
  exact Nat.mod_eq_of_lt (by omega)

/-- The upload of the block number passes its guard. -/
theorem uploadGuard (h : d.FillsPage cfg) : uploadGuard cfg d.baseaddr = true := by
  obtain ⟨-, -, hend, -, -⟩ := cfg.addr_bounds
  have hbase := h.baseaddr
  have hlo := h.lo
  have hhi := h.hi
  simp only [dfuTransferSize] at hhi
  rw [LnDso.uploadGuard, addrGuard_iff, BitVec.toNat_add,
    show (BitVec.ofNat 32 dfuTransferSize).toNat = 1024 from rfl, Nat.mod_eq_of_lt (by omega)]
  omega

/-- The page is cleared as a whole. -/
theorem readyCells (h : d.FillsPage cfg) (m : Nor.Cells 32) {k : Nat} (hk : k < flashPageSize) :
    readyCells cfg d.erased m d.baseaddr (d.baseaddr + BitVec.ofNat 32 k) = 0xff#8 := by
  have hbase := h.baseaddr
  have hpage := h.page
  have hlo := h.lo
  have hhi := h.hi
  have hoff := h.offset hk
  simp only [flashPageSize, dfuTransferSize] at hk hpage hhi
  refine readyCells_cleared hk ⟨?_, ?_⟩ (.inr (.inr ?_))
  · rw [hoff]
    omega
  · rw [hoff]
    omega
  · rw [hoff]
    simp only [flashPageSize]
    omega

/-- The page then holds the block, padded with `0xff`. -/
theorem blockCells (h : d.FillsPage cfg) (m : Nor.Cells 32) {k : Nat} (hk : k < flashPageSize) :
    blockCells cfg d m (d.baseaddr + BitVec.ofNat 32 k) =
      if k < d.prog.len.toNat then d.prog.buf k else 0xff#8 := by
  have heven := h.even
  have hle := h.le
  simp only [flashPageSize, dfuTransferSize] at hk hle
  rw [h.placed.blockCells]
  split
  · next hin =>
    refine (Nor.programHalves_blank _ _ _ _ _ _ (by omega) (fun j _ hj => ?_) (Nat.zero_le _)
      (by omega)).trans (Nor.dataByte_halves _ _)
    exact h.readyCells m (show j < 1024 by omega)
  · next hout =>
    rw [Nor.programHalves_other, h.readyCells m hk]
    intro j _ hj heq
    exact absurd (Nor.add_ofNat_inj _ (by omega) (by omega) heq) (by omega)

end Dfu.FillsPage

end LnDso
