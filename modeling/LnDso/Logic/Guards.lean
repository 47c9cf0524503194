import LnDso.Machine.Dfu
import LnDso.Logic.FlashSpec

/-!
# The address guards

What a passed guard says about the addresses behind it, with every sum taken
modulo 2^32. Erase pages are aligned and the application flash starts on a page
boundary, so no page of an address above the start reaches below it; and an
address that wraps comes back far below the flash.
-/

namespace LnDso

open Lib

open Flash

variable (cfg : Config)

theorem addrGuard_iff (baseaddr len : Word) :
    addrGuard cfg baseaddr len = true ↔
      cfg.startAddr.toNat ≤ baseaddr.toNat ∧ (baseaddr + len).toNat ≤ cfg.endAddr.toNat := by
  rw [addrGuard, Bool.and_eq_true, decide_eq_true_iff, decide_eq_true_iff]
  exact Iff.rfl

/-- `a + k` either stays above `a` or wraps below `k`. -/
theorem toNat_add_ofNat (a : Word) {k : Nat} (hk : k < 2 ^ 16) :
    (a + BitVec.ofNat 32 k).toNat = a.toNat + k ∧ a.toNat + k < 2 ^ 32 ∨
      (a + BitVec.ofNat 32 k).toNat < k ∧ 2 ^ 32 ≤ a.toNat + k := by
  have ha := a.isLt
  rw [BitVec.toNat_add, BitVec.toNat_ofNat]
  omega

variable {cfg}

/-- The page of an address at or above the start is outside the bootloader. -/
theorem not_boot_of_page {a base : Word} (hbase : cfg.startAddr.toNat ≤ base.toNat)
    (hpage : a.toNat / flashPageSize = base.toNat / flashPageSize) : ¬ cfg.Boot a := by
  obtain ⟨-, -, -, halign, -⟩ := cfg.addr_bounds
  simp only [flashPageSize] at hpage
  rintro ⟨-, hlt⟩
  omega

/-- No address a block reaches from the start on is in the bootloader, wrapped
or not. -/
theorem not_boot_of_offset {base : Word} (hbase : cfg.startAddr.toNat ≤ base.toNat) {k : Nat}
    (hk : k < 2 ^ 16) : ¬ cfg.Boot (base + BitVec.ofNat 32 k) := by
  rintro ⟨hlo, hhi⟩
  rcases toNat_add_ofNat base hk with ⟨h, -⟩ | ⟨h, -⟩
  · omega
  · exact absurd hlo (by omega)

/-! ## Targets as integers -/

/-- Address_Pointer + (wBlockNum - 2) * wTransferSize as an unbounded integer. -/
def target (addr : Word) (blocknum : Half) : Int :=
  addr.toNat + ((blocknum.toNat : Int) - 2) * dfuTransferSize

/-- The code computes the target modulo 2^32. -/
theorem blockAddr_toNat (addr : Word) (blocknum : Half) :
    ((blockAddr addr blocknum).toNat : Int) = target addr blocknum % 2 ^ 32 := by
  rw [blockAddr, BitVec.toNat_add, BitVec.toNat_ofInt, target]
  have hA := addr.isLt
  have hn := blocknum.isLt
  simp only [dfuTransferSize]
  omega

theorem target_bounds (addr : Word) (blocknum : Half) :
    -2048 ≤ target addr blocknum ∧ target addr blocknum < 2 ^ 32 + 2 ^ 26 := by
  have hA := addr.isLt
  have hn := blocknum.isLt
  simp only [target, dfuTransferSize]
  omega

/-- A guard is exact for an integer target exactly when the sum it computes
does not wrap: a wrapped sum is small and passes, and a target that is itself
out of range ends below the flash or passes only through such a sum. -/
theorem guard_exact_iff {S E : Nat} {T b len : Int} (hS : 0x08000000 ≤ S) (hSE : S < E)
    (hE : E < 2 ^ 31) (hlo : -2048 ≤ T) (hhi : T < 2 ^ 32 + 2 ^ 26) (hb : b = T % 2 ^ 32)
    (hlen0 : 0 ≤ len) (hlen : len < 2 ^ 16) :
    ((S ≤ b ∧ (b + len) % 2 ^ 32 ≤ E) ↔ (S ≤ T ∧ T + len ≤ E)) ↔ b + len < 2 ^ 32 := by
  constructor
  · intro h
    by_contra hc
    omega
  · intro h
    omega

/-- `addrGuard` in terms of the integer sum. -/
theorem addrGuard_iff_int (base len : Word) :
    addrGuard cfg base len = true ↔
      (cfg.startAddr.toNat : Int) ≤ base.toNat ∧
        ((base.toNat : Int) + len.toNat) % 2 ^ 32 ≤ cfg.endAddr.toNat := by
  rw [addrGuard_iff, BitVec.toNat_add]
  omega

/-! ## Accesses inside the application flash -/

/-- Every address the access hits is in `[start_addr, end_addr)`. -/
def Within (cfg : Config) (op : FlashOp) : Prop := ∀ a, op.Hits a → cfg.App a

/-- An offset into a range inside the application flash. -/
theorem app_of_offset {base : Word} {len k : Nat} (hlo : cfg.startAddr.toNat ≤ base.toNat)
    (hhi : base.toNat + len ≤ cfg.endAddr.toNat) (hk : k < len) :
    cfg.App (base + BitVec.ofNat 32 k) := by
  obtain ⟨-, -, hend, -⟩ := cfg.addr_bounds
  have hadd : (base + BitVec.ofNat 32 k).toNat = base.toNat + k := by
    rw [BitVec.toNat_add, BitVec.toNat_ofNat]
    omega
  exact ⟨by omega, by omega⟩

theorem scanOps_within {base : Word} (hlo : cfg.startAddr.toNat ≤ base.toNat)
    (hhi : base.toNat + 1024 ≤ cfg.endAddr.toNat) : ScanOps (Within cfg) base := by
  rintro j hj a ⟨i, hi, rfl⟩
  rw [BitVec.add_assoc, ← BitVec.ofNat_add]
  exact app_of_offset hlo hhi (by omega)

/-- The page of an address inside the application flash lies inside it. -/
theorem eraseOps_within {base : Word} (h : cfg.App base) : EraseOps (Within cfg) base := by
  obtain ⟨-, -, -, hstart, hend⟩ := cfg.addr_bounds
  obtain ⟨hlo, hhi⟩ := h
  intro cr bsy a hpage
  simp only [FlashOp.Hits, flashPageSize] at hpage
  exact ⟨by omega, by omega⟩

theorem programOps_within {base : Word} {len : Nat} (hlo : cfg.startAddr.toNat ≤ base.toNat)
    (hhi : base.toNat + len ≤ cfg.endAddr.toNat) : ProgramOps (Within cfg) base len := by
  rintro i hi cr bsy v a (rfl | rfl)
  · exact app_of_offset hlo hhi (by omega)
  · rw [Nor.add_ofNat_succ]
    exact app_of_offset hlo hhi (by omega)

theorem copy_within {base : Word} (hlo : cfg.startAddr.toNat ≤ base.toNat)
    (hhi : base.toNat + dfuTransferSize ≤ cfg.endAddr.toNat) {j : Nat} (hj : j < dfuTransferSize) :
    Within cfg (.copy (base + BitVec.ofNat 32 j)) := by
  rintro a rfl
  exact app_of_offset hlo hhi hj

theorem wipeOps_within : WipeOps cfg (Within cfg) :=
  fun _ hlo hhi _ => ⟨scanOps_within hlo hhi, eraseOps_within ⟨hlo, by omega⟩⟩

end LnDso
