import LnDso.Machine.Poll
import LnDso.Logic.Completion
import LnDso.Logic.Guards

/-!
# When the address guards are exact

The download, erase and upload guards against the integer range they stand
for, and the addresses the code behind them reaches. A guard is exact unless
its sum wraps; behind the download guard the blank scan, which reads 1024 bytes
whatever the block's length, must fit as well.
-/

namespace LnDso

open Lib Flash

variable {cfg : Config}

/-- The download guard passes exactly on integer targets in range, and the
DNBUSY branch on such a block reaches only the application flash. -/
def BlockExact (cfg : Config) (addr : Word) (blocknum len : Half) : Prop :=
  (blockGuard cfg (blockAddr addr blocknum) len = true ↔
    (cfg.startAddr.toNat : Int) ≤ target addr blocknum ∧
      target addr blocknum + len.toNat ≤ cfg.endAddr.toNat) ∧
  ∀ σ : Dev, σ.flash.cr.strt = false → σ.dfu.prog.addr = addr → σ.dfu.prog.blocknum = blocknum →
    σ.dfu.prog.len = len → Logs (Within cfg) σ.flash (dnbusyBlock cfg σ).flash

/-- The erase guard passes exactly on pages in range, and the DNBUSY branch on
such a command reaches only the application flash. -/
def EraseExact (cfg : Config) (baseaddr : Word) : Prop :=
  (eraseGuard cfg baseaddr = true ↔
    cfg.startAddr.toNat ≤ baseaddr.toNat ∧ baseaddr.toNat + 1024 ≤ cfg.endAddr.toNat) ∧
  ∀ σ : Dev, σ.flash.cr.strt = false → σ.dfu.prog.operand = baseaddr →
    Logs (Within cfg) σ.flash (dnbusyCommand cfg σ).flash

/-- The upload guard passes exactly on integer targets in range, and the upload
copies only application flash. -/
def UploadExact (cfg : Config) (addr : Word) (blocknum : Half) : Prop :=
  (uploadGuard cfg (blockAddr addr blocknum) = true ↔
    (cfg.startAddr.toNat : Int) ≤ target addr blocknum ∧
      target addr blocknum + 1024 ≤ cfg.endAddr.toNat) ∧
  ∀ σ : Dev, σ.dfu.prog.addr = addr → σ.pipe.usbReq.wValue = blocknum →
    Logs (Within cfg) σ.flash (dfuUploadBlock cfg σ).flash

/-- The range from `T` does not cross a multiple of 2^32. -/
def NoWrap (T len : Int) : Prop := T % 2 ^ 32 + len < 2 ^ 32

/-- A range in the application flash leaves room for the blank scan. -/
def ScanFits (cfg : Config) (T len : Int) : Prop :=
  (cfg.startAddr.toNat : Int) ≤ T → T + len ≤ cfg.endAddr.toNat → T + 1024 ≤ cfg.endAddr.toNat

/-! ## The guards -/

/-- All three guards, at an address given modulo 2^32. -/
theorem addrGuard_exact_iff (cfg : Config) (base len : Word) {T : Int}
    (hb : (base.toNat : Int) = T % 2 ^ 32) (hlo : -2048 ≤ T) (hhi : T < 2 ^ 32 + 2 ^ 26)
    (hlen : len.toNat < 2 ^ 16) :
    (addrGuard cfg base len = true ↔
      (cfg.startAddr.toNat : Int) ≤ T ∧ T + len.toNat ≤ cfg.endAddr.toNat) ↔
    NoWrap T len.toNat := by
  obtain ⟨hS, hSE, hE, -⟩ := cfg.addr_bounds
  rw [addrGuard_iff_int, NoWrap, ← hb]
  exact guard_exact_iff hS hSE hE hlo hhi hb (by omega) (by omega)

theorem blockGuard_exact_iff (cfg : Config) (addr : Word) (blocknum len : Half) :
    (blockGuard cfg (blockAddr addr blocknum) len = true ↔
      (cfg.startAddr.toNat : Int) ≤ target addr blocknum ∧
        target addr blocknum + len.toNat ≤ cfg.endAddr.toNat) ↔
    NoWrap (target addr blocknum) len.toNat := by
  obtain ⟨hlo, hhi⟩ := target_bounds addr blocknum
  have hlen : (len.setWidth 32).toNat = len.toNat := by
    rw [BitVec.toNat_setWidth]
    exact Nat.mod_eq_of_lt (by omega)
  have h := addrGuard_exact_iff cfg _ (len.setWidth 32) (blockAddr_toNat addr blocknum) hlo hhi
    (by omega)
  rwa [hlen] at h

theorem uploadGuard_exact_iff (cfg : Config) (addr : Word) (blocknum : Half) :
    (uploadGuard cfg (blockAddr addr blocknum) = true ↔
      (cfg.startAddr.toNat : Int) ≤ target addr blocknum ∧
        target addr blocknum + 1024 ≤ cfg.endAddr.toNat) ↔
    NoWrap (target addr blocknum) 1024 := by
  obtain ⟨hlo, hhi⟩ := target_bounds addr blocknum
  exact addrGuard_exact_iff cfg _ _ (blockAddr_toNat addr blocknum) hlo hhi (by decide)

theorem eraseGuard_exact_iff (cfg : Config) (base : Word) :
    (eraseGuard cfg base = true ↔
      cfg.startAddr.toNat ≤ base.toNat ∧ base.toNat + 1024 ≤ cfg.endAddr.toNat) ↔
    NoWrap base.toNat 1024 := by
  have hbase := base.isLt
  have h := addrGuard_exact_iff cfg base (BitVec.ofNat 32 dfuTransferSize)
    (show (base.toNat : Int) = (base.toNat : Int) % 2 ^ 32 by omega) (by omega) (by omega)
    (by decide)
  rw [show (BitVec.ofNat 32 dfuTransferSize).toNat = 1024 from rfl] at h
  refine Iff.trans (iff_congr Iff.rfl ?_) h
  omega

/-! ## Exactness with the accesses behind it -/

/-- An address whose integer target lies in the application flash is that target. -/
theorem blockAddr_of_in_range {addr : Word} {blocknum : Half}
    (hlo : (cfg.startAddr.toNat : Int) ≤ target addr blocknum)
    (hhi : target addr blocknum ≤ cfg.endAddr.toNat) :
    ((blockAddr addr blocknum).toNat : Int) = target addr blocknum := by
  obtain ⟨-, -, hE, -⟩ := cfg.addr_bounds
  rw [blockAddr_toNat]
  omega

/-- A block in range, with room for the scan, reaches only the application. -/
theorem blockOps_within {prog : Prog}
    (hwrap : NoWrap (target prog.addr prog.blocknum) prog.len.toNat)
    (hscan : ScanFits cfg (target prog.addr prog.blocknum) prog.len.toNat) :
    BlockOps cfg (Within cfg) prog := by
  intro hguard
  have hexact := (blockGuard_exact_iff cfg prog.addr prog.blocknum prog.len).mpr hwrap
  obtain ⟨hlo, hhi⟩ := hexact.mp hguard
  have hfit := hscan hlo hhi
  have hbase := blockAddr_of_in_range hlo (by omega)
  exact ⟨scanOps_within (by omega) (by omega), eraseOps_within ⟨by omega, by omega⟩,
    programOps_within (by omega) (by omega)⟩

/-- A device over blank flash with a block to apply. -/
def blankWith (addr : Word) (blocknum len : Half) : Dev :=
  { Dev.fresh (fun _ => 0xff) with
    dfu := { usbdfuState := .dfuDnbusy, prog := ⟨fun _ => 0, len, addr, blocknum⟩,
             erased := false } }

/-- On blank flash the scan of an accepted block reads all 1024 bytes. -/
theorem blankWith_scans {addr : Word} {blocknum len : Half}
    (hguard : blockGuard cfg (blockAddr addr blocknum) len = true) {j : Nat} (hj : j < 256) :
    .scan (blockAddr addr blocknum + BitVec.ofNat 32 (4 * j)) ∈
      (dnbusyBlock cfg (blankWith addr blocknum len)).flash.log := by
  let σ := safewriteErase cfg (blankWith addr blocknum len)
  have hblank : ∀ a, σ.flash.mem a = 0xff#8 := by
    intro a
    show (safewriteErase cfg (blankWith addr blocknum len)).flash.mem a = 0xff#8
    unfold safewriteErase
    split
    · exact congrFun (checkDoErase_blank cfg _ fun _ => rfl) a
    · rfl
  have hwipe : WipeOps cfg fun _ => True := fun _ _ _ _ => ⟨fun _ _ => trivial, fun _ _ => trivial⟩
  have hstrt : σ.flash.cr.strt = false := (safewriteErase_logs hwipe rfl).strt rfl
  have hscan := (flashPageIsErased_iff (blockAddr addr blocknum) σ.flash).mpr fun i _ => hblank _
  have hmem := flashPageIsErasedLoop_blank hscan (Nat.zero_le j) (by omega)
  have hlogs : Logs (fun _ => True) (flashEraseIfNeeded (blockAddr addr blocknum) σ.flash)
      (dnbusyBlock cfg (blankWith addr blocknum len)).flash := by
    have hguard' : blockGuard cfg (blockAddr (blankWith addr blocknum len).dfu.prog.addr
        (blankWith addr blocknum len).dfu.prog.blocknum)
        (blankWith addr blocknum len).dfu.prog.len = true := hguard
    unfold dnbusyBlock
    dsimp only
    rw [safewriteErase_prog, if_pos hguard']
    refine flashProgramBuffer_logs _ _ ?_ fun _ _ _ _ _ => trivial
    exact (flashEraseIfNeeded_logs (Q := fun _ => True) hstrt (fun _ _ => trivial)
      fun _ _ => trivial).strt hstrt
  refine hlogs.mem_log ?_
  rw [flashEraseIfNeeded_blank fun i _ => hblank _]
  exact hmem

/-- The download guard and the accesses behind it are right exactly when the
range does not wrap and leaves room for the scan. -/
theorem blockExact_iff (addr : Word) (blocknum len : Half) :
    BlockExact cfg addr blocknum len ↔
      NoWrap (target addr blocknum) len.toNat ∧
        ScanFits cfg (target addr blocknum) len.toNat := by
  constructor
  · rintro ⟨hguard, hlogs⟩
    refine ⟨(blockGuard_exact_iff _ addr blocknum len).mp hguard, fun hlo hhi => ?_⟩
    by_contra hover
    have hpass := hguard.mpr ⟨hlo, hhi⟩
    have hbase := blockAddr_of_in_range hlo (by omega)
    -- the last byte of the last word scanned is past the end
    obtain ⟨ops, hlog, hops, -⟩ := (hlogs (blankWith addr blocknum len) rfl rfl rfl rfl).ops
    have hscan := blankWith_scans hpass (j := 255) (by decide)
    rw [hlog] at hscan
    have hin : Within cfg (.scan (blockAddr addr blocknum + BitVec.ofNat 32 (4 * 255))) :=
      hops _ (by simpa [blankWith, Dev.fresh] using hscan)
    have hlast := hin (blockAddr addr blocknum + BitVec.ofNat 32 1023)
      ⟨3, by decide, by rw [BitVec.add_assoc, ← BitVec.ofNat_add]⟩
    obtain ⟨-, -, hE, -⟩ := cfg.addr_bounds
    have hadd : (blockAddr addr blocknum + BitVec.ofNat 32 1023).toNat =
        (blockAddr addr blocknum).toNat + 1023 := by
      rw [BitVec.toNat_add, BitVec.toNat_ofNat]
      omega
    have := hlast.2
    omega
  · rintro ⟨hwrap, hscan⟩
    refine ⟨(blockGuard_exact_iff _ addr blocknum len).mpr hwrap, ?_⟩
    rintro σ hs rfl rfl rfl
    exact dnbusyBlock_logs wipeOps_within (blockOps_within hwrap hscan) hs

/-- The erase guard is right exactly when the page does not wrap. -/
theorem eraseExact_iff (baseaddr : Word) :
    EraseExact cfg baseaddr ↔ NoWrap baseaddr.toNat 1024 := by
  constructor
  · exact fun h => (eraseGuard_exact_iff _ baseaddr).mp h.1
  · intro hwrap
    have hexact := (eraseGuard_exact_iff cfg baseaddr).mpr hwrap
    refine ⟨hexact, ?_⟩
    rintro σ hs rfl
    refine dnbusyCommand_logs wipeOps_within (fun hguard => ?_) hs
    obtain ⟨hlo, hhi⟩ := hexact.mp hguard
    exact ⟨scanOps_within hlo hhi, eraseOps_within ⟨hlo, by omega⟩⟩

/-- The upload guard is right exactly when the range does not wrap. -/
theorem uploadExact_iff (addr : Word) (blocknum : Half) :
    UploadExact cfg addr blocknum ↔ NoWrap (target addr blocknum) 1024 := by
  constructor
  · exact fun h => (uploadGuard_exact_iff _ addr blocknum).mp h.1
  · intro hwrap
    have hexact := (uploadGuard_exact_iff cfg addr blocknum).mpr hwrap
    refine ⟨hexact, ?_⟩
    rintro σ rfl rfl
    refine dfuUploadBlock_logs fun hguard j hj => ?_
    obtain ⟨hlo, hhi⟩ := hexact.mp hguard
    have hbase := blockAddr_of_in_range hlo (by omega)
    exact copy_within (by omega) (by simp only [dfuTransferSize]; omega) hj

/-- **When the guards are exact.** For every build: the download guard is exact,
and the code behind it stays in the application flash, if and only if the
target range does not cross 2^32 and, when in range, leaves room for the
1024-byte scan; the erase and upload guards, whose length is 1024, if and only
if their range does not cross 2^32. -/
theorem guards_exact_iff (cfg : Config) :
    (∀ addr blocknum len, BlockExact cfg addr blocknum len ↔
      NoWrap (target addr blocknum) len.toNat ∧ ScanFits cfg (target addr blocknum) len.toNat) ∧
    (∀ baseaddr, EraseExact cfg baseaddr ↔ NoWrap baseaddr.toNat 1024) ∧
    (∀ addr blocknum, UploadExact cfg addr blocknum ↔ NoWrap (target addr blocknum) 1024) :=
  ⟨blockExact_iff, eraseExact_iff, uploadExact_iff⟩

/-- The pointer's initial value 0 with block number 1: the target is -1024, the
address 0xfffffc00, and the sum with a full block wraps to 0 and passes. -/
theorem block_one_passes :
    ¬ ∀ (addr : Word) (blocknum len : Half), blocknum ≠ 0 → 1 ≤ len.toNat → len.toNat ≤ 1024 →
      BlockExact .stm32f103 addr blocknum len := by
  intro h
  have hexact := (h 0 1 1024 (by decide) (by decide) (by decide)).1
  have hpass : blockGuard .stm32f103 (blockAddr 0 1) 1024 = true := by decide
  exact absurd (hexact.mp hpass).1 (by decide)

end LnDso
