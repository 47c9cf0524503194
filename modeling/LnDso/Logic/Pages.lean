import Mathlib.Data.List.GetD
import LnDso.Lib.LastWrite
import LnDso.Logic.FlashMem
import LnDso.Logic.Guards

/-!
# Downloads as page writes

What a host means by a download, the page it writes, and what the DNBUSY branch
makes of it, in a build without ENABLE_SAFEWRITE: on the flash both are the
same write.
-/

namespace LnDso

open Lib

/-! ## Downloads -/

/-- An address on a page boundary. -/
abbrev PageAddr := { a : Word // a.toNat % dfuTransferSize = 0 }

/-- The data of a block: whole half-words, at most a page. -/
structure Payload where
  bytes : List Byte
  even : bytes.length % 2 = 0
  pos : 0 < bytes.length
  le : bytes.length ≤ dfuTransferSize

/-- A command of block number 0 that is neither SETADDR nor ERASE. -/
structure OtherCommand where
  first : Byte
  rest : List Byte
  ne_erase : first ≠ cmdErase
  ne_setaddr : first ≠ cmdSetaddr
  lt : rest.length < dfuTransferSize

/-- A download that keeps to pages. -/
inductive PageOp
  | setaddr (addr : PageAddr)
  | erase (addr : PageAddr)
  | block (blocknum : { n : Half // n ≠ 0 }) (data : Payload)
  | command (c : OtherCommand)

/-- The four bytes of an address operand. -/
def operandBytes (a : Word) : List Byte := [Word.byte a 0, Word.byte a 1, Word.byte a 2, Word.byte a 3]

namespace PageOp

/-- The block number of the download. -/
def blocknum : PageOp → Half
  | .block n _ => n
  | _ => 0

/-- The data of the download. -/
def bytes : PageOp → List Byte
  | .setaddr a => cmdSetaddr :: operandBytes a
  | .erase a => cmdErase :: operandBytes a
  | .block _ data => data.bytes
  | .command c => c.first :: c.rest

theorem bytes_length (op : PageOp) : 0 < op.bytes.length ∧ op.bytes.length ≤ dfuTransferSize := by
  cases op with
  | setaddr a => exact ⟨Nat.succ_pos _, show 5 ≤ 1024 by decide⟩
  | erase a => exact ⟨Nat.succ_pos _, show 5 ≤ 1024 by decide⟩
  | block n data => exact ⟨data.pos, data.le⟩
  | command c => exact ⟨Nat.succ_pos _, c.lt⟩

/-- The download the host sends. -/
def download (op : PageOp) : Download := ⟨op.blocknum, op.bytes, op.bytes_length.1, op.bytes_length.2⟩

/-- Where the address pointer is after the download. -/
def pointer (ptr : PageAddr) : PageOp → PageAddr
  | .setaddr a => a
  | _ => ptr

end PageOp

/-! ## Page writes -/

/-- `data`, padded with `0xff`, over the page at `addr`. -/
structure PageWrite where
  addr : Int
  data : List Byte

/-- The page belongs to the application flash. -/
def PageWrite.InApp (cfg : Config) (w : PageWrite) : Prop :=
  cfg.startAddr.toNat ≤ w.addr ∧ w.addr < cfg.endAddr.toNat

/-- The cell belongs to the page. -/
def PageWrite.Covers (w : PageWrite) (a : Word) : Prop :=
  w.addr ≤ a.toNat ∧ (a.toNat : Int) < w.addr + dfuTransferSize

instance (cfg : Config) (w : PageWrite) : Decidable (w.InApp cfg) :=
  inferInstanceAs (Decidable (_ ∧ _))

instance (w : PageWrite) (a : Word) : Decidable (w.Covers a) := inferInstanceAs (Decidable (_ ∧ _))

/-- The write on the cells; a page outside the application flash is not written. -/
def PageWrite.cells (cfg : Config) (w : PageWrite) : Write Word Byte := fun a =>
  if w.InApp cfg ∧ w.Covers a then some (w.data.getD (a.toNat - w.addr).toNat 0xff) else none

/-- The page a download writes, with the address pointer at `ptr`; an erased
page holds no data. -/
def PageOp.writes (ptr : PageAddr) : PageOp → List PageWrite
  | .erase a => [⟨a.val.toNat, []⟩]
  | .block n data => [⟨target ptr n, data.bytes⟩]
  | _ => []

/-- The page writes of a sequence of downloads. -/
def pageWrites (ptr : PageAddr) : List PageOp → List PageWrite
  | [] => []
  | op :: ops => op.writes ptr ++ pageWrites (op.pointer ptr) ops

/-- Where a sequence of downloads leaves the address pointer. -/
def pointerAfter (ptr : PageAddr) (ops : List PageOp) : PageAddr := ops.foldl PageOp.pointer ptr

theorem pointerAfter_snoc (ptr : PageAddr) (ops : List PageOp) (op : PageOp) :
    pointerAfter ptr (ops ++ [op]) = op.pointer (pointerAfter ptr ops) :=
  List.foldl_append

theorem pageWrites_snoc (ptr : PageAddr) (ops : List PageOp) (op : PageOp) :
    pageWrites ptr (ops ++ [op]) = pageWrites ptr ops ++ op.writes (pointerAfter ptr ops) := by
  induction ops generalizing ptr with
  | nil => exact List.append_nil _
  | cons op' ops ih =>
      rw [List.cons_append, pageWrites, ih, pageWrites, List.append_assoc]
      rfl

/-- Every page written starts on a page boundary. -/
theorem pageWrites_aligned {ptr : PageAddr} {ops : List PageOp} {w : PageWrite}
    (h : w ∈ pageWrites ptr ops) : w.addr % dfuTransferSize = 0 := by
  induction ops generalizing ptr with
  | nil => exact absurd h List.not_mem_nil
  | cons op ops ih =>
      rcases List.mem_append.mp h with hop | hops
      · cases op with
        | erase a =>
            have ha := a.property
            rw [List.mem_singleton.mp hop]
            simp only [dfuTransferSize] at ha ⊢
            omega
        | block n data =>
            have hptr := ptr.property
            rw [List.mem_singleton.mp hop, target]
            simp only [dfuTransferSize] at hptr ⊢
            omega
        | _ => exact absurd hop List.not_mem_nil
      · exact ih hops

/-! ## The write on the cells -/

variable {cfg : Config} {w : PageWrite} {a : Word}

theorem PageWrite.cells_hit (happ : w.InApp cfg) {k : Nat} (hk : k < dfuTransferSize)
    (ha : (a.toNat : Int) = w.addr + k) : w.cells cfg a = some (w.data.getD k 0xff) := by
  have hcover : w.Covers a := ⟨by omega, by omega⟩
  have hoff : ((a.toNat : Int) - w.addr).toNat = k := by omega
  rw [cells, if_pos ⟨happ, hcover⟩, hoff]

theorem PageWrite.cells_miss (h : w.InApp cfg → ¬ w.Covers a) : w.cells cfg a = none :=
  if_neg fun hboth => h hboth.1 hboth.2

/-- On a page a guard passes inside the application flash, and for the page
whose end wraps around to 0. -/
theorem addrGuard_page (cfg : Config) {base len : Word} (halign : base.toNat % dfuTransferSize = 0)
    (hpos : 0 < len.toNat) (hle : len.toNat ≤ dfuTransferSize) :
    addrGuard cfg base len = true ↔ cfg.App base ∨ base.toNat + len.toNat = 2 ^ 32 := by
  obtain ⟨-, hlt, hend, hstart, halign'⟩ := cfg.addr_bounds
  have hbase := base.isLt
  simp only [dfuTransferSize] at halign hle
  rw [addrGuard_iff, BitVec.toNat_add, Config.App]
  omega

/-- A page erased on demand and programmed, behind its guard. -/
theorem pageCells (cfg : Config) (len : Word) (data : List Byte) (buf : Mem) {base : Word}
    (halign : base.toNat % dfuTransferSize = 0)
    (hpos : 0 < len.toNat) (hle : len.toNat ≤ dfuTransferSize)
    (heven : data.length % 2 = 0) (hdata : data.length ≤ len.toNat)
    (hbuf : buf.read 0 data.length = data) (re : Half → Half → Half) (m : Nor.Cells 32)
    (ha : a.toNat < cfg.endAddr.toNat) :
    (if addrGuard cfg base len then
      Nor.programHalves re buf.halves base (data.length / 2) 0
        (Nor.ensureErased flashPageSize m base)
    else m) a = Write.apply m (PageWrite.cells cfg ⟨base.toNat, data⟩) a := by
  obtain ⟨-, -, hend, -, -⟩ := cfg.addr_bounds
  have hbase := base.isLt
  have hguard := addrGuard_page cfg halign hpos hle
  simp only [dfuTransferSize] at hle halign
  by_cases hpass : addrGuard cfg base len = true
  · rw [if_pos hpass, Nor.ensureErased_page (P := flashPageSize) (by decide) m halign]
    by_cases hin : base.toNat ≤ a.toNat ∧ a.toNat < base.toNat + 1024
    · have happ : cfg.App base := (hguard.mp hpass).resolve_right (by omega)
      have hwrite : PageWrite.InApp cfg ⟨base.toNat, data⟩ :=
        ⟨Int.ofNat_le.mpr happ.1, Int.ofNat_lt.mpr happ.2⟩
      obtain ⟨k, hk⟩ := Nat.exists_eq_add_of_le hin.1
      have haddr : base + BitVec.ofNat 32 k = a := by
        apply BitVec.eq_of_toNat_eq
        rw [BitVec.toNat_add, BitVec.toNat_ofNat]
        omega
      have herased : ∀ j < 1024, Nor.eraseRange base.toNat (base.toNat + flashPageSize) m
          (base + BitVec.ofNat 32 j) = 0xff#8 := fun j hj => by
        refine if_pos ?_
        rw [BitVec.toNat_add, BitVec.toNat_ofNat, flashPageSize]
        omega
      rw [Write.apply_hit (PageWrite.cells_hit hwrite (k := k) (show k < 1024 by omega) (by simp only; omega)),
        ← haddr]
      by_cases hshort : k < data.length
      · have hbyte : some (buf k) = data[k]? := by
          rw [← hbuf, Mem.getElem?_read, if_pos hshort, Nat.zero_add]
        rw [Nor.programHalves_blank _ _ _ _ _ _ (by omega) (fun j _ hj => herased j (by omega))
          (Nat.zero_le _) (by omega), Nor.dataByte_halves, List.getD_eq_getElem?_getD, ← hbyte]
        rfl
      · rw [Nor.programHalves_other, herased k (by omega)]
        · exact (List.getD_eq_default _ _ (Nat.not_lt.mp hshort)).symm
        intro j _ hj heq
        exact absurd (Nor.add_ofNat_inj base (by omega) (by omega) heq) (by omega)
    · have hmiss : ¬ PageWrite.Covers ⟨base.toNat, data⟩ a := fun hc =>
        hin ⟨Int.ofNat_le.mp hc.1, Int.ofNat_lt.mp hc.2⟩
      rw [Write.apply_miss (PageWrite.cells_miss fun _ => hmiss), Nor.programHalves_other]
      · exact if_neg hin
      · rintro j - hj rfl
        rw [BitVec.toNat_add, BitVec.toNat_ofNat] at hin ha
        omega
  · have hmiss : ¬ PageWrite.InApp cfg ⟨base.toNat, data⟩ := fun happ =>
      hpass (hguard.mpr (.inl ⟨Int.ofNat_le.mp happ.1, Int.ofNat_lt.mp happ.2⟩))
    rw [if_neg hpass, Write.apply_miss (PageWrite.cells_miss fun happ => absurd happ hmiss)]

/-- A target that wraps around lies outside the application flash, before and
after it is taken modulo 2^32. -/
theorem blockAddr_cells (ptr : Word) (n : Half) (data : List Byte) :
    PageWrite.cells cfg ⟨(blockAddr ptr n).toNat, data⟩ = PageWrite.cells cfg ⟨target ptr n, data⟩ := by
  obtain ⟨hstart, hlt, hend, -, -⟩ := cfg.addr_bounds
  obtain ⟨hlo, hhi⟩ := target_bounds ptr n
  have haddr := blockAddr_toNat ptr n
  by_cases hwrap : 0 ≤ target ptr n ∧ target ptr n < 2 ^ 32
  · rw [haddr, Int.emod_eq_of_lt hwrap.1 hwrap.2]
  · funext a
    rw [PageWrite.cells_miss, PageWrite.cells_miss]
    · rintro ⟨h0, h1⟩
      dsimp only at h0 h1
      omega
    · rintro ⟨h0, h1⟩
      dsimp only at h0 h1
      omega

/-! ## The DNBUSY branch on a download -/

section Holds

variable {p : Prog} {op : PageOp} {ptr : PageAddr}

/-- A full command carries its operand. -/
theorem Prog.Holds.operand {D : Download} (h : p.Holds D) {cmd : Byte} {addr : Word}
    (hop : D.bytes = cmd :: operandBytes addr) : p.operand = addr := by
  have hbyte : ∀ i b, (cmd :: operandBytes addr)[i]? = some b → p.buf i = b := fun i b hb =>
    h.byte (hop ▸ hb)
  rw [Prog.operand, Mem.word, hbyte 1 _ rfl, hbyte 2 _ rfl, hbyte 3 _ rfl, hbyte 4 _ rfl]
  exact Word.ofBytes_byte addr

/-- On the flash the DNBUSY branch is the page write of the download. -/
theorem dnbusyCells_op (hbuild : cfg.enableSafewrite = false) {d : Dfu}
    (h : d.prog.Holds op.download) (hptr : d.prog.addr = ptr) (m : Nor.Cells 32)
    (ha : a.toNat < cfg.endAddr.toNat) :
    dnbusyCells cfg d m a = Write.applyAll m ((op.writes ptr).map (PageWrite.cells cfg)) a := by
  have hwipe : wipedCells cfg d.erased m = m := by
    rw [wipedCells, hbuild]
    rfl
  have hother : ∀ {first : Byte}, op.blocknum = 0 → op.bytes[0]? = some first → first ≠ cmdErase →
      dnbusyCells cfg d m = m := fun hzero hfirst hne => by
    rw [dnbusyCells, if_pos (h.blocknum.trans hzero), commandCells, h.byte hfirst, if_neg hne]
  cases op with
  | setaddr addr => rw [hother rfl rfl cmdSetaddr_ne_cmdErase]; rfl
  | command c => rw [hother rfl rfl c.ne_erase]; rfl
  | erase addr =>
      have hpage := pageCells cfg (BitVec.ofNat 32 dfuTransferSize) [] d.prog.buf addr.property
        (by decide) (by decide) rfl (Nat.zero_le _) rfl cfg.reprogram m ha
      have hzero : d.prog.blocknum = 0 := h.blocknum
      rw [dnbusyCells, if_pos hzero, commandCells, if_pos (h.byte rfl)]
      rw [hwipe, h.operand rfl]
      refine Eq.trans ?_ hpage
      unfold eraseGuard
      split <;> rfl
  | block n data =>
      have hlen : (d.prog.len.setWidth 32 : Word).toNat = data.bytes.length := by
        rw [BitVec.toNat_setWidth, h.len]
        have hle := data.le
        simp only [dfuTransferSize] at hle
        exact Nat.mod_eq_of_lt (show data.bytes.length < _ by omega)
      have hbase : (blockAddr ptr n).toNat % dfuTransferSize = 0 := by
        have hptr' := ptr.property
        have haddr := blockAddr_toNat ptr n
        simp only [target, dfuTransferSize] at hptr' haddr ⊢
        omega
      have hpage := pageCells cfg (d.prog.len.setWidth 32) data.bytes d.prog.buf hbase
        (by rw [hlen]; exact data.pos) (by rw [hlen]; exact data.le) data.even
        (Nat.le_of_eq hlen.symm) h.bytes cfg.reprogram m ha
      rw [blockAddr_cells] at hpage
      have hdata : d.prog.len.toNat = data.bytes.length := h.len
      have hnumber : d.prog.blocknum = n := h.blocknum
      rw [dnbusyCells, hnumber, if_neg n.property, blockCells]
      rw [hwipe, hnumber, hptr, hdata]
      exact hpage

/-- The DNBUSY branch moves the address pointer as the download says. -/
theorem nextAddr_op {d : Dfu} (h : d.prog.Holds op.download) (hptr : d.prog.addr = ptr) :
    d.nextAddr = op.pointer ptr := by
  unfold Dfu.nextAddr
  cases op with
  | setaddr addr =>
      rw [if_pos ⟨h.blocknum, h.byte rfl⟩]
      exact h.operand rfl
  | erase addr =>
      have hfirst : d.prog.buf 0 = cmdErase := h.byte rfl
      rw [if_neg fun hset => cmdSetaddr_ne_cmdErase (hset.2.symm.trans hfirst)]
      exact hptr
  | block n data =>
      rw [if_neg fun hset => n.property (h.blocknum.symm.trans hset.1)]
      exact hptr
  | command c =>
      have hfirst : d.prog.buf 0 = c.first := h.byte rfl
      rw [if_neg fun hset => c.ne_setaddr (hfirst.symm.trans hset.2)]
      exact hptr

end Holds

end LnDso
