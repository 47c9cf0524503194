import LnDso.Machine.Start
import LnDso.Theorems.ImageCheck

/-!
# The marker over a reset

`start_c` puts `.data` and `.bss` in order and nothing else, so what was written
below the RAM of the program before a reset is there when `main` looks.
-/

namespace LnDso

open Lib

variable {m : Mem} {limit dst src a : Nat}

/-! ## The two loops -/

theorem write_read_apply (m : Mem) (dst src n a : Nat) :
    m.write dst (m.read src n) a = if dst ≤ a ∧ a < dst + n then m (src + (a - dst)) else m a := by
  rw [Mem.write_apply, Mem.getElem?_read]
  by_cases hlo : dst ≤ a
  · by_cases hhi : a < dst + n
    · rw [if_pos hlo, if_pos (by omega), if_pos ⟨hlo, hhi⟩]
      rfl
    · rw [if_pos hlo, if_neg (by omega), if_neg fun h => hhi h.2]
      rfl
  · rw [if_neg hlo, if_neg fun h => hlo h.1]

/-- Whole words of a source that is not overwritten. -/
theorem copyWords_apply (hwhole : (limit - dst) % 4 = 0)
    (hsep : src + (limit - dst) ≤ dst ∨ limit ≤ src) (a : Nat) :
    copyWords limit m dst src a = if dst ≤ a ∧ a < limit then m (src + (a - dst)) else m a := by
  induction m, dst, src using copyWords.induct limit with
  | case1 m dst src hlt ih =>
      rw [copyWords, if_pos hlt, ih (by omega) (by omega)]
      by_cases hrest : dst + 4 ≤ a ∧ a < limit
      · -- what later words are copied from is not the word just written
        have hsrc : ¬ (dst ≤ src + 4 + (a - (dst + 4)) ∧ src + 4 + (a - (dst + 4)) < dst + 4) := by
          omega
        rw [if_pos hrest, if_pos (by omega), write_read_apply, if_neg hsrc]
        congr 1
        omega
      · rw [if_neg hrest, write_read_apply]
        by_cases hword : dst ≤ a ∧ a < dst + 4
        · rw [if_pos hword, if_pos (by omega)]
        · rw [if_neg hword, if_neg (by omega)]
  | case2 m dst src hlt =>
      rw [copyWords, if_neg hlt, if_neg (by omega)]

theorem write_zeros_apply (m : Mem) (dst a : Nat) :
    m.write dst [0, 0, 0, 0] a = if dst ≤ a ∧ a < dst + 4 then 0 else m a := by
  by_cases hword : dst ≤ a ∧ a < dst + 4
  · obtain ⟨j, rfl⟩ : ∃ j, a = dst + j := ⟨a - dst, by omega⟩
    have hj : j < [(0 : Byte), 0, 0, 0].length := by
      simp
      omega
    rw [if_pos hword, Mem.write_at _ _ _ hj]
    exact List.eq_of_mem_replicate (n := 4) (List.getElem_mem hj)
  · rw [if_neg hword]
    by_cases hlo : dst ≤ a
    · exact Mem.write_above m dst _ (by simp; omega)
    · exact Mem.write_below m dst _ (by omega)

theorem zeroWords_apply (hwhole : (limit - dst) % 4 = 0) (a : Nat) :
    zeroWords limit m dst a = if dst ≤ a ∧ a < limit then 0 else m a := by
  induction m, dst using zeroWords.induct limit with
  | case1 m dst hlt ih =>
      rw [zeroWords, if_pos hlt, ih (by omega)]
      by_cases hrest : dst + 4 ≤ a ∧ a < limit
      · rw [if_pos hrest, if_pos (by omega)]
      · rw [if_neg hrest, write_zeros_apply]
        by_cases hword : dst ≤ a ∧ a < dst + 4
        · rw [if_pos hword, if_pos (by omega)]
        · rw [if_neg hword, if_neg (by omega)]
  | case2 m dst hlt =>
      rw [zeroWords, if_neg hlt, if_neg (by omega)]

namespace Sections

/-- What `start_c` makes of memory before the initializers. -/
theorem initialised_apply (s : Sections) (m : Mem) (a : Nat) : s.initialised m a =
    if s.dataStart ≤ a ∧ a < s.dataEnd then m (s.loadAddr + (a - s.dataStart))
    else if s.bssStart ≤ a ∧ a < s.bssEnd then 0 else m a := by
  have hrom := s.load_fits
  have hram := s.data_ram
  have hbss := s.bss_ram
  rw [ramOrigin] at hram
  rw [initialised, zeroWords_apply s.bss_aligned,
    copyWords_apply s.data_aligned (.inl (by omega))]
  by_cases hdata : s.dataStart ≤ a ∧ a < s.dataEnd
  · rw [if_pos hdata, if_neg (by omega), if_pos hdata]
  · rw [if_neg hdata, if_neg hdata]

/-- Below the RAM of the program nothing changes. -/
theorem startC_below (s : Sections) {libcInitArray : Mem → Mem}
    (hinit : ∀ m a, a < ramOrigin → libcInitArray m a = m a) (m : Mem) (ha : a < ramOrigin) :
    s.startC libcInitArray m a = m a := by
  have hram := s.data_ram
  have hdata := s.data_le
  have hbss := s.bss_ram
  rw [startC, hinit _ _ ha, initialised_apply, if_neg (by omega), if_neg (by omega)]

end Sections

/-! ## The marker -/

@[simp] theorem getMarker_setMarker (v : BitVec 64) (m : Mem) : getMarker (setMarker v m) = v := by
  have hbyte : ∀ i < 8, setMarker v m (markerAt + i) = v.extractLsb' (8 * i) 8 := by
    intro i hi
    have hlen : i < ((List.range 8).map fun i => v.extractLsb' (8 * i) 8).length := by
      simpa using hi
    rw [setMarker, Mem.write_at m markerAt _ hlen, List.getElem_map, List.getElem_range]
  -- the marker is two words, the low one first
  have hword : ∀ k, k = 0 ∨ k = 4 →
      (setMarker v m).word (markerAt + k) = v.extractLsb' (8 * k) 32 := by
    intro k hk
    rw [Mem.word, Nat.add_assoc, Nat.add_assoc, Nat.add_assoc, hbyte k (by omega),
      hbyte (k + 1) (by omega), hbyte (k + 2) (by omega), hbyte (k + 3) (by omega)]
    apply BitVec.eq_of_toNat_eq
    simp only [Word.ofBytes, BitVec.toNat_ofNat, BitVec.extractLsb'_toNat, Nat.shiftRight_eq_div_pow]
    rcases hk with rfl | rfl <;> omega
  rw [getMarker, hword 4 (.inr rfl), ← Nat.add_zero markerAt, hword 0 (.inl rfl)]
  apply BitVec.eq_of_getLsbD_eq
  intro i hi
  rw [BitVec.getLsbD_append]
  by_cases hlow : i < 32
  · simp [hlow]
  · have hhigh : i - 32 < 32 := by omega
    simp [hlow, hhigh, show 32 + (i - 32) = i by omega]

/-- The marker and the flash are below the RAM of the program. -/
theorem ofMem_startC (s : Sections) {libcInitArray : Mem → Mem}
    (hinit : ∀ m a, a < ramOrigin → libcInitArray m a = m a) (io : Bool) (m : Mem) :
    (AtReset.ofMem io (s.startC libcInitArray m)).marker = getMarker m ∧
      ∀ a : Word, a.toNat < markerAt →
        (AtReset.ofMem io (s.startC libcInitArray m)).flash a = m a.toNat := by
  have hbelow : ∀ a < ramOrigin, s.startC libcInitArray m a = m a := fun a ha =>
    s.startC_below hinit m ha
  constructor
  · simp only [AtReset.ofMem, getMarker, Mem.word, markerAt]
    rw [hbelow _ (by decide), hbelow _ (by decide), hbelow _ (by decide), hbelow _ (by decide),
      hbelow _ (by decide), hbelow _ (by decide), hbelow _ (by decide), hbelow _ (by decide)]
  · intro a ha
    exact hbelow _ (Nat.lt_trans ha (by decide))

/-- **One boot.** Whatever the sections and the initializers: `start_c` puts
`.data` and `.bss` in order and nothing else; the marker of
`reboot_into_bootloader` leads the next `main` to DFU mode; and `main` leaves
none, so the boot after that one is not forced by it. -/
theorem marker_lasts (cfg : Config) (xxh32 : Xxh32) (s : Sections) (libcInitArray : Mem → Mem)
    (hinit : ∀ m a, a < ramOrigin → libcInitArray m a = m a) (io : Bool) (m : Mem) :
    (∀ a, s.initialised m a =
      if s.dataStart ≤ a ∧ a < s.dataEnd then m (s.loadAddr + (a - s.dataStart))
      else if s.bssStart ≤ a ∧ a < s.bssEnd then 0 else m a) ∧
    (AtReset.ofMem io (s.startC libcInitArray (rebootIntoBootloader m))).main cfg xxh32 = .dfu ∧
    ((AtReset.ofMem io (s.startC libcInitArray (rebootIntoBootloader m))).startup cfg xxh32).marker =
      getMarker (clearRebootFlags m) ∧
    rebootedIntoDfu (AtReset.ofMem io (s.startC libcInitArray (clearRebootFlags m))).marker =
      false := by
  refine ⟨s.initialised_apply m, ?_, ?_, ?_⟩
  · refine AtReset.main_dfu_iff.mpr (AtReset.startup_forced (.inl ?_)).2
    rw [(ofMem_startC s hinit io _).1, rebootIntoBootloader, getMarker_setMarker]
    rfl
  · rw [clearRebootFlags, getMarker_setMarker]
    rfl
  · rw [(ofMem_startC s hinit io _).1, clearRebootFlags, getMarker_setMarker]
    rfl

/-- 16 bytes of `.data` and 1000 of `.bss`. -/
def smallSections : Sections where
  dataStart := 0x20000010
  dataEnd := 0x20000020
  bssStart := 0x20000020
  bssEnd := 0x20000408
  loadAddr := 0x08001F00
  data_ram := by decide
  data_le := by decide
  bss_ram := by decide
  bss_le := by decide
  bss_fits := by decide
  data_aligned := by decide
  bss_aligned := by decide
  load_rom := by decide
  load_fits := by decide

theorem marker_lasts_small :
    (AtReset.ofMem true (smallSections.startC id (rebootIntoBootloader fun _ => 0xff))).main
      .stm32f103 (fun _ _ _ => 0) = .dfu :=
  (marker_lasts .stm32f103 (fun _ _ _ => 0) smallSections id (fun _ _ _ => rfl) true
    fun _ => 0xff).2.1

end LnDso
