import LnDso.Logic.Applied

/-!
# Blocks stored byte for byte

A block inside the application flash reads back after the DNBUSY branch exactly
if it is storable: half-words are all the store loop programs, and the page of
the block's own address is all that is erased for it. The cells past the end of the
flash are taken to be readable: the blank scan of a block in the last page reads them.
-/

namespace LnDso

open Lib

variable {σ : Dev} {e : Event}

/-- **Stored exactly when storable.** A poll that runs the DNBUSY branch on a data
block at an even address of the application flash leaves the bytes of the block
in the cells of its range, just if an odd last byte is in its cell already and
every half-word in a page that is not erased takes its program. -/
theorem block_stored (cfg : Config) (hσ : (machine cfg).Reachable σ)
    (hrun : σ.RunsDnbusy (poll cfg σ e)) (hblock : σ.dfu.prog.blocknum ≠ 0)
    (hplaced : σ.dfu.Placed cfg) :
    (∀ i < σ.dfu.prog.len.toNat,
      (poll cfg σ e).flash.mem (σ.dfu.baseaddr + BitVec.ofNat 32 i) = σ.dfu.prog.buf i) ↔
      σ.dfu.Storable cfg σ.flash.mem := by
  have happlied := poll_applies (sound_invariant cfg σ hσ) hrun
  rw [happlied.flash.mem, dnbusyCells, if_neg hblock]
  exact blockCells_exact hplaced

/-- A block of two bytes over a part full of `0x55`: its page is erased first, so it
is stored. -/
theorem block_stored_even :
    let σ := (machine .stm32f103).run (Dev.fresh fun _ => 0x55) (blockDue (.ofBytes [0x12, 0x34]))
    ∀ i < σ.dfu.prog.len.toNat, (poll .stm32f103 σ (.out (.ofBytes []))).flash.mem
      (σ.dfu.baseaddr + BitVec.ofNat 32 i) = σ.dfu.prog.buf i := by
  intro σ
  have hreach : (machine .stm32f103).Reachable σ :=
    TSys.Reachable.run (machine .stm32f103) (.init (Dev.fresh_boot fun _ => 0x55)) _
  have hlen : σ.dfu.prog.len.toNat = 2 := by decide +kernel
  have hbase : σ.dfu.baseaddr = 0x08002000 := by decide +kernel
  refine (block_stored .stm32f103 hreach ?_ (by decide +kernel)
    ⟨by decide +kernel, by decide +kernel, by decide +kernel, by decide +kernel,
      by decide +kernel⟩).mpr ⟨fun hodd => ?_, fun hodd => ?_, fun k hk hkept => ?_⟩
  · exact runsDnbusy_of_dnbusyBlock? (b := ⟨2, 2, [0x12, 0x34]⟩) .stm32f103
      (sound_invariant _ _ hreach) (by decide +kernel)
  · rw [hlen] at hodd
    cases hodd
  · rw [hlen] at hodd
    cases hodd
  · rw [hlen] at hk
    obtain rfl : k = 0 := by omega
    rw [hbase] at hkept
    exact absurd (.inr (.inr rfl)) hkept

/-- A block of one byte is accepted and nothing stored: the store loop programs
the half of one half-word, rounded down. -/
theorem odd_block_dropped :
    ¬ ∀ σ e, (machine .stm32f103).Reachable σ → σ.RunsDnbusy (poll .stm32f103 σ e) →
      σ.dfu.prog.blocknum ≠ 0 → σ.dfu.Placed .stm32f103 → ∀ i < σ.dfu.prog.len.toNat,
        (poll .stm32f103 σ e).flash.mem (σ.dfu.baseaddr + BitVec.ofNat 32 i) =
          σ.dfu.prog.buf i := by
  intro h
  have hreach := TSys.Reachable.run (machine .stm32f103) (.init (Dev.fresh_boot fun _ => 0xff))
    (blockDue (.ofBytes [0x12]))
  have hstored := h _ (.out (.ofBytes [])) hreach
    (runsDnbusy_of_dnbusyBlock? (b := ⟨2, 1, [0x12]⟩) .stm32f103 (sound_invariant _ _ hreach)
      (by decide +kernel))
    (by decide +kernel)
    ⟨by decide +kernel, by decide +kernel, by decide +kernel, by decide +kernel, by decide +kernel⟩
    0 (by decide +kernel)
  exact absurd hstored (by decide +kernel)

end LnDso
