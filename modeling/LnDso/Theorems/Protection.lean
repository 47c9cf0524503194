import LnDso.Logic.Acts
import LnDso.Logic.Completion
import LnDso.Logic.Guards

/-!
# The bootloader protects itself

No erase and no program started by any request, from any state in which no
erase is being started, hits the bootloader's own flash.
-/

namespace LnDso

open Lib Flash

variable {cfg : Config}

/-- The access neither erases nor programs a bootloader address. -/
def SparesBoot (cfg : Config) (op : FlashOp) : Prop :=
  op.Modifies → ∀ a, op.Hits a → ¬ cfg.Boot a

theorem scanOps_sparesBoot (addr : Word) : ScanOps (SparesBoot cfg) addr :=
  fun _ _ hmod => absurd hmod not_false

theorem eraseOps_sparesBoot {page : Word} (h : cfg.startAddr.toNat ≤ page.toNat) :
    EraseOps (SparesBoot cfg) page :=
  fun _ _ _ _ hpage => not_boot_of_page h hpage

theorem programOps_sparesBoot {address : Word} {len : Nat}
    (h : cfg.startAddr.toNat ≤ address.toNat) (hlen : len < 2 ^ 16) :
    ProgramOps (SparesBoot cfg) address len := by
  rintro i hi cr bsy v - a (rfl | rfl)
  · exact not_boot_of_offset h (by omega)
  · rw [Nor.add_ofNat_succ]
    exact not_boot_of_offset h (by omega)

/-! Behind its guards the DNBUSY branch spares the bootloader, whatever `prog` holds. -/

theorem wipeOps_sparesBoot : WipeOps cfg (SparesBoot cfg) :=
  fun _ hpage _ _ => ⟨scanOps_sparesBoot _, eraseOps_sparesBoot hpage⟩

theorem commandOps_sparesBoot (prog : Prog) : CommandOps cfg (SparesBoot cfg) prog :=
  fun hguard =>
    ⟨scanOps_sparesBoot _, eraseOps_sparesBoot ((addrGuard_iff cfg _ _).mp hguard).1⟩

theorem blockOps_sparesBoot (prog : Prog) : BlockOps cfg (SparesBoot cfg) prog :=
  fun hguard =>
    have hbase := ((addrGuard_iff cfg _ _).mp hguard).1
    ⟨scanOps_sparesBoot _, eraseOps_sparesBoot hbase, programOps_sparesBoot hbase prog.len.isLt⟩

theorem allOps_sparesBoot (cfg : Config) : AllOps cfg (SparesBoot cfg) where
  wipe := wipeOps_sparesBoot
  command := commandOps_sparesBoot
  block := blockOps_sparesBoot
  copy := fun _ _ _ hmod => absurd hmod not_false

/-- **Self-protection.** From any state in which no erase is being started,
every sequence of bus events leaves the bootloader's flash alone: no erase and
no program hits it, and its bytes stay. -/
theorem bootloader_spared (cfg : Config) (σ : Dev) (hstrt : σ.flash.cr.strt = false)
    (es : List Event) : Spares cfg.Boot σ.flash ((machine cfg).run σ es).flash := by
  exact (run_logs (allOps_sparesBoot cfg) hstrt es).spares

/-- Two bytes for the first page of the bootloader: the pointer is set to it, and the
block comes to its DNBUSY run. -/
def bootloaderEvents : List Event :=
  [.reset, .setup ⟨0x21, 1, 0, 0, 5⟩, .out (.ofBytes [0x21, 0x00, 0x00, 0x00, 0x08]), .inDone,
    .setup ⟨0xA1, 3, 0, 0, 6⟩, .inDone, .out (.ofBytes []),
    .setup ⟨0x21, 1, 2, 0, 2⟩, .out (.ofBytes [0x12, 0x34]), .inDone,
    .setup ⟨0xA1, 3, 0, 0, 6⟩, .inDone, .out (.ofBytes [])]

theorem bootloader_spared_fresh :
    let τ := (machine .stm32f103).run (Dev.fresh fun _ => 0xff) bootloaderEvents
    τ.dfu.prog.addr = 0x08000000 ∧ τ.dfu.prog.blocknum = 2 ∧
      τ.dfu.usbdfuState = .dfuDnloadIdle ∧
      Spares Config.stm32f103.Boot (Dev.fresh fun _ => 0xff).flash τ.flash := by
  refine ⟨by decide +kernel, by decide +kernel, by decide +kernel, ?_⟩
  exact bootloader_spared _ _ rfl _

end LnDso
