import LnDso.Machine.Boot

/-!
# From a reset to `main` (`start.cpp`, `reboot.cpp`, `linker_script.ld`)

Flash and RAM are one memory, which a reset leaves as it is.
-/

namespace LnDso

open Lib

/-- `ORIGIN(ram)` -/
def ramOrigin : Nat := 0x20000010

/-- Where the linker has put the sections. -/
structure Sections where
  /-- `__data_start__` -/
  dataStart : Nat
  /-- `__data_end__` -/
  dataEnd : Nat
  /-- `__bss_start__` -/
  bssStart : Nat
  /-- `__bss_end__` -/
  bssEnd : Nat
  /-- `LOADADDR(.data)`, which is at `_lm_rom_img_cfgp`. -/
  loadAddr : Nat
  /-- The sections follow each other in `ram`. -/
  data_ram : ramOrigin ≤ dataStart
  data_le : dataStart ≤ dataEnd
  bss_ram : dataEnd ≤ bssStart
  bss_le : bssStart ≤ bssEnd
  bss_fits : bssEnd ≤ 0x20000000 + 20 * 1024
  /-- The linker ensures that these are at least 4-byte aligned. -/
  data_aligned : (dataEnd - dataStart) % 4 = 0
  bss_aligned : (bssEnd - bssStart) % 4 = 0
  /-- The content of `.data` is in `rom`. -/
  load_rom : 0x08000000 ≤ loadAddr
  load_fits : loadAddr + (dataEnd - dataStart) ≤ 0x08000000 + 128 * 1024

/-- The loop that copies `.data`, a word at a time. -/
def copyWords (limit : Nat) (m : Mem) (dst src : Nat) : Mem :=
  if dst < limit then copyWords limit (m.write dst (m.read src 4)) (dst + 4) (src + 4) else m
termination_by limit - dst

/-- The loop that zeroes `.bss`. -/
def zeroWords (limit : Nat) (m : Mem) (dst : Nat) : Mem :=
  if dst < limit then zeroWords limit (m.write dst [0, 0, 0, 0]) (dst + 4) else m
termination_by limit - dst

namespace Sections

variable (s : Sections)

/-- `start_c` up to the initializers. -/
def initialised (m : Mem) : Mem :=
  zeroWords s.bssEnd (copyWords s.dataEnd m s.dataStart s.loadAddr) s.bssStart

/-- `start_c` up to `main`. -/
def startC (libcInitArray : Mem → Mem) (m : Mem) : Mem := libcInitArray (s.initialised m)

end Sections

/-! ## The marker -/

/-- `marker` -/
def markerAt : Nat := 0x20000000

/-- `*marker` -/
def getMarker (m : Mem) : BitVec 64 := m.word (markerAt + 4) ++ m.word markerAt

/-- `*marker = v` -/
def setMarker (v : BitVec 64) (m : Mem) : Mem :=
  m.write markerAt ((List.range 8).map fun i => v.extractLsb' (8 * i) 8)

/-- `reboot_into_bootloader` -/
def rebootIntoBootloader (m : Mem) : Mem := setMarker 0xDEADBEEFCC00FFEE m

/-- `clear_reboot_flags` -/
def clearRebootFlags (m : Mem) : Mem := setMarker 0 m

/-- What `main` finds in memory, and on the pin. -/
def AtReset.ofMem (forceDfuIo : Bool) (m : Mem) : AtReset where
  marker := getMarker m
  forceDfuIo := forceDfuIo
  flash a := m a.toNat

end LnDso
