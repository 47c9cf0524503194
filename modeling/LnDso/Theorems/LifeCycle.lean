import LnDso.Machine.Xxhash
import LnDso.Theorems.ImageCheck
import LnDso.Theorems.ManifestReset
import LnDso.Theorems.PageMap

/-!
# Download, reset, boot

One round through the bootloader: `main` goes to DFU mode, `runDfu` polls until
it resets, and `main` starts again on the flash that the host has left. What
`main` does then depends on the key and on the image alone.
-/

namespace LnDso

open Lib

variable {cfg : Config}

/-! ## The image as the host sends it -/

/-- The blocks of an image, one page each, from block number `k` on. -/
inductive InPages : Nat → List Byte → List PageOp → Prop
  | nil {k : Nat} : InPages k [] []
  | cons {k : Nat} {rest : List Byte} {ops : List PageOp} (n : { n : Half // n ≠ 0 })
      (data : Payload) : n.val.toNat = k → (data.bytes.length = dfuTransferSize ∨ rest = []) →
      InPages (k + 1) rest ops → InPages k (data.bytes ++ rest) (.block n data :: ops)

variable {ptr : PageAddr} {k : Nat} {image : List Byte} {ops : List PageOp}

/-- Every page written lies at or behind the page of block `k`. -/
theorem InPages.addr_le (h : InPages k image ops) {w : PageWrite} (hw : w ∈ pageWrites ptr ops) :
    (ptr.val.toNat : Int) + ((k : Int) - 2) * dfuTransferSize ≤ w.addr := by
  induction h with
  | nil => exact absurd hw List.not_mem_nil
  | @cons k rest ops n data hn _ _ ih =>
      rcases List.mem_append.mp hw with hw | hw
      · rw [List.mem_singleton.mp hw, target, hn]
      · have hle := ih hw
        simp only [dfuTransferSize] at hle ⊢
        omega

/-- The pages hold the image. -/
theorem InPages.applyAll (cfg : Config) (ptr : PageAddr) (h : InPages k image ops) (m : Nor.Cells 32)
    (hlo : (cfg.startAddr.toNat : Int) ≤ ptr.val.toNat + ((k : Int) - 2) * dfuTransferSize)
    (hhi : (ptr.val.toNat : Int) + ((k : Int) - 2) * dfuTransferSize + image.length ≤ cfg.endAddr.toNat)
    {a : Word} {j : Nat} (hj : j < image.length)
    (ha : (a.toNat : Int) = ptr.val.toNat + ((k : Int) - 2) * dfuTransferSize + j) :
    some (Write.applyAll m ((pageWrites ptr ops).map (PageWrite.cells cfg)) a) = image[j]? := by
  induction h generalizing m j with
  | nil => exact absurd hj (Nat.not_lt_zero j)
  | @cons k rest ops n data hn hfull hrest ih =>
      obtain ⟨-, -, -, -, hend⟩ := cfg.addr_bounds
      have hle := data.le
      have hpos := data.pos
      rw [List.length_append] at hj hhi
      let w : PageWrite := ⟨target ptr n, data.bytes⟩
      have hwrites : pageWrites ptr (.block n data :: ops) = w :: pageWrites ptr ops := rfl
      have haddr : w.addr = ptr.val.toNat + ((k : Int) - 2) * dfuTransferSize := by
        show target ptr n = _
        rw [target, hn]
      rw [hwrites, List.map_cons]
      by_cases hin : j < data.bytes.length
      · have happ : w.InApp cfg := by
          refine ⟨?_, ?_⟩
          · rw [haddr]
            exact hlo
          · rw [haddr]
            omega
        have hhit : w.cells cfg a = some (data.bytes.getD j 0xff) :=
          PageWrite.cells_hit happ (by omega) (by rw [haddr]; exact ha)
        rw [List.getElem?_append_left hin]
        have hlast := Write.applyAll_last (m := m) (l := []) hhit (r := (pageWrites ptr ops).map
          (PageWrite.cells cfg)) fun c hc => by
            obtain ⟨w', hw', rfl⟩ := List.mem_map.mp hc
            -- the later pages lie behind this one
            refine PageWrite.cells_miss fun _ hcov => ?_
            have hbehind := hrest.addr_le hw'
            have hcov := hcov.1
            simp only [dfuTransferSize] at hbehind hle ha
            omega
        rw [List.nil_append] at hlast
        rw [hlast, List.getD_eq_getElem?_getD, List.getElem?_eq_getElem hin, Option.getD_some]
      · have hne : rest ≠ [] := by
          rintro rfl
          simp at hj
          exact hin hj
        have hsize := hfull.resolve_right hne
        simp only [dfuTransferSize] at hsize hlo hhi ha ih ⊢
        rw [Write.applyAll_cons, List.getElem?_append_right (Nat.not_lt.mp hin)]
        exact ih _ (by omega) (by omega) (by omega) (by omega)

/-- The first page of the application. -/
def Config.firstPage (cfg : Config) : PageAddr := ⟨cfg.startAddr, cfg.addr_bounds.2.2.2.1⟩

/-- The little-endian word at offset `k` of an image. -/
def imageWord (image : List Byte) (k : Nat) : Word := xxhGet32bits (image.drop k)

/-- An image that `main` boots: a stack pointer in the RAM, a size below 256 KB,
and the hash of that many bytes behind the header, or the mark of none. -/
def Bootable (xxh32 : Xxh32) (image : List Byte) : Prop :=
  imageWord image 0 >>> 20 = 0x200 ∧ (imageWord image 8).toNat < 256 * 1024 ∧
    (imageWord image 8 = 0x1234 ∧ imageWord image 12 = 0x5678 ∨
      xxh32 ((image.drop 16).take (imageWord image 8).toNat) (imageWord image 8) 0x100 =
        imageWord image 12)

instance (xxh32 : Xxh32) (image : List Byte) : Decidable (Bootable xxh32 image) :=
  inferInstanceAs (Decidable (_ ∧ _ ∧ _))

namespace AtReset

variable {xxh32 : Xxh32} {ρ : AtReset}

/-- The application flash starts with the image. -/
def Holds (cfg : Config) (image : List Byte) (ρ : AtReset) : Prop :=
  ∀ j < image.length, some (ρ.flash (cfg.startAddr + BitVec.ofNat 32 j)) = image[j]?

theorem Holds.word (h : ρ.Holds cfg image) {k : Nat} (hk : k + 4 ≤ image.length) :
    ρ.word (cfg.startAddr + BitVec.ofNat 32 k) = imageWord image k := by
  have hbyte : ∀ i < 4, ρ.flash (cfg.startAddr + BitVec.ofNat 32 k + BitVec.ofNat 32 i) =
      (image.drop k).getD i 0 := by
    intro i hi
    rw [BitVec.add_assoc, ← BitVec.ofNat_add, List.getD_eq_getElem?_getD, List.getElem?_drop,
      ← h (k + i) (by omega), Option.getD_some]
  rw [word_eq _ hbyte]
  rfl

theorem Holds.sig (h : ρ.Holds cfg image) (hk : 4 ≤ image.length) : ρ.sig cfg = imageWord image 0 := by
  rw [sig_eq_word, h.word hk]

/-- The bytes that are hashed, where the size counts bytes of the image. -/
theorem Holds.bytes (h : ρ.Holds cfg image) {len : Word} (hlen : 16 + len.toNat ≤ image.length) :
    ρ.bytes (cfg.startAddr + 16) len = (image.drop 16).take len.toNat := by
  apply List.ext_getElem?
  intro i
  by_cases hi : i < len.toNat
  · have hbyte := h (16 + i) (by omega)
    rw [BitVec.ofNat_add, ← BitVec.add_assoc] at hbyte
    rw [List.getElem?_take_of_lt hi, List.getElem?_drop, ← hbyte]
    simp [AtReset.bytes, hi]
  · rw [List.getElem?_take_eq_none (Nat.not_lt.mp hi)]
    simp [AtReset.bytes, hi]

/-- The three conditions under which `main` goes on to the application. -/
theorem startup_goDfu_iff : (ρ.startup cfg xxh32).goDfu = 0 ↔ ¬ ρ.Forced cfg ∧
    (ρ.imageSize cfg).toNat < 256 * 1024 ∧
      (ρ.Exempt cfg ∨ ρ.computed cfg xxh32 = ρ.checksum cfg) := by
  by_cases hforced : ρ.Forced cfg
  · exact iff_of_false (startup_forced hforced).2 fun h => h.1 hforced
  by_cases hsize : (ρ.imageSize cfg).toNat < 256 * 1024
  · by_cases hexempt : ρ.Exempt cfg
    · exact iff_of_true (startup_exempt hforced hexempt).2 ⟨hforced, hsize, .inl hexempt⟩
    · rw [(startup_hashed hforced hsize hexempt).2]
      constructor
      · intro hsum
        exact ⟨hforced, hsize, .inr hsum⟩
      · rintro ⟨-, -, hor⟩
        exact hor.resolve_left hexempt
  · refine iff_of_false ?_ fun h => hsize h.2.1
    rw [(startup_absurd hforced (Nat.not_lt.mp hsize)).2]
    decide

theorem main_app (h : (ρ.startup cfg xxh32).goDfu = 0) : ρ.main cfg xxh32 =
    .app (cfg.startAddr &&& 0xffff) (ρ.sig cfg) (ρ.word (cfg.startAddr + 4)) := by
  rw [main, if_pos h, appAddress_eq]
  rfl

/-- On a flash that holds an image, with no marker set, `main` looks at the key
and the image. -/
theorem Holds.main (h : ρ.Holds cfg image) (hmarker : ρ.marker = 0)
    (hwhole : 16 + (imageWord image 8).toNat ≤ image.length) :
    ρ.main cfg xxh32 =
      if ρ.forceDfuIo = true ∧ Bootable xxh32 image then
        .app (cfg.startAddr &&& 0xffff) (imageWord image 0) (imageWord image 4)
      else .dfu := by
  have hsig := h.sig (by omega)
  have hentry : ρ.word (cfg.startAddr + 4) = imageWord image 4 := h.word (k := 4) (by omega)
  have hsize : ρ.imageSize cfg = imageWord image 8 := h.word (k := 8) (by omega)
  have hsum : ρ.checksum cfg = imageWord image 12 := h.word (k := 12) (by omega)
  have hforced : ¬ ρ.Forced cfg ↔ ρ.forceDfuIo = true ∧ imageWord image 0 >>> 20 = 0x200 := by
    rw [Forced, hmarker, hsig]
    cases ρ.forceDfuIo <;> simp [rebootedIntoDfu]
  have hgo : (ρ.startup cfg xxh32).goDfu = 0 ↔ ρ.forceDfuIo = true ∧ Bootable xxh32 image := by
    rw [startup_goDfu_iff, hforced, Exempt, computed, hsize, hsum, h.bytes hwhole, Bootable, and_assoc]
  split
  · next hboots => rw [main_app (hgo.mpr hboots), hsig, hentry]
  · next hno => exact main_dfu_iff.mpr (mt hgo.mp hno)

end AtReset

/-! ## One round -/

end LnDso
