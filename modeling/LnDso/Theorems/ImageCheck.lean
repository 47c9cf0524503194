import LnDso.Machine.Boot

/-!
# What the check of the image covers

The size in the header is checked against 256 KB, whatever the flash holds, and
the hash starts behind the header. The two words that `main` hands control to
are in front of it.
-/

namespace LnDso

open Lib

namespace AtReset

variable {cfg : Config} {xxh32 : Xxh32} {σ τ : AtReset}

/-! ## Words of the flash -/

theorem word_eq {a : Word} (b : Nat → Byte) (h : ∀ i < 4, σ.flash (a + BitVec.ofNat 32 i) = b i) :
    σ.word a = Word.ofBytes (b 0) (b 1) (b 2) (b 3) := by
  have hfirst := h 0 (by omega)
  rw [BitVec.add_zero] at hfirst
  rw [word, hfirst, h 1 (by omega), h 2 (by omega), h 3 (by omega)]

/-- A word of the same four bytes. -/
theorem word_congr {a b : Word}
    (h : ∀ i < 4, τ.flash (a + BitVec.ofNat 32 i) = σ.flash (b + BitVec.ofNat 32 i)) :
    τ.word a = σ.word b := by
  rw [word_eq _ h, ← word_eq (σ := σ) (a := b) _ fun _ _ => rfl]

theorem sig_eq_word (cfg : Config) (σ : AtReset) :
    σ.sig cfg = σ.word (cfg.startAddr + BitVec.ofNat 32 0) := by
  rw [sig, BitVec.add_zero]

/-! ## The four ways through -/

/-- DFU mode is asked for, or there is no stack pointer to start with. -/
def Forced (cfg : Config) (σ : AtReset) : Prop :=
  rebootedIntoDfu σ.marker = true ∨ σ.forceDfuIo = false ∨ σ.sig cfg >>> 20 ≠ 0x200

/-- The header says that there is no hash. -/
def Exempt (cfg : Config) (σ : AtReset) : Prop :=
  σ.imageSize cfg = 0x1234 ∧ σ.checksum cfg = 0x5678

/-- The hash over the bytes behind the header. -/
def computed (cfg : Config) (xxh32 : Xxh32) (σ : AtReset) : Word :=
  xxh32 (σ.bytes (cfg.startAddr + 16) (σ.imageSize cfg)) (σ.imageSize cfg) 0x100

theorem forced_iff : σ.forced cfg ≠ 0 ↔ σ.Forced cfg := by
  rw [forced, Forced]
  cases rebootedIntoDfu σ.marker <;> cases σ.forceDfuIo <;>
    by_cases hsig : σ.sig cfg >>> 20 = 0x200 <;> simp [hsig]

theorem startup_forced (h : σ.Forced cfg) :
    (σ.startup cfg xxh32).hashed = [] ∧ (σ.startup cfg xxh32).goDfu ≠ 0 := by
  have hforced := forced_iff.mpr h
  simp only [startup, if_neg hforced]
  exact ⟨trivial, hforced⟩

theorem startup_absurd (h : ¬ σ.Forced cfg) (hsize : 256 * 1024 ≤ (σ.imageSize cfg).toNat) :
    (σ.startup cfg xxh32).hashed = [] ∧ (σ.startup cfg xxh32).goDfu = 1 := by
  have hforced := not_not.mp (mt forced_iff.mp h)
  have hlarge : ¬ σ.imageSize cfg < 256 * 1024 := Nat.not_lt.mpr hsize
  simp only [startup, if_pos hforced, if_neg hlarge]
  exact ⟨trivial, trivial⟩

theorem startup_exempt (h : ¬ σ.Forced cfg) (hexempt : σ.Exempt cfg) :
    (σ.startup cfg xxh32).hashed = [] ∧ (σ.startup cfg xxh32).goDfu = 0 := by
  have hforced := not_not.mp (mt forced_iff.mp h)
  have hsmall : σ.imageSize cfg < 256 * 1024 := by
    rw [hexempt.1]
    decide
  have hskip : ¬ (σ.imageSize cfg ≠ 0x1234 ∨ σ.checksum cfg ≠ 0x5678) := by
    rintro (hne | hne)
    · exact hne hexempt.1
    · exact hne hexempt.2
  simp only [startup, if_pos hforced, if_pos hsmall, if_neg hskip]
  exact ⟨trivial, hforced⟩

theorem startup_hashed (h : ¬ σ.Forced cfg) (hsize : (σ.imageSize cfg).toNat < 256 * 1024)
    (hexempt : ¬ σ.Exempt cfg) :
    (σ.startup cfg xxh32).hashed = [(cfg.startAddr + 16, σ.imageSize cfg)] ∧
      ((σ.startup cfg xxh32).goDfu = 0 ↔ σ.computed cfg xxh32 = σ.checksum cfg) := by
  have hforced := not_not.mp (mt forced_iff.mp h)
  have hsmall : σ.imageSize cfg < 256 * 1024 := hsize
  have hcheck : σ.imageSize cfg ≠ 0x1234 ∨ σ.checksum cfg ≠ 0x5678 := by
    by_cases hsame : σ.imageSize cfg = 0x1234
    · exact .inr fun hsum => hexempt ⟨hsame, hsum⟩
    · exact .inl hsame
  simp only [startup, if_pos hforced, if_pos hsmall, if_pos hcheck]
  refine ⟨trivial, ?_⟩
  simp [computed, hforced]

theorem main_dfu_iff : σ.main cfg xxh32 = .dfu ↔ (σ.startup cfg xxh32).goDfu ≠ 0 := by
  rw [main]
  split
  · rename_i hzero
    refine iff_of_false ?_ (not_not.mpr hzero)
    intro happ
    cases happ
  · rename_i hne
    exact iff_of_true rfl hne

/-! ## The range that is hashed -/

/-- The image fits behind its header. -/
def Fits (cfg : Config) (σ : AtReset) : Prop :=
  16 + (σ.imageSize cfg).toNat ≤ (cfg.flashSizeKb - cfg.bootldrSizeKb) * 1024

/-- Only application flash is hashed, and an image that does not fit leads to
DFU mode. -/
structure ChecksFlash (cfg : Config) (xxh32 : Xxh32) (σ : AtReset) : Prop where
  inside : ∀ a len, (a, len) ∈ (σ.startup cfg xxh32).hashed →
    cfg.startAddr.toNat ≤ a.toNat ∧ a.toNat + len.toNat ≤ cfg.endAddr.toNat
  large : ¬ σ.Fits cfg → σ.main cfg xxh32 = .dfu

/-- Where nothing is hashed, only the DFU mode of an image that does not fit is
left to show. -/
theorem ChecksFlash.of_unhashed (hhashed : (σ.startup cfg xxh32).hashed = [])
    (h : ¬ σ.Fits cfg → σ.main cfg xxh32 = .dfu) : σ.ChecksFlash cfg xxh32 := by
  refine ⟨?_, h⟩
  intro a len hmem
  rw [hhashed] at hmem
  cases hmem

theorem header_toNat (cfg : Config) {k : Nat} (hk : k < 2 ^ 30) :
    (cfg.startAddr + BitVec.ofNat 32 k).toNat = cfg.startAddr.toNat + k := by
  obtain ⟨-, hlt, hend, -, -⟩ := cfg.addr_bounds
  rw [BitVec.toNat_add, BitVec.toNat_ofNat]
  omega

theorem fits_iff : σ.Fits cfg ↔
    (cfg.startAddr + 16).toNat + (σ.imageSize cfg).toNat ≤ cfg.endAddr.toNat := by
  have hheader := header_toNat cfg (by decide : 16 < 2 ^ 30)
  have hlt := cfg.bootldr_lt
  have hstart : (cfg.startAddr + 16).toNat = cfg.startAddr.toNat + 16 := hheader
  rw [Fits, hstart, cfg.startAddr_toNat, cfg.endAddr_toNat]
  omega

/-- The check stays in the flash exactly for an image that fits, one of 256 KB
or more, and where nothing is checked because DFU mode comes first. -/
theorem checksFlash_iff (cfg : Config) (xxh32 : Xxh32) (σ : AtReset) :
    σ.ChecksFlash cfg xxh32 ↔
      σ.Fits cfg ∨ 256 * 1024 ≤ (σ.imageSize cfg).toNat ∨ σ.Forced cfg := by
  by_cases hforced : σ.Forced cfg
  · obtain ⟨hhashed, hdfu⟩ := startup_forced hforced
    exact iff_of_true (.of_unhashed hhashed fun _ => main_dfu_iff.mpr hdfu) (.inr (.inr hforced))
  · by_cases hsize : 256 * 1024 ≤ (σ.imageSize cfg).toNat
    · obtain ⟨hhashed, hdfu⟩ := startup_absurd hforced hsize
      have hmain : σ.main cfg xxh32 = .dfu := main_dfu_iff.mpr (by rw [hdfu]; decide)
      exact iff_of_true (.of_unhashed hhashed fun _ => hmain) (.inr (.inl hsize))
    · have hfits : σ.Fits cfg ∨ 256 * 1024 ≤ (σ.imageSize cfg).toNat ∨ σ.Forced cfg ↔
          σ.Fits cfg := by
        constructor
        · rintro (hfit | hlarge | hdfu)
          · exact hfit
          · exact absurd hlarge hsize
          · exact absurd hdfu hforced
        · exact .inl
      rw [hfits]
      by_cases hexempt : σ.Exempt cfg
      · obtain ⟨hhashed, hboots⟩ := startup_exempt hforced hexempt
        constructor
        · intro hchecks
          by_cases hfit : σ.Fits cfg
          · exact hfit
          · exact absurd hboots (main_dfu_iff.mp (hchecks.large hfit))
        · intro hfit
          exact .of_unhashed hhashed fun hlarge => absurd hfit hlarge
      · obtain ⟨hhashed, -⟩ := startup_hashed hforced (by omega) hexempt
        constructor
        · intro hchecks
          refine fits_iff.mpr (hchecks.inside _ _ ?_).2
          rw [hhashed]
          exact List.mem_singleton.mpr rfl
        · intro hfit
          refine ⟨?_, fun hlarge => absurd hfit hlarge⟩
          intro a len hmem
          rw [hhashed] at hmem
          cases List.mem_singleton.mp hmem
          have hstart : (cfg.startAddr + 16).toNat = cfg.startAddr.toNat + 16 :=
            header_toNat cfg (by decide)
          exact ⟨by omega, fits_iff.mp hfit⟩

/-- A header with a size of 262140 bytes, which is below 256 KB. -/
def oversized : AtReset where
  marker := 0
  forceDfuIo := true
  flash := fun a => Mem.write (fun _ => 0xff) 0x08002000
    [0x00, 0x50, 0x00, 0x20, 0x01, 0x21, 0x00, 0x08, 0xfc, 0xff, 0x03, 0x00, 0, 0, 0, 0] a.toNat

/-- The hash of such an image runs past 128 KB of flash. -/
theorem oversized_reads_past : ¬ oversized.ChecksFlash Config.stm32f103 fun _ _ _ => 0 := by
  intro hchecks
  have hsize : oversized.imageSize Config.stm32f103 = 0x3fffc := by decide +kernel
  have hsig : oversized.sig Config.stm32f103 = 0x20005000 := by decide +kernel
  have hforced : ¬ oversized.Forced Config.stm32f103 := by
    rintro (hmarker | hkey | hstack)
    · exact absurd hmarker (by decide)
    · cases hkey
    · rw [hsig] at hstack
      exact hstack rfl
  have hexempt : ¬ oversized.Exempt Config.stm32f103 := by
    rintro ⟨hexempt, -⟩
    rw [hsize] at hexempt
    exact absurd hexempt (by decide)
  obtain ⟨hhashed, -⟩ :=
    startup_hashed hforced (by rw [hsize]; decide) hexempt
  have hinside := (hchecks.inside _ _ (by rw [hhashed]; exact List.mem_singleton.mpr rfl)).2
  rw [hsize] at hinside
  exact absurd hinside (by decide)

/-! ## What is handed over -/

/-- `main` boots the image after checking its hash. -/
def HashBooted (cfg : Config) (xxh32 : Xxh32) (σ : AtReset) : Prop :=
  (σ.startup cfg xxh32).hashed ≠ [] ∧ σ.main cfg xxh32 ≠ .dfu

/-- Two flashes with the same size, checksum and hashed bytes. -/
structure SameChecked (cfg : Config) (σ τ : AtReset) : Prop where
  imageSize : τ.imageSize cfg = σ.imageSize cfg
  checksum : τ.checksum cfg = σ.checksum cfg
  bytes : τ.bytes (cfg.startAddr + 16) (τ.imageSize cfg) =
    σ.bytes (cfg.startAddr + 16) (σ.imageSize cfg)

/-- The check settles what an image hands control to. -/
def EntryCovered (cfg : Config) (xxh32 : Xxh32) (σ : AtReset) : Prop :=
  ∀ τ : AtReset, σ.HashBooted cfg xxh32 → τ.HashBooted cfg xxh32 → SameChecked cfg σ τ →
    τ.main cfg xxh32 = σ.main cfg xxh32

theorem hashBooted_iff : σ.HashBooted cfg xxh32 ↔ ¬ σ.Forced cfg ∧
    (σ.imageSize cfg).toNat < 256 * 1024 ∧ ¬ σ.Exempt cfg ∧
      σ.computed cfg xxh32 = σ.checksum cfg := by
  rw [HashBooted, ne_eq (σ.main cfg xxh32), main_dfu_iff, not_not]
  constructor
  · rintro ⟨hhashed, hboots⟩
    have hforced : ¬ σ.Forced cfg := fun hdfu => hhashed (startup_forced hdfu).1
    have hsize : (σ.imageSize cfg).toNat < 256 * 1024 :=
      Nat.not_le.mp fun hlarge => hhashed (startup_absurd hforced hlarge).1
    have hexempt : ¬ σ.Exempt cfg := fun hnone => hhashed (startup_exempt hforced hnone).1
    exact ⟨hforced, hsize, hexempt, (startup_hashed hforced hsize hexempt).2.mp hboots⟩
  · rintro ⟨hforced, hsize, hexempt, hsum⟩
    obtain ⟨hhashed, hboots⟩ := startup_hashed hforced hsize hexempt
    refine ⟨?_, hboots.mpr hsum⟩
    rw [hhashed]
    exact List.cons_ne_nil _ _

theorem appAddress_eq (cfg : Config) : cfg.appAddress = cfg.startAddr := by
  rw [Config.appAddress, Config.startAddr, BitVec.ofNat_add]
  rfl

theorem HashBooted.main_eq (h : σ.HashBooted cfg xxh32) : σ.main cfg xxh32 =
    .app (cfg.startAddr &&& 0xffff) (σ.sig cfg) (σ.word (cfg.startAddr + 4)) := by
  have hboots : (σ.startup cfg xxh32).goDfu = 0 := not_not.mp (mt main_dfu_iff.mpr h.2)
  rw [main, if_pos hboots, appAddress_eq]
  rfl

/-- The flash with the first two words of the image replaced. -/
def withVectors (cfg : Config) (msp entry : Word) (σ : AtReset) : AtReset :=
  { σ with flash := fun a =>
      let i := (a - cfg.startAddr).toNat
      if i < 4 then msp.byte i else if i < 8 then entry.byte (i - 4) else σ.flash a }

theorem withVectors_at (msp entry : Word) {k : Nat} (hk : k < 2 ^ 30) :
    (σ.withVectors cfg msp entry).flash (cfg.startAddr + BitVec.ofNat 32 k) =
      if k < 4 then msp.byte k else if k < 8 then entry.byte (k - 4)
      else σ.flash (cfg.startAddr + BitVec.ofNat 32 k) := by
  have hindex : (cfg.startAddr + BitVec.ofNat 32 k - cfg.startAddr).toNat = k := by
    rw [BitVec.add_comm, BitVec.add_sub_cancel, BitVec.toNat_ofNat]
    omega
  simp only [withVectors, hindex]

theorem withVectors_msp (msp entry : Word) : (σ.withVectors cfg msp entry).sig cfg = msp := by
  have hbyte : ∀ k < 4, (σ.withVectors cfg msp entry).flash
      (cfg.startAddr + BitVec.ofNat 32 k) = msp.byte k := by
    intro k hk
    rw [withVectors_at msp entry (by omega), if_pos hk]
  rw [sig, word_eq _ hbyte, Word.ofBytes_byte]

theorem withVectors_entry (msp entry : Word) :
    (σ.withVectors cfg msp entry).word (cfg.startAddr + 4) = entry := by
  have hbyte : ∀ k < 4, (σ.withVectors cfg msp entry).flash
      (cfg.startAddr + 4 + BitVec.ofNat 32 k) = entry.byte k := by
    intro k hk
    rw [BitVec.add_assoc, show (4 : Word) + BitVec.ofNat 32 k = BitVec.ofNat 32 (4 + k) by
      rw [BitVec.ofNat_add]; rfl, withVectors_at msp entry (by omega), if_neg (by omega),
      if_pos (by omega), Nat.add_sub_cancel_left]
  rw [word_eq _ hbyte, Word.ofBytes_byte]

theorem withVectors_other (msp entry : Word) {k : Nat} (hk : 8 ≤ k) (hlt : k < 2 ^ 30) :
    (σ.withVectors cfg msp entry).flash (cfg.startAddr + BitVec.ofNat 32 k) =
      σ.flash (cfg.startAddr + BitVec.ofNat 32 k) := by
  rw [withVectors_at msp entry hlt, if_neg (by omega), if_neg (by omega)]

theorem withVectors_word (msp entry : Word) {k : Nat} (hk : 8 ≤ k) (hlt : k < 2 ^ 29) :
    (σ.withVectors cfg msp entry).word (cfg.startAddr + BitVec.ofNat 32 k) =
      σ.word (cfg.startAddr + BitVec.ofNat 32 k) := by
  refine word_congr fun i hi => ?_
  rw [BitVec.add_assoc, ← BitVec.ofNat_add]
  exact withVectors_other msp entry (by omega) (by omega)

theorem withVectors_checked (msp entry : Word) (hsize : (σ.imageSize cfg).toNat < 256 * 1024) :
    SameChecked cfg σ (σ.withVectors cfg msp entry) := by
  have hlen : (σ.withVectors cfg msp entry).imageSize cfg = σ.imageSize cfg :=
    withVectors_word (k := 8) msp entry (by omega) (by omega)
  refine ⟨hlen, withVectors_word (k := 12) msp entry (by omega) (by omega), ?_⟩
  rw [hlen]
  apply List.map_congr_left
  intro i hi
  have hlt := List.mem_range.mp hi
  have haddr : cfg.startAddr + 16 + BitVec.ofNat 32 i = cfg.startAddr + BitVec.ofNat 32 (16 + i) := by
    rw [BitVec.add_assoc, BitVec.ofNat_add]
    rfl
  rw [haddr]
  exact withVectors_other msp entry (by omega) (by omega)

/-- Whatever image passes the check, so does one with any entry address. -/
theorem withVectors_boots {msp : Word} (hmsp : msp >>> 20 = 0x200) (entry : Word)
    (h : σ.HashBooted cfg xxh32) : (σ.withVectors cfg msp entry).HashBooted cfg xxh32 := by
  obtain ⟨hforced, hsize, hexempt, hsum⟩ := hashBooted_iff.mp h
  have hsame := withVectors_checked (σ := σ) msp entry hsize
  refine hashBooted_iff.mpr ⟨?_, ?_, ?_, ?_⟩
  · rintro (hmarker | hkey | hstack)
    · exact hforced (.inl hmarker)
    · exact hforced (.inr (.inl hkey))
    · rw [withVectors_msp] at hstack
      exact hstack hmsp
  · rwa [hsame.imageSize]
  · rw [Exempt, hsame.imageSize, hsame.checksum]
    exact hexempt
  · rw [computed, hsame.bytes, hsame.imageSize, hsame.checksum]
    exact hsum

/-- No image that `main` boots after checking its hash has its entry covered. -/
theorem entryCovered_iff (cfg : Config) (xxh32 : Xxh32) (σ : AtReset) :
    σ.EntryCovered cfg xxh32 ↔ ¬ σ.HashBooted cfg xxh32 := by
  constructor
  · intro hcovered hbooted
    obtain ⟨hforced, hsize, -, -⟩ := hashBooted_iff.mp hbooted
    have hmsp : σ.sig cfg >>> 20 = 0x200 := by
      by_contra hne
      exact hforced (.inr (.inr hne))
    have hother := withVectors_boots hmsp (σ.word (cfg.startAddr + 4) + 1) hbooted
    have heq := hcovered _ hbooted hother (withVectors_checked _ _ hsize)
    rw [hother.main_eq, hbooted.main_eq, withVectors_msp, withVectors_entry] at heq
    injection heq with _ _ hentry
    exact absurd hentry (by grind)
  · intro hnone τ hbooted
    exact absurd hbooted hnone

/-- An image of no bytes behind its header, with a hash of 0. -/
def headerOnly (entry : Byte) : AtReset where
  marker := 0
  forceDfuIo := true
  flash := fun a => Mem.write (fun _ => 0xff) 0x08002000
    [0x00, 0x50, 0x00, 0x20, entry, 0x21, 0x00, 0x08, 0, 0, 0, 0, 0, 0, 0, 0] a.toNat

/-- Both images boot, each at its own entry. -/
theorem headerOnly_entries :
    ¬ (headerOnly 0x01).EntryCovered Config.stm32f103 fun _ _ _ => 0 := by
  intro hcovered
  have hmain := hcovered (headerOnly 0x81) ⟨by decide +kernel, by decide +kernel⟩
    ⟨by decide +kernel, by decide +kernel⟩
    ⟨by decide +kernel, by decide +kernel, by decide +kernel⟩
  exact absurd hmain (by decide +kernel)

end AtReset

end LnDso
