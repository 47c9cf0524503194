import LnDso.Logic.Hashing
import LnDso.Theorems.ImageCheck

/-!
# Damaged images

What the hash of `main` makes of an image in which one word, or one byte,
behind the header is another: of the values a word can have, exactly one passes
the check, and no byte can change.
-/

namespace LnDso

open Lib

namespace AtReset

variable {cfg : Config} {σ τ : AtReset}

/-- The hash decides. -/
structure Checked (cfg : Config) (σ : AtReset) : Prop where
  forced : ¬ σ.Forced cfg
  size : (σ.imageSize cfg).toNat < 256 * 1024
  exempt : ¬ σ.Exempt cfg

/-- The hash decides, and it is over bytes that the part has. -/
structure CheckedFits (cfg : Config) (σ : AtReset) : Prop extends Checked cfg σ where
  fits : σ.Fits cfg

theorem Checked.main_iff (h : σ.Checked cfg) (xxh32 : Xxh32) :
    σ.main cfg xxh32 ≠ .dfu ↔ σ.computed cfg xxh32 = σ.checksum cfg := by
  rw [ne_eq, main_dfu_iff, not_not]
  exact (startup_hashed h.forced h.size h.exempt).2

theorem HashBooted.checked {xxh32 : Xxh32} (h : σ.HashBooted cfg xxh32) : σ.Checked cfg := by
  obtain ⟨hforced, hsize, hexempt, -⟩ := hashBooted_iff.mp h
  exact ⟨hforced, hsize, hexempt⟩

/-! ## The same header -/

/-- Marker, key and header are the same. -/
structure SameHeader (cfg : Config) (σ τ : AtReset) : Prop where
  marker : τ.marker = σ.marker
  forceDfuIo : τ.forceDfuIo = σ.forceDfuIo
  flash : ∀ i < 16, τ.flash (cfg.startAddr + BitVec.ofNat 32 i) =
    σ.flash (cfg.startAddr + BitVec.ofNat 32 i)

theorem SameHeader.word (h : SameHeader cfg σ τ) {k : Nat} (hk : k + 3 < 16) :
    τ.word (cfg.startAddr + BitVec.ofNat 32 k) = σ.word (cfg.startAddr + BitVec.ofNat 32 k) := by
  refine word_congr fun i hi => ?_
  rw [BitVec.add_assoc, ← BitVec.ofNat_add]
  exact h.flash (k + i) (by omega)

theorem SameHeader.sig (h : SameHeader cfg σ τ) : τ.sig cfg = σ.sig cfg := by
  rw [sig_eq_word, sig_eq_word, h.word (by omega)]

theorem SameHeader.imageSize (h : SameHeader cfg σ τ) : τ.imageSize cfg = σ.imageSize cfg :=
  h.word (k := 8) (by omega)

theorem SameHeader.checksum (h : SameHeader cfg σ τ) : τ.checksum cfg = σ.checksum cfg :=
  h.word (k := 12) (by omega)

theorem SameHeader.checked (h : SameHeader cfg σ τ) (hσ : σ.Checked cfg) : τ.Checked cfg where
  forced := by
    rw [Forced, h.marker, h.forceDfuIo, h.sig]
    exact hσ.forced
  size := by
    rw [h.imageSize]
    exact hσ.size
  exempt := by
    rw [Exempt, h.imageSize, h.checksum]
    exact hσ.exempt

/-! ## The bytes behind the header -/

/-- The address of byte `i` behind the header. -/
def payloadAddr (cfg : Config) (i : Nat) : Word := cfg.startAddr + 16 + BitVec.ofNat 32 i

theorem payloadAddr_eq (cfg : Config) (i : Nat) :
    payloadAddr cfg i = cfg.startAddr + BitVec.ofNat 32 (16 + i) := by
  rw [payloadAddr, BitVec.add_assoc, BitVec.ofNat_add]
  rfl

/-- The bytes that are hashed. -/
def payload (cfg : Config) (σ : AtReset) : List Byte :=
  σ.bytes (cfg.startAddr + 16) (σ.imageSize cfg)

theorem length_payload (cfg : Config) (σ : AtReset) :
    (σ.payload cfg).length = (σ.imageSize cfg).toNat := by
  simp [payload, bytes]

theorem getElem?_payload (cfg : Config) (σ : AtReset) (i : Nat) :
    (σ.payload cfg)[i]? =
      if i < (σ.imageSize cfg).toNat then some (σ.flash (payloadAddr cfg i)) else none := by
  by_cases hi : i < (σ.imageSize cfg).toNat
  · simp [payload, bytes, payloadAddr, hi]
  · simp [payload, bytes, hi]

/-- The flash with word `k` behind the header replaced. -/
def withWord (cfg : Config) (k : Nat) (w : Word) (σ : AtReset) : AtReset :=
  { σ with flash := fun a =>
      let i := (a - payloadAddr cfg (4 * k)).toNat
      if i < 4 then w.byte i else σ.flash a }

/-- The flash with byte `p` behind the header replaced. -/
def withByte (cfg : Config) (p : Nat) (b : Byte) (σ : AtReset) : AtReset :=
  { σ with flash := fun a => if a = payloadAddr cfg p then b else σ.flash a }

section Word

variable {k : Nat} (w : Word)

theorem withWord_at (hk : k < 2 ^ 18) {i : Nat} (hi : i < 2 ^ 20) :
    (σ.withWord cfg k w).flash (cfg.startAddr + BitVec.ofNat 32 i) =
      if 16 + 4 * k ≤ i ∧ i < 16 + 4 * k + 4 then w.byte (i - (16 + 4 * k))
      else σ.flash (cfg.startAddr + BitVec.ofNat 32 i) := by
  -- addresses below the word wrap round, to a distance above 4
  have hindex : (cfg.startAddr + BitVec.ofNat 32 i - payloadAddr cfg (4 * k)).toNat =
      (2 ^ 32 - (16 + 4 * k) + i) % 2 ^ 32 := by
    obtain ⟨-, hlt, hend, -, -⟩ := cfg.addr_bounds
    rw [payloadAddr_eq, BitVec.toNat_sub, header_toNat cfg (by omega), header_toNat cfg (by omega)]
    omega
  simp only [withWord, hindex]
  by_cases hin : 16 + 4 * k ≤ i ∧ i < 16 + 4 * k + 4
  · rw [if_pos hin, if_pos (by omega),
      show (2 ^ 32 - (16 + 4 * k) + i) % 2 ^ 32 = i - (16 + 4 * k) by omega]
  · rw [if_neg hin, if_neg (by omega)]

theorem withWord_header (cfg : Config) (hk : k < 2 ^ 18) : SameHeader cfg σ (σ.withWord cfg k w) := by
  refine ⟨rfl, rfl, fun i hi => ?_⟩
  rw [withWord_at w hk (by omega), if_neg (by omega)]

theorem getElem?_withWord (hk : k < 2 ^ 18) (hsize : (σ.imageSize cfg).toNat < 2 ^ 19) (i : Nat) :
    ((σ.withWord cfg k w).payload cfg)[i]? =
      if i < (σ.imageSize cfg).toNat then
        some (if i / 4 = k then w.byte (i % 4) else σ.flash (payloadAddr cfg i))
      else none := by
  rw [getElem?_payload, (withWord_header w cfg hk).imageSize]
  by_cases hi : i < (σ.imageSize cfg).toNat
  · rw [if_pos hi, if_pos hi, payloadAddr_eq, withWord_at w hk (by omega)]
    by_cases hword : i / 4 = k
    · rw [if_pos (by omega), if_pos hword, show 16 + i - (16 + 4 * k) = i % 4 by omega]
    · rw [if_neg (by omega), if_neg hword]
  · rw [if_neg hi, if_neg hi]

/-- Different words make different payloads. -/
theorem withWord_injective (hk : 4 * k + 4 ≤ (σ.imageSize cfg).toNat)
    (hsize : (σ.imageSize cfg).toNat < 2 ^ 19) {w w' : Word}
    (heq : (σ.withWord cfg k w).payload cfg = (σ.withWord cfg k w').payload cfg) : w = w' := by
  have hbyte : ∀ j < 4, w.byte j = w'.byte j := by
    intro j hj
    have hget := congrArg (fun l => l[4 * k + j]?) heq
    simp only [getElem?_withWord _ (show k < 2 ^ 18 by omega) hsize] at hget
    rw [if_pos (by omega), if_pos (by omega), if_pos (by omega), if_pos (by omega),
      show (4 * k + j) % 4 = j by omega] at hget
    exact Option.some.inj hget
  rw [← Word.ofBytes_byte w, ← Word.ofBytes_byte w', hbyte 0 (by omega), hbyte 1 (by omega),
    hbyte 2 (by omega), hbyte 3 (by omega)]

/-- The hash reaches every value by a choice of one word. -/
theorem computed_withWord (hk : 4 * k + 4 ≤ (σ.imageSize cfg).toNat)
    (hsize : (σ.imageSize cfg).toNat < 2 ^ 19) :
    Function.Bijective fun w : Word => (σ.withWord cfg k w).computed cfg xxh32 := by
  have hk18 : k < 2 ^ 18 := by omega
  have hlen : ∀ w, ((σ.withWord cfg k w).payload cfg).length = (σ.imageSize cfg).toNat := by
    intro w
    rw [length_payload, (withWord_header w cfg hk18).imageSize]
  have hcomputed : ∀ w, (σ.withWord cfg k w).computed cfg xxh32 =
      xxh32 ((σ.withWord cfg k w).payload cfg) (σ.imageSize cfg) 0x100 := by
    intro w
    have himage := (withWord_header (σ := σ) w cfg hk18).imageSize
    rw [computed, payload, himage]
  -- a function on words that is injective is onto: some word gives the stored hash
  refine bijective_of_injective fun w w' heq => withWord_injective hk hsize ?_
  have heq : (σ.withWord cfg k w).computed cfg xxh32 = (σ.withWord cfg k w').computed cfg xxh32 := heq
  rw [hcomputed, hcomputed] at heq
  by_contra hne
  refine xxh32_word_ne (k := k) (hlen w) (hlen w') (fun i hi => ?_) hk hne _ heq
  rw [getElem?_withWord w hk18 hsize, getElem?_withWord w' hk18 hsize, if_neg hi, if_neg hi]

end Word

/-- **One value for each word.** Whatever image that fits the hash decides about,
and whichever whole word behind its header is left open: exactly one value of that
word makes `main` boot it. -/
theorem boots_with_one_word (cfg : Config) {σ : AtReset} (h : σ.CheckedFits cfg) {k : Nat}
    (hk : 4 * k + 4 ≤ (σ.imageSize cfg).toNat) :
    ∃! w : Word, (σ.withWord cfg k w).main cfg xxh32 ≠ .dfu := by
  have hsize := h.size
  have hk18 : k < 2 ^ 18 := by omega
  have hboots : ∀ w, (σ.withWord cfg k w).main cfg xxh32 ≠ .dfu ↔
      (σ.withWord cfg k w).computed cfg xxh32 = σ.checksum cfg := by
    intro w
    have hheader := withWord_header (σ := σ) w cfg hk18
    rw [(hheader.checked h.toChecked).main_iff, hheader.checksum]
  obtain ⟨w, hw, hunique⟩ :=
    (computed_withWord hk (by omega)).existsUnique (σ.checksum cfg)
  exact ⟨w, (hboots w).mpr hw, fun w' hw' => hunique w' ((hboots w').mp hw')⟩

/-- A word of any value behind a header that counts four bytes. -/
def oneWord : AtReset where
  marker := 0
  forceDfuIo := true
  flash := fun a => Mem.write (fun _ => 0xff) 0x08002000
    [0x00, 0x50, 0x00, 0x20, 0x01, 0x21, 0x00, 0x08, 4, 0, 0, 0, 0, 0, 0, 0] a.toNat

theorem oneWord_checked : oneWord.CheckedFits Config.stm32f103 := by
  have hsize : oneWord.imageSize Config.stm32f103 = 4 := by decide +kernel
  have hsig : oneWord.sig Config.stm32f103 = 0x20005000 := by decide +kernel
  refine ⟨⟨?_, ?_, ?_⟩, ?_⟩
  · rintro (hmarker | hkey | hstack)
    · exact absurd hmarker (by decide)
    · cases hkey
    · rw [hsig] at hstack
      exact hstack rfl
  · rw [hsize]
    decide
  · rintro ⟨hexempt, -⟩
    rw [hsize] at hexempt
    exact absurd hexempt (by decide)
  · rw [Fits, hsize]
    decide

theorem boots_with_one_word_oneWord :
    ∃! w : Word, (oneWord.withWord Config.stm32f103 0 w).main Config.stm32f103 xxh32 ≠ .dfu := by
  have hsize : oneWord.imageSize Config.stm32f103 = 4 := by decide +kernel
  exact boots_with_one_word Config.stm32f103 oneWord_checked (by rw [hsize]; decide)

/-! ## One byte -/

theorem withByte_at {p i : Nat} (hp : p < 2 ^ 19) (hi : i < 2 ^ 20) (b : Byte) :
    (σ.withByte cfg p b).flash (cfg.startAddr + BitVec.ofNat 32 i) =
      if i = 16 + p then b else σ.flash (cfg.startAddr + BitVec.ofNat 32 i) := by
  have haddr : cfg.startAddr + BitVec.ofNat 32 i = payloadAddr cfg p ↔ i = 16 + p := by
    rw [payloadAddr_eq]
    constructor
    · intro heq
      have hnat := congrArg BitVec.toNat heq
      rw [header_toNat cfg (by omega), header_toNat cfg (by omega)] at hnat
      omega
    · rintro rfl
      rfl
  simp only [withByte, haddr]

theorem withByte_header (cfg : Config) {p : Nat} (hp : p < 2 ^ 19) (b : Byte) :
    SameHeader cfg σ (σ.withByte cfg p b) := by
  refine ⟨rfl, rfl, fun i hi => ?_⟩
  rw [withByte_at hp (by omega), if_neg (by omega)]

theorem getElem?_withByte {p : Nat} (hp : p < 2 ^ 19) (hsize : (σ.imageSize cfg).toNat < 2 ^ 19)
    (b : Byte) (i : Nat) :
    ((σ.withByte cfg p b).payload cfg)[i]? =
      if i < (σ.imageSize cfg).toNat then
        some (if i = p then b else σ.flash (payloadAddr cfg i))
      else none := by
  rw [getElem?_payload, (withByte_header cfg hp b).imageSize]
  by_cases hi : i < (σ.imageSize cfg).toNat
  · rw [if_pos hi, if_pos hi, payloadAddr_eq, withByte_at hp (by omega)]
    by_cases hbyte : i = p
    · rw [if_pos (by omega), if_pos hbyte]
    · rw [if_neg (by omega), if_neg hbyte]
  · rw [if_neg hi, if_neg hi]

/-- **No byte can change.** If `main` boots an image because of its hash, then
it boots the same image with another value in one byte behind the header, whole
word or not, only if that value is no other. -/
theorem boots_with_byte_iff (cfg : Config) {σ : AtReset} (h : σ.HashBooted cfg xxh32) {p : Nat}
    (hp : p < (σ.imageSize cfg).toNat) (b : Byte) :
    (σ.withByte cfg p b).main cfg xxh32 ≠ .dfu ↔ b = σ.flash (payloadAddr cfg p) := by
  obtain ⟨-, hsize, -, hsum⟩ := hashBooted_iff.mp h
  have hp19 : p < 2 ^ 19 := by omega
  have hsize19 : (σ.imageSize cfg).toNat < 2 ^ 19 := by omega
  have hheader := withByte_header (σ := σ) cfg hp19 b
  have hcomputed : (σ.withByte cfg p b).computed cfg xxh32 =
      xxh32 ((σ.withByte cfg p b).payload cfg) (σ.imageSize cfg) 0x100 := by
    rw [computed, payload, hheader.imageSize]
  rw [(hheader.checked h.checked).main_iff, hheader.checksum, ← hsum, hcomputed]
  have hlen : ((σ.withByte cfg p b).payload cfg).length = (σ.imageSize cfg).toNat := by
    rw [length_payload, hheader.imageSize]
  have hother : AgreeOffByte p ((σ.withByte cfg p b).payload cfg) (σ.payload cfg) := fun i hi => by
    rw [getElem?_withByte hp19 hsize19, getElem?_payload, if_neg hi]
  have hbyte : ((σ.withByte cfg p b).payload cfg)[p]? = some b := by
    rw [getElem?_withByte hp19 hsize19, if_pos hp, if_pos rfl]
  have hbyte' : (σ.payload cfg)[p]? = some (σ.flash (payloadAddr cfg p)) := by
    rw [getElem?_payload, if_pos hp]
  constructor
  · intro heq
    by_contra hne
    refine xxh32_byte_ne hlen (length_payload cfg σ) hother (fun hsame => hne ?_) 0x100 heq
    rw [hsame] at hbyte
    exact Option.some.inj (hbyte.symm.trans hbyte')
  · intro heq
    have hsame : (σ.withByte cfg p b).payload cfg = σ.payload cfg := by
      apply List.ext_getElem?
      intro i
      by_cases hi : i = p
      · rw [hi, hbyte, hbyte', heq]
      · exact hother i hi
    rw [hsame]
    rfl

/-- A stripe, a word and a byte behind a header with their hash. -/
def twentyOne : AtReset where
  marker := 0
  forceDfuIo := true
  flash := fun a => Mem.write (fun _ => 0xff) 0x08002000
    ([0x00, 0x50, 0x00, 0x20, 0x01, 0x21, 0x00, 0x08, 21, 0, 0, 0, 0x9b, 0xae, 0xb3, 0x79] ++
      List.replicate 21 0x61) a.toNat

/-- With another last byte the image does not boot. -/
theorem boots_with_byte_iff_twentyOne :
    (twentyOne.withByte Config.stm32f103 20 0x62).main Config.stm32f103 xxh32 = .dfu := by
  have hsize : twentyOne.imageSize Config.stm32f103 = 21 := by decide +kernel
  have hlast : twentyOne.flash (payloadAddr Config.stm32f103 20) = 0x61 := by decide +kernel
  have hboots := boots_with_byte_iff Config.stm32f103
    (σ := twentyOne) ⟨by decide +kernel, by decide +kernel⟩ (p := 20) (by rw [hsize]; decide) 0x62
  by_contra hne
  have hsame := hboots.mp hne
  rw [hlast] at hsame
  exact absurd hsame (by decide)

end AtReset

end LnDso
