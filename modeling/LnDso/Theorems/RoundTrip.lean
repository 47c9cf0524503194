import LnDso.Logic.Packing
import LnDso.Logic.Painting
import LnDso.Theorems.Decompression
import LnDso.Theorems.DrawBitmap

/-!
# From the picture to the display

The script packs the rows of a picture apart and drops what is left of a row
past its last whole byte; the drawing loop reads one stream of bits. They agree
on widths of whole bytes. On other widths only the first row comes out where it
was.
-/

namespace LnDso

open Lib

variable {image : Image} {out : List Byte} {flash : Mem} {data : Nat}

/-! ## The bytes the reader hands out -/

/-- The compressed bytes, read through the decoder, are the bytes that were
compressed. -/
def Undone (compress : List Byte → List Byte) (out : List Byte) : Prop :=
  ∀ flash : Mem, ∀ data, flash.read data (compress out).length = compress out →
    ∀ i (h : i < out.length), ∃ hs hs', IliHS.after flash data i = some hs ∧
      hs.next flash = some (out[i], hs')

/-- The states of a reader, and the bytes between them. -/
theorem reader_states (flash : Mem) (data : Nat) : ∃ st : Nat → IliHS, st 0 = IliHS.init data ∧
    ∀ i, IliHS.after flash data i = some (st i) ∧
      (st i).next flash = some (Lzss.expand 8 4 (flash.from_ data) i, st (i + 1)) := by
  choose st hst using IliHS.after_reads flash data
  refine ⟨st, ?_, fun i => ⟨(hst i).1, ?_⟩⟩
  · exact (Option.some.inj (hst 0).1).symm
  · obtain ⟨hs', hnext, -⟩ := IliHS.next_reads (hst i).2
    have hafter := (hst (i + 1)).1
    rw [IliHS.after, (hst i).1, Option.bind_some, hnext, Option.map_some] at hafter
    rw [hnext, ← Option.some.inj hafter]

theorem expand_undone {compress : List Byte → List Byte} (hundo : Undone compress out)
    (hflash : flash.read data (compress out).length = compress out) :
    (List.range out.length).map (Lzss.expand 8 4 (flash.from_ data)) = out := by
  obtain ⟨st, -, hst⟩ := reader_states flash data
  apply List.ext_getElem
  · rw [List.length_map, List.length_range]
  · intro i hi hi'
    obtain ⟨hs, hs', hafter, hnext⟩ := hundo flash data hflash i hi'
    have hsame : hs = st i := Option.some.inj (hafter.symm.trans (hst i).1)
    rw [hsame, (hst i).2] at hnext
    rw [List.getElem_map, List.getElem_range]
    exact congrArg Prod.fst (Option.some.inj hnext)

/-! ## The bits that the display shows -/

/-- Bit `c` of the picture, row by row. -/
def Image.pixelBit (image : Image) (c : Nat) : Bool :=
  image.bit (c % image.width) (c / image.width)

/-- The pixels of the picture in black and white. -/
def Image.Shown (image : Image) (pixels : Nat → Half) : Prop :=
  ∀ x < image.width, ∀ y < image.height, pixels (x + image.width * y) =
    if 0x40 < (image.getpixel x y).pix then 0xffff else 0

theorem pixel_index {W H x y : Nat} (hx : x < W) (hy : y < H) :
    x + W * y < W * H ∧ (x + W * y) % W = x ∧ (x + W * y) / W = y := by
  refine ⟨?_, ?_, ?_⟩
  · have hmul := Nat.mul_le_mul_left W (Nat.succ_le_of_lt hy)
    rw [Nat.mul_succ] at hmul
    omega
  · rw [Nat.add_mul_mod_self_left, Nat.mod_eq_of_lt hx]
  · rw [Nat.add_mul_div_left _ _ (Nat.zero_lt_of_lt hx), Nat.div_eq_of_lt hx, Nat.zero_add]

theorem pixelBit_at {x y : Nat} (hx : x < image.width) (hy : y < image.height) :
    image.pixelBit (x + image.width * y) = image.bit x y := by
  obtain ⟨-, hmod, hdiv⟩ := pixel_index hx hy
  rw [Image.pixelBit, hmod, hdiv]

theorem color_inj {p q : Bool} : color p = color q ↔ p = q := by
  cases p <;> cases q <;> decide

/-- The word for a bit is what `Shown` asks for. -/
theorem color_bit (image : Image) (x y : Nat) : color (image.bit x y) =
    if 0x40 < (image.getpixel x y).pix then 0xffff else 0 := by
  rw [color, Image.bit]
  by_cases hpix : 0x40 < (image.getpixel x y).pix
  · rw [decide_eq_true hpix, if_pos rfl, if_pos hpix]
  · rw [decide_eq_false hpix, if_neg hpix]
    rfl

theorem shown_iff {pixels : Nat → Half} : image.Shown pixels ↔
    ∀ c < image.width * image.height, pixels c = color (image.pixelBit c) := by
  constructor
  · intro hshown c hc
    have hW : 0 < image.width := Nat.pos_of_mul_pos_right (Nat.zero_lt_of_lt hc)
    have hcell := hshown (c % image.width) (Nat.mod_lt c hW) (c / image.width)
      (Nat.div_lt_of_lt_mul hc)
    rw [Nat.mod_add_div, ← color_bit] at hcell
    exact hcell
  · intro hall x hx y hy
    rw [hall _ (pixel_index hx hy).1, pixelBit_at hx hy, color_bit]

/-! ## Where the pixels of a row go -/

/-- The pixels of a row that reach a byte. -/
def Image.kept (image : Image) : Nat := 8 * (image.width / 8)

theorem Image.kept_le (image : Image) : image.kept ≤ image.width := Nat.mul_div_le image.width 8

theorem Image.kept_rows (image : Image) :
    image.height * image.kept ≤ image.width * image.height := by
  rw [Nat.mul_comm]
  exact Nat.mul_le_mul_right _ image.kept_le

/-- Past the rows the stream is zeros. -/
theorem streamBit_past {i : Nat} (hi : image.height * image.kept ≤ i) :
    image.streamBit i = false := if_neg (Nat.not_lt.mpr hi)

/-- Bit `i` of the stream is a pixel `image.width - image.kept` further on for
every row before it. -/
theorem streamBit_moved {i : Nat} (hi : i < image.height * image.kept) :
    image.streamBit i = image.pixelBit (i + (image.width - image.kept) * (i / image.kept)) ∧
      i + (image.width - image.kept) * (i / image.kept) < image.width * image.height := by
  have hkept : 0 < image.kept := Nat.pos_of_mul_pos_left (Nat.zero_lt_of_lt hi)
  have hx : i % image.kept < image.width := Nat.lt_of_lt_of_le (Nat.mod_lt i hkept) image.kept_le
  have hy : i / image.kept < image.height := by
    rw [Nat.mul_comm] at hi
    exact Nat.div_lt_of_lt_mul hi
  have hindex : i + (image.width - image.kept) * (i / image.kept) =
      i % image.kept + image.width * (i / image.kept) := by
    have hle := Nat.mul_le_mul_right (i / image.kept) image.kept_le
    have hdiv := Nat.mod_add_div i image.kept
    rw [Nat.sub_mul]
    omega
  rw [hindex, pixelBit_at hx hy]
  exact ⟨if_pos hi, (pixel_index hx hy).1⟩

theorem lastWord_late {N L c : Nat} (h : L ≤ c + N) (hc : c < N) : lastWord N L c = c := by
  rw [lastWord, Nat.div_eq_of_lt (by omega), Nat.mul_zero, Nat.add_zero]

theorem lastWord_early {N L c : Nat} (h : c + N < L) (hL : L < N + 8) (hN : 8 ≤ N) :
    lastWord N L c = c + N := by
  rw [lastWord, Nat.div_eq_of_lt_le (m := L - 1 - c) (n := N) (k := 1) (by omega) (by omega),
    Nat.mul_one]

/-- The words of a picture: all of its bits, in whole bytes. -/
def Image.words (image : Image) : Nat := 8 * ((image.width * image.height + 7) / 8)

/-- Pixel `c` of the display shows the last bit that went there. -/
def Image.drawnBit (image : Image) (c : Nat) : Bool :=
  image.streamBit (lastWord (image.width * image.height) image.words c)

theorem Image.words_le (image : Image) : image.width * image.height ≤ image.words ∧
    image.words < image.width * image.height + 8 ∧
    image.words = image.width * image.height + (8 - image.width * image.height % 8) % 8 := by
  rw [Image.words]
  omega

/-- Bits past the end of the picture come out at its start, over the first
pixels of the first row. -/
theorem drawnBit_start (hkept : 0 < image.kept) (hH : 0 < image.height) {c : Nat}
    (hc : c < (8 - image.width * image.height % 8) % 8) : image.drawnBit c = false := by
  obtain ⟨-, hlt, hwords⟩ := image.words_le
  have hrows := image.kept_rows
  have hmul := Nat.mul_le_mul_right image.kept hH
  rw [Nat.one_mul] at hmul
  have hbyte : 8 ≤ image.kept := by
    rw [Image.kept] at hkept ⊢
    omega
  rw [Image.drawnBit, lastWord_early (by omega) hlt (by omega)]
  exact streamBit_past (by omega)

/-- Elsewhere the bit of the same place in the stream comes out. -/
theorem drawnBit_rest {c : Nat} (hlow : (8 - image.width * image.height % 8) % 8 ≤ c)
    (hc : c < image.width * image.height) : image.drawnBit c = image.streamBit c := by
  obtain ⟨-, -, hwords⟩ := image.words_le
  rw [Image.drawnBit, lastWord_late (by omega) hc]

/-- With no whole byte in a row nothing is packed. -/
theorem drawnBit_narrow (hkept : image.kept = 0) (c : Nat) : image.drawnBit c = false := by
  refine streamBit_past ?_
  rw [hkept, Nat.mul_zero]
  exact Nat.zero_le _

/-- Widths of whole bytes come out as they were. -/
theorem drawnBit_whole (hdvd : 8 ∣ image.width) {c : Nat} (hc : c < image.width * image.height) :
    image.drawnBit c = image.pixelBit c := by
  have hkept : image.kept = image.width := Nat.mul_div_cancel' hdvd
  have hmod : image.width * image.height % 8 = 0 :=
    Nat.mod_eq_zero_of_dvd (Nat.dvd_mul_right_of_dvd hdvd image.height)
  rw [drawnBit_rest (by omega) hc]
  rw [Nat.mul_comm, ← hkept] at hc
  obtain ⟨hbit, -⟩ := streamBit_moved hc
  rw [hbit, hkept, Nat.sub_self, Nat.zero_mul, Nat.add_zero]

/-- The whites of the picture are in the first row, among the pixels of whole
bytes that no bit comes round to. -/
def Image.FirstRow (image : Image) : Prop :=
  ∀ x < image.width, ∀ y < image.height, 0x40 < (image.getpixel x y).pix →
    y = 0 ∧ (8 - image.width * image.height % 8) % 8 ≤ x ∧ x < 8 * (image.width / 8)

theorem firstRow_iff : image.FirstRow ↔ ∀ c < image.width * image.height,
    image.pixelBit c = true → (8 - image.width * image.height % 8) % 8 ≤ c ∧ c < image.kept := by
  constructor
  · intro hfirst c hc hbit
    have hW : 0 < image.width := Nat.pos_of_mul_pos_right (Nat.zero_lt_of_lt hc)
    obtain ⟨hy, hx⟩ := hfirst (c % image.width) (Nat.mod_lt c hW) (c / image.width)
      (Nat.div_lt_of_lt_mul hc) (of_decide_eq_true hbit)
    have hmod := Nat.mod_add_div c image.width
    rw [hy, Nat.mul_zero, Nat.add_zero] at hmod
    rw [hmod] at hx
    exact hx
  · intro hall x hx y hy hwhite
    obtain ⟨hc, -, hdiv⟩ := pixel_index hx hy
    have hbit : image.pixelBit (x + image.width * y) = true := by
      rw [pixelBit_at hx hy]
      exact decide_eq_true hwhite
    obtain ⟨hlow, hkept⟩ := hall _ hc hbit
    have hy0 : y = 0 := by
      rw [← hdiv]
      exact Nat.div_eq_of_lt (Nat.lt_of_lt_of_le hkept image.kept_le)
    rw [hy0, Nat.mul_zero, Nat.add_zero] at hlow hkept
    exact ⟨hy0, hlow, hkept⟩

/-- A row's pixels move on by the bits dropped before it. So below the first row
each pixel comes out as a later one does, and the last ones come out black. -/
theorem pixelBit_below {c : Nat} (hdvd : ¬ 8 ∣ image.width)
    (hdrawn : ∀ c < image.width * image.height, image.drawnBit c = image.pixelBit c)
    (hkept : 0 < image.kept) (hlow : image.kept ≤ c) (hc : c < image.width * image.height) :
    image.pixelBit c = false := by
  have hshift : image.kept < image.width := by
    refine Nat.lt_of_le_of_ne image.kept_le fun heq => hdvd ?_
    rw [← heq]
    exact Nat.dvd_mul_right 8 _
  have hcell : image.drawnBit c = image.streamBit c := by
    refine drawnBit_rest ?_ hc
    rw [Image.kept] at hkept hlow
    omega
  rw [← hdrawn c hc, hcell]
  by_cases hrow : c < image.height * image.kept
  · obtain ⟨hbit, hlt⟩ := streamBit_moved hrow
    have hlater : c < c + (image.width - image.kept) * (c / image.kept) := by
      have hpos := Nat.mul_pos (Nat.sub_pos_of_lt hshift) (Nat.div_pos hlow hkept)
      omega
    rw [hbit]
    exact pixelBit_below hdvd hdrawn hkept (by omega) hlt
  · exact streamBit_past (Nat.le_of_not_lt hrow)
termination_by image.width * image.height - c

/-- Where the picture comes out. -/
theorem drawnBit_iff : (∀ c < image.width * image.height, image.drawnBit c = image.pixelBit c) ↔
    8 ∣ image.width ∨ image.FirstRow := by
  rw [firstRow_iff]
  constructor
  · intro hdrawn
    by_cases hdvd : 8 ∣ image.width
    · exact .inl hdvd
    · refine .inr fun c hc hwhite => ?_
      have hH : 0 < image.height := Nat.pos_of_mul_pos_left (Nat.zero_lt_of_lt hc)
      rcases Nat.eq_zero_or_pos image.kept with hnone | hkept
      · rw [← hdrawn c hc, drawnBit_narrow hnone] at hwhite
        cases hwhite
      · constructor
        · apply Nat.le_of_not_lt
          intro hlow
          rw [← hdrawn c hc, drawnBit_start hkept hH hlow] at hwhite
          cases hwhite
        · apply Nat.lt_of_not_le
          intro hlow
          rw [pixelBit_below hdvd hdrawn hkept hlow hc] at hwhite
          cases hwhite
  · rintro (hdvd | hfirst) c hc
    · exact drawnBit_whole hdvd hc
    · have hH : 0 < image.height := Nat.pos_of_mul_pos_left (Nat.zero_lt_of_lt hc)
      have hblack : ¬ ((8 - image.width * image.height % 8) % 8 ≤ c ∧ c < image.kept) →
          image.pixelBit c = false := fun hout => Bool.eq_false_iff.mpr fun hbit =>
            hout (hfirst c hc hbit)
      rcases Nat.eq_zero_or_pos image.kept with hnone | hkept
      · rw [drawnBit_narrow hnone, hblack (by omega)]
      · by_cases hlow : (8 - image.width * image.height % 8) % 8 ≤ c
        · rw [drawnBit_rest hlow hc]
          by_cases hrow : c < image.height * image.kept
          · obtain ⟨hbit, hlt⟩ := streamBit_moved hrow
            by_cases hfirstRow : c < image.kept
            · rw [hbit, Nat.div_eq_of_lt hfirstRow, Nat.mul_zero, Nat.add_zero]
            · -- below the first row both bits are black
              rw [hbit, hblack (by omega)]
              refine Bool.eq_false_iff.mpr fun hwhite => ?_
              have hle := (hfirst _ hlt hwhite).2
              omega
          · have hmul := Nat.mul_le_mul_right image.kept hH
            rw [Nat.one_mul] at hmul
            rw [streamBit_past (Nat.le_of_not_lt hrow), hblack (by omega)]
        · rw [drawnBit_start hkept hH (by omega), hblack (by omega)]

/-! ## The round trip -/

/-- The compressed picture at `data`, drawn on any display of its size, shows. -/
def DrawnRight (image : Image) (flash : Mem) (data : Nat) (wx wy : Word) (temp : Nat → Half) :
    Prop :=
  ∀ σ : Display, ∃ fuel log,
    drawHSBitmap (IliHS.next flash) fuel (BitVec.ofNat 32 image.width)
      (BitVec.ofNat 32 image.height) wx wy (IliHS.init data) temp = some log ∧
    image.Shown (LcdCall.runAll (image.width * image.height) log σ).pixels

/-- What is drawn of a picture that `pixel` can count. -/
theorem drawn_bits {pixels : Nat → Half} (hout : convert image = some out) {c : Nat}
    (hc : c < image.width * image.height) :
    Ring.fill (image.width * image.height) (wordsOf out) pixels c = color (image.drawnBit c) := by
  obtain ⟨out', hout', hlen, hbits⟩ := convert_stream image
  rw [hout] at hout'
  cases hout'
  have hwords : (wordsOf out).length = image.words := by
    rw [length_wordsOf, hlen]
    rfl
  have hlt : c < (wordsOf out).length := by
    rw [hwords]
    exact Nat.lt_of_lt_of_le hc image.words_le.1
  have hlast := lastWord_lt (N := image.width * image.height) hlt
  rw [fill_lastWord hc hlt, wordsOf, List.getElem?_map, hbits, Option.map_some, Option.getD_some,
    ← wordsOf, hwords]
  · rfl
  · exact Nat.lt_of_lt_of_eq hlast (length_wordsOf out)

theorem drawnRight_fits {compress : List Byte → List Byte} (hout : convert image = some out)
    (hundo : Undone compress out) (hflash : flash.read data (compress out).length = compress out)
    (wx wy : Word) (temp : Nat → Half) (hfit : image.width * image.height ≤ 2 ^ 31 - 8) :
    DrawnRight image flash data wx wy temp ↔
      ∀ c < image.width * image.height, image.drawnBit c = image.pixelBit c := by
  obtain ⟨st, hst0, hst⟩ := reader_states flash data
  have hprod : (BitVec.ofNat 32 image.width * BitVec.ofNat 32 image.height).toInt.toNat =
      image.width * image.height := by
    rw [← BitVec.ofNat_mul, BitVec.toInt_eq_toNat_cond, BitVec.toNat_ofNat]
    split <;> omega
  obtain ⟨fuel, batches, hdraw, hbytes, -⟩ :=
    drawHSBitmap_batches (fun i => (hst i).2) wx wy temp hprod hfit
  obtain ⟨out', hout', hlen, -⟩ := convert_stream image
  rw [hout] at hout'
  cases hout'
  rw [← hlen, expand_undone hundo hflash] at hbytes
  rw [hst0] at hdraw
  have hshown : ∀ σ : Display, image.Shown (LcdCall.runAll (image.width * image.height)
      (windowCalls (BitVec.ofNat 32 image.width) (BitVec.ofNat 32 image.height) wx wy ++
        batches.flatMap batchCalls ++ [.dataEnd]) σ).pixels ↔
      ∀ c < image.width * image.height, image.drawnBit c = image.pixelBit c := by
    intro σ
    rw [windowCalls, LcdCall.runAll_bitmap, shown_iff, hbytes]
    constructor
    · intro hall c hc
      exact color_inj.mp ((drawn_bits hout hc).symm.trans (hall c hc))
    · intro hall c hc
      rw [drawn_bits hout hc, hall c hc]
  constructor
  · intro hright
    obtain ⟨fuel', log, hdraw', hlog⟩ := hright ⟨false, 0, none, 0, fun _ => 0⟩
    rw [drawHSBitmap_unique hdraw' hdraw] at hlog
    exact (hshown _).mp hlog
  · intro hall σ
    exact ⟨fuel, _, hdraw, (hshown σ).mpr hall⟩

/-- A picture that `pixel` cannot count never ends, or its last pixel is not
drawn. -/
theorem drawnRight_huge (flash : Mem) (data : Nat) (wx wy : Word) (temp : Nat → Half)
    (hhuge : 2 ^ 31 - 8 < image.width * image.height) :
    ¬ DrawnRight image flash data wx wy temp := by
  intro hright
  obtain ⟨fuel, log, hdraw, hshown⟩ := hright ⟨false, 0, none, 0, fun _ => 1⟩
  by_cases hcount : 2 ^ 31 - 8 <
      (BitVec.ofNat 32 image.width * BitVec.ofNat 32 image.height).toInt
  · rw [drawHSBitmap_endless wx wy (IliHS.init data) temp hcount fuel] at hdraw
    cases hdraw
  · obtain ⟨st, hst0, hst⟩ := reader_states flash data
    have hsmall : (BitVec.ofNat 32 image.width * BitVec.ofNat 32 image.height).toInt.toNat ≤
        2 ^ 31 - 8 := by omega
    obtain ⟨fuel', batches, hdraw', hbytes, -⟩ :=
      drawHSBitmap_batches (fun i => (hst i).2) wx wy temp rfl hsmall
    rw [hst0] at hdraw'
    rw [drawHSBitmap_unique hdraw hdraw', windowCalls, LcdCall.runAll_bitmap, shown_iff] at hshown
    have hlast := hshown (image.width * image.height - 1) (by omega)
    have hnone : ∀ j < (wordsOf batches.flatten).length,
        j % (image.width * image.height) ≠ image.width * image.height - 1 := by
      intro j hj
      rw [length_wordsOf, hbytes, List.length_map, List.length_range] at hj
      rw [Nat.mod_eq_of_lt (by omega)]
      omega
    have hkept := Ring.fill_other (m := fun _ => (1 : Half)) hnone
    rw [hkept] at hlast
    cases hbit : image.pixelBit (image.width * image.height - 1) with
    | true =>
        rw [hbit] at hlast
        exact absurd hlast (by decide)
    | false =>
        rw [hbit] at hlast
        exact absurd hlast (by decide)

/-- A picture comes out exactly when `pixel` can count it, and its width is one
of whole bytes or its whites are in the part of the first row that stays. -/
theorem round_trip_iff (image : Image) (compress : List Byte → List Byte) (out : List Byte)
    (hout : convert image = some out) (hundo : Undone compress out) (flash : Mem) (data : Nat)
    (hflash : flash.read data (compress out).length = compress out) (wx wy : Word)
    (temp : Nat → Half) :
    DrawnRight image flash data wx wy temp ↔
      image.width * image.height ≤ 2 ^ 31 - 8 ∧ (8 ∣ image.width ∨ image.FirstRow) := by
  by_cases hfit : image.width * image.height ≤ 2 ^ 31 - 8
  · rw [drawnRight_fits hout hundo hflash wx wy temp hfit, drawnBit_iff]
    exact (and_iff_right hfit).symm
  · constructor
    · intro hright
      exact absurd hright (drawnRight_huge flash data wx wy temp (Nat.lt_of_not_le hfit))
    · intro hcond
      exact absurd hcond.1 hfit

/-! ## Pictures of one byte -/

/-- One literal. -/
def storeByte (out : List Byte) : List Byte := [0x80 ||| out.headD 0 >>> 1, out.headD 0 <<< 7]

theorem storeByte_bits : ∀ c : Byte, (0x80 ||| c >>> 1).getMsbD 0 = true ∧
    Bits.field (fun i => if i = 0 then 0x80 ||| c >>> 1 else c <<< 7) 1 8 = c.toNat := by
  decide +kernel

/-- A field of a stream depends on its bits only. -/
theorem field_congr {s s' : Nat → Byte} {i n : Nat}
    (h : ∀ j < n, Bits.bitAt s (i + j) = Bits.bitAt s' (i + j)) :
    Bits.field s i n = Bits.field s' i n := by
  induction n with
  | zero => rfl
  | succ n ih =>
      rw [Bits.field, Bits.field, h n (Nat.lt_succ_self n), ih fun j hj => h j (by omega)]

theorem storeByte_undone (c : Byte) : Undone storeByte [c] := by
  intro flash data hflash i hi
  have hi0 : i = 0 := by simpa using hi
  subst hi0
  have h0 : flash data = 0x80 ||| c >>> 1 := by
    have hfirst := congrArg (fun bs => bs.getD 0 0) hflash
    simpa [storeByte, Mem.read] using hfirst
  have h1 : flash (data + 1) = c <<< 7 := by
    have hsecond := congrArg (fun bs => bs.getD 1 0) hflash
    simpa [storeByte, Mem.read] using hsecond
  obtain ⟨hs, hafter, hread⟩ := IliHS.after_reads flash data 0
  obtain ⟨hs', hnext, -⟩ := IliHS.next_reads hread
  obtain ⟨htag, hfield⟩ := storeByte_bits c
  have hbit : Bits.bitAt (flash.from_ data) 0 = true := by
    rw [← htag, ← h0]
    rfl
  have hliteral : Bits.field (flash.from_ data) 1 8 = c.toNat := by
    rw [← hfield]
    refine field_congr fun j hj => ?_
    by_cases hlast : j = 7
    · subst hlast
      simp [Bits.bitAt, Mem.from_, h1]
    · have hdiv : (1 + j) / 8 = 0 := by omega
      simp [Bits.bitAt, hdiv, Mem.from_, h0]
  refine ⟨hs, hs', hafter, ?_⟩
  rw [hnext]
  have hbyte : Lzss.expand 8 4 (flash.from_ data) 0 = c := by
    rw [Lzss.expand, Lzss.tokens, Lzss.tokens, Lzss.token, if_pos hbit]
    simp only [Nat.zero_add, hliteral]
    simp
  rw [hbyte]
  rfl

/-- Eight pixels, every other one white. -/
def stripes : Image := ⟨8, 1, fun x _ => .grey (if x % 2 = 0 then 0xff else 0)⟩

theorem round_trip_stripes :
    DrawnRight stripes (Mem.write (fun _ => 0) 0 (storeByte [0xaa])) 0 0 0 (fun _ => 0) := by
  have hdrawn := round_trip_iff stripes storeByte [0xaa] (by decide) (storeByte_undone 0xaa)
    (Mem.write (fun _ => 0) 0 (storeByte [0xaa])) 0 (by decide) 0 0 (fun _ => 0)
  exact hdrawn.mpr ⟨by decide, .inl (by decide)⟩

/-- One white pixel. -/
def whitePixel : Image := ⟨1, 1, fun _ _ => .grey 0xff⟩

/-- The bit of a picture one pixel wide is dropped. -/
theorem whitePixel_lost :
    convert whitePixel = some [0] ∧ Undone storeByte [0] ∧
      ¬ DrawnRight whitePixel (Mem.write (fun _ => 0) 0 (storeByte [0])) 0 0 0 (fun _ => 0) := by
  have hout : convert whitePixel = some [0] := by decide
  refine ⟨hout, storeByte_undone 0, ?_⟩
  rw [drawnRight_fits hout (storeByte_undone 0) (by decide) 0 0 (fun _ => 0) (by decide)]
  intro hdrawn
  exact absurd (hdrawn 0 (by decide)) (by decide)

end LnDso
