import LnDso.Lib.Bits
import LnDso.Machine.Convert

/-!
# What the packing loop writes

A row of the picture goes through in groups of eight: a whole group is one
byte of `out`, and the mask starts again with the next row, so the pixels left
over at the end of a row reach no byte. What no byte reaches stays zero.
-/

namespace LnDso

open Lib

variable {image : Image} {s : Packing} {g arr : List Byte} {k n : Nat}

/-- The threshold. -/
def white (pix : Byte) : Bool := decide (0x40 < pix.toNat)

/-! ## One row -/

theorem setByte_eq {b : List Byte} {i v : Nat} (hi : i < b.length) (hv : v < 256) :
    setByte b i v = some (b.set i (BitVec.ofNat 8 v)) := by
  rw [setByte, if_pos ⟨hi, hv⟩]

theorem Pixel.pix_lt (p : Pixel) : p.pix < 256 := by
  cases p with
  | grey v => exact v.isLt
  | index v =>
      simp only [Pixel.pix]
      split <;> omega
  | quad a b c d =>
      simp only [Pixel.pix]
      omega

/-- Row `y` of the picture, as bytes. -/
def Image.row (image : Image) (y : Nat) : List Byte :=
  (List.range image.width).map fun x => BitVec.ofNat 8 (image.getpixel x y).pix

@[simp] theorem Image.length_row (image : Image) (y : Nat) :
    (image.row y).length = image.width := by
  simp [Image.row]

theorem readRow_start (y : Nat) (h : n ≤ arr.length) :
    (List.range n).foldlM (fun arr x => setByte arr x (image.getpixel x y).pix) arr =
      some ((List.range n).map (fun x => BitVec.ofNat 8 (image.getpixel x y).pix) ++
        arr.drop n) := by
  induction n with
  | zero => rfl
  | succ n ih =>
      have hlen : ((List.range n).map fun x =>
          BitVec.ofNat 8 (image.getpixel x y).pix).length = n := by simp
      rw [List.range_succ, List.foldlM_append, ih (by omega), Option.bind_eq_bind,
        Option.bind_some, List.foldlM_cons, setByte_eq (by simp; omega) (Pixel.pix_lt _),
        List.set_append_right _ _ (by omega), hlen, Nat.sub_self,
        List.drop_eq_getElem_cons (by omega : n < arr.length), List.set_cons_zero]
      simp

theorem readRow_eq (y : Nat) (h : arr.length = image.width) :
    readRow image y arr = some (image.row y) := by
  rw [readRow, readRow_start y (by omega), List.drop_of_length_le (by omega), List.append_nil]
  rfl

/-! ## One group -/

theorem packPixel_last (pix : Byte) (hmask : s.mask = 1) (hfit : s.xx < s.out.length)
    (hvalue : s.value < 255) :
    packPixel s pix = some { s with
      out := s.out.set s.xx (BitVec.ofNat 8 (s.value + (white pix).toNat))
      mask := 0x80, xx := s.xx + 1, value := 0 } := by
  have hshift : s.mask >>> 1 = 0 := by rw [hmask]; rfl
  by_cases hpix : 0x40 < pix.toNat
  · rw [packPixel, if_pos hpix, if_pos hshift, hmask, setByte_eq hfit (by omega), white,
      decide_eq_true hpix]
    rfl
  · rw [packPixel, if_neg hpix, if_pos hshift, setByte_eq hfit (by omega), white,
      decide_eq_false hpix]
    rfl

theorem packPixel_next (pix : Byte) (hmask : s.mask = 2 ^ (k + 1)) :
    packPixel s pix = some { s with
      mask := 2 ^ k, value := s.value + (white pix).toNat * 2 ^ (k + 1) } := by
  have hshift : s.mask >>> 1 = 2 ^ k := by
    rw [hmask, Nat.shiftRight_eq_div_pow, Nat.pow_succ, Nat.pow_one,
      Nat.mul_div_cancel _ Nat.two_pos]
  have hne : (2 : Nat) ^ k ≠ 0 := Nat.pos_iff_ne_zero.mp (Nat.two_pow_pos k)
  by_cases hpix : 0x40 < pix.toNat
  · rw [packPixel, if_pos hpix, hshift, if_neg hne, white, decide_eq_true hpix, hmask,
      Bool.toNat_true, Nat.one_mul]
  · rw [packPixel, if_neg hpix, hshift, if_neg hne, white, decide_eq_false hpix,
      Bool.toNat_false, Nat.zero_mul, Nat.add_zero]

/-- A whole group is one byte. -/
theorem pack_group (hlen : g.length = k + 1) (hmask : s.mask = 2 ^ k)
    (hfit : s.xx < s.out.length) (hvalue : s.value + 2 ^ (k + 1) ≤ 256) :
    g.foldlM packPixel s = some { s with
      out := s.out.set s.xx (BitVec.ofNat 8 (s.value + Bits.value (g.map white)))
      mask := 0x80, xx := s.xx + 1, value := 0 } := by
  induction k generalizing g s with
  | zero =>
      obtain ⟨pix, rfl⟩ := List.length_eq_one_iff.mp hlen
      rw [List.foldlM_cons, packPixel_last pix hmask hfit (by omega)]
      simp [Bits.value_cons]
  | succ k ih =>
      cases g with
      | nil => exact absurd hlen (by simp)
      | cons pix g =>
          have hg : g.length = k + 1 := by simpa using hlen
          have hbit := Bool.toNat_le (white pix)
          have hpow : 2 ^ (k + 1 + 1) = 2 * 2 ^ (k + 1) := Nat.pow_succ'
          have hmul : (white pix).toNat * 2 ^ (k + 1) ≤ 1 * 2 ^ (k + 1) :=
            Nat.mul_le_mul_right _ hbit
          rw [List.foldlM_cons, packPixel_next pix hmask, Option.bind_eq_bind, Option.bind_some,
            ih (s := { s with
              mask := 2 ^ k, value := s.value + (white pix).toNat * 2 ^ (k + 1) })
              hg rfl hfit (by simp only; omega)]
          simp [Bits.value_cons, hg, Nat.add_assoc]

/-- The pixels of a group that is not whole stay in `value`. -/
theorem pack_partial (hlen : g.length ≤ k) (hmask : s.mask = 2 ^ k) :
    ∃ mask value, g.foldlM packPixel s = some { s with mask := mask, value := value } := by
  induction g generalizing s k with
  | nil => exact ⟨s.mask, s.value, rfl⟩
  | cons pix g ih =>
      cases k with
      | zero => exact absurd hlen (by simp)
      | succ k =>
          have hg : g.length ≤ k := by simpa using hlen
          obtain ⟨mask, value, hrest⟩ := ih (s := { s with
            mask := 2 ^ k, value := s.value + (white pix).toNat * 2 ^ (k + 1) }) hg rfl
          refine ⟨mask, value, ?_⟩
          rw [List.foldlM_cons, packPixel_next pix hmask, Option.bind_eq_bind, Option.bind_some,
            hrest]

/-- One row: its whole groups, from `out[xx]` on. -/
theorem pack_row {q : Nat} {done : List Byte} (hq : arr.length / 8 = q)
    (hout : s.out = done ++ List.replicate n 0) (hxx : s.xx = done.length)
    (hmask : s.mask = 0x80) (hvalue : s.value = 0) (hfit : q ≤ n) :
    ∃ mask value, arr.foldlM packPixel s = some { s with
      out := done ++ Bits.wholeBytes (arr.map white) ++ List.replicate (n - q) 0
      xx := done.length + q, mask := mask, value := value } := by
  induction q generalizing arr s done n with
  | zero =>
      have hlen : arr.length ≤ 7 := by omega
      obtain ⟨mask, value, hpack⟩ := pack_partial (k := 7) hlen (by rw [hmask]; rfl)
      refine ⟨mask, value, ?_⟩
      rw [hpack, Bits.wholeBytes_short (by rw [List.length_map]; omega), List.append_nil,
        Nat.sub_zero, Nat.add_zero, ← hout, ← hxx]
  | succ q ih =>
      obtain ⟨n, rfl⟩ : ∃ n', n = n' + 1 := ⟨n - 1, by omega⟩
      have hgroup : (arr.take 8).length = 7 + 1 := List.length_take_of_le (by omega)
      have hrest : (arr.drop 8).length / 8 = q := by
        rw [List.length_drop]
        omega
      have hbits : ((arr.take 8).map white).length = 8 := by rw [List.length_map, hgroup]
      have hset : s.out.set s.xx (Bits.toByte ((arr.take 8).map white)) =
          (done ++ [Bits.toByte ((arr.take 8).map white)]) ++ List.replicate n 0 := by
        rw [hout, hxx, List.set_append_right _ _ (Nat.le_refl _), Nat.sub_self,
          List.replicate_succ, List.set_cons_zero, List.append_assoc]
        rfl
      have hfirst := pack_group hgroup (by rw [hmask]; rfl)
        (by rw [hout, hxx, List.length_append, List.length_replicate]; omega)
        (by rw [hvalue]; decide)
      rw [hvalue, Nat.zero_add] at hfirst
      obtain ⟨mask, value, hpack⟩ := ih (s := { s with
        out := s.out.set s.xx (Bits.toByte ((arr.take 8).map white))
        mask := 0x80, xx := s.xx + 1, value := 0 }) hrest hset
        (by rw [List.length_append, List.length_singleton, hxx]) rfl rfl (by omega)
      refine ⟨mask, value, ?_⟩
      have hsplit : arr.map white = (arr.take 8).map white ++ (arr.drop 8).map white := by
        rw [← List.map_append, List.take_append_drop]
      have hfold : arr.foldlM packPixel s =
          ((arr.take 8).foldlM packPixel s).bind fun s => (arr.drop 8).foldlM packPixel s := by
        rw [← Option.bind_eq_bind, ← List.foldlM_append, List.take_append_drop]
      rw [hfold, hfirst, Option.bind_some]
      refine hpack.trans ?_
      rw [hsplit, Bits.wholeBytes_append hbits, List.length_append, List.length_singleton,
        Nat.add_sub_add_right]
      simp [Nat.add_assoc, Nat.add_comm 1]

/-! ## The picture -/

/-- The picture at one bit a pixel. -/
def Image.bit (image : Image) (x y : Nat) : Bool := decide (0x40 < (image.getpixel x y).pix)

theorem map_white_row (image : Image) (y : Nat) :
    (image.row y).map white = (List.range image.width).map fun x => image.bit x y := by
  rw [Image.row, List.map_map]
  apply List.map_congr_left
  intro x _
  simp [white, Image.bit, Nat.mod_eq_of_lt (Pixel.pix_lt (image.getpixel x y))]

/-- The bytes of the first `y` rows. -/
def Image.packed (image : Image) (y : Nat) : List Byte :=
  (List.range y).flatMap fun y => Bits.wholeBytes ((image.row y).map white)

theorem Image.packed_succ (image : Image) (y : Nat) :
    image.packed (y + 1) = image.packed y ++ Bits.wholeBytes ((image.row y).map white) := by
  rw [Image.packed, List.range_succ, List.flatMap_append, List.flatMap_singleton]
  rfl

@[simp] theorem Image.length_packed (image : Image) (y : Nat) :
    (image.packed y).length = y * (image.width / 8) := by
  induction y with
  | zero => simp [Image.packed]
  | succ y ih =>
      rw [Image.packed_succ, List.length_append, ih, Bits.length_wholeBytes, List.length_map,
        Image.length_row, Nat.succ_mul]

/-- The first `y` rows. -/
theorem pack_rows {y : Nat} (harr : s.arr.length = image.width)
    (hout : s.out = List.replicate n 0) (hxx : s.xx = 0) (hfit : y * (image.width / 8) ≤ n) :
    ∃ arr mask value, arr.length = image.width ∧
      (List.range y).foldlM (packRow image) s = some {
        arr := arr
        out := image.packed y ++ List.replicate (n - y * (image.width / 8)) 0
        xx := y * (image.width / 8), mask := mask, value := value } := by
  induction y with
  | zero =>
      refine ⟨s.arr, s.mask, s.value, harr, ?_⟩
      rw [Nat.zero_mul, Nat.sub_zero, Image.packed, List.range_zero, List.flatMap_nil,
        List.nil_append, ← hout, ← hxx]
      rfl
  | succ y ih =>
      rw [Nat.succ_mul] at hfit ⊢
      obtain ⟨arr, mask, value, hlen, hrows⟩ := ih (by omega)
      have hq : (image.row y).length / 8 = image.width / 8 := by rw [Image.length_row]
      obtain ⟨mask', value', hrow⟩ := pack_row (n := n - y * (image.width / 8))
        (s := { arr := image.row y
                out := image.packed y ++ List.replicate (n - y * (image.width / 8)) 0
                xx := y * (image.width / 8), mask := 0x80, value := 0 })
        hq rfl (image.length_packed y).symm rfl rfl (by omega)
      refine ⟨image.row y, mask', value', image.length_row y, ?_⟩
      rw [List.range_succ, List.foldlM_append, hrows, Option.bind_eq_bind, Option.bind_some,
        List.foldlM_cons, packRow, readRow_eq y hlen, Option.bind_some, hrow, Image.packed_succ,
        Image.length_packed, Nat.sub_sub]
      rfl

theorem packed_fits (image : Image) :
    image.height * (image.width / 8) ≤ (image.width * image.height + 7) / 8 := by
  have hmul : image.width / 8 * 8 * image.height ≤ image.width * image.height :=
    Nat.mul_le_mul_right _ (Nat.div_mul_le_self image.width 8)
  have hcomm : image.width / 8 * 8 * image.height = 8 * (image.height * (image.width / 8)) := by
    rw [Nat.mul_right_comm, Nat.mul_comm _ 8, Nat.mul_comm (image.width / 8)]
  omega

/-- The script packs every picture: the rows, and zeros. -/
theorem convert_eq (image : Image) :
    convert image = some (image.packed image.height ++
      List.replicate ((image.width * image.height + 7) / 8 - image.height * (image.width / 8)) 0) := by
  obtain ⟨arr, mask, value, -, hrows⟩ := pack_rows (y := image.height)
    (n := (image.width * image.height + 7) / 8)
    (s := { arr := List.replicate image.width 0
            out := List.replicate ((image.width * image.height + 7) / 8) 0
            xx := 0, mask := 0x80, value := 0 })
    List.length_replicate rfl rfl (packed_fits image)
  rw [convert, hrows, Option.map_some]

/-! ## The bits that are written -/

/-- Bit `i` of what the script writes: pixel by pixel, but only the whole groups
of a row. -/
def Image.streamBit (image : Image) (i : Nat) : Bool :=
  if i < image.height * (8 * (image.width / 8)) then
    image.bit (i % (8 * (image.width / 8))) (i / (8 * (image.width / 8)))
  else false

theorem stream_packed (image : Image) (y : Nat) : Bits.stream (image.packed y) =
    (List.range y).flatMap fun y =>
      ((List.range image.width).map fun x => image.bit x y).take (8 * (image.width / 8)) := by
  rw [Image.packed, Bits.stream, List.flatMap_assoc]
  refine congrArg (List.range y).flatMap (funext fun y => ?_)
  have hrow := Bits.stream_wholeBytes ((image.row y).map white)
  rw [List.length_map, Image.length_row] at hrow
  rw [← map_white_row]
  exact hrow

theorem convert_stream (image : Image) : ∃ out, convert image = some out ∧
    out.length = (image.width * image.height + 7) / 8 ∧
    ∀ i < 8 * out.length, (Bits.stream out)[i]? = some (image.streamBit i) := by
  refine ⟨_, convert_eq image, ?_, fun i hi => ?_⟩
  · have hfits := packed_fits image
    rw [List.length_append, Image.length_packed, List.length_replicate]
    omega
  · rw [List.length_append, Image.length_packed, List.length_replicate] at hi
    have hgroup : 8 * (image.width / 8) ≤ image.width := Nat.mul_div_le image.width 8
    have hcells : image.height * (8 * (image.width / 8)) = 8 * (image.height * (image.width / 8)) := by
      rw [Nat.mul_left_comm]
    rw [Bits.stream_append, Image.streamBit]
    by_cases hlt : i < image.height * (8 * (image.width / 8))
    · have hpos : 0 < 8 * (image.width / 8) := by
        apply Nat.pos_of_ne_zero
        intro hzero
        rw [hzero, Nat.mul_zero] at hlt
        exact absurd hlt (Nat.not_lt_zero i)
      have hmod := Nat.mod_lt i hpos
      rw [if_pos hlt, List.getElem?_append_left (by simp; omega), stream_packed,
        getElem?_rows (m := 8 * (image.width / 8)) (fun y => by simp; omega) hlt,
        List.getElem?_take_of_lt hmod, List.getElem?_map, List.getElem?_range (by omega),
        Option.map_some]
    · rw [if_neg hlt, List.getElem?_append_right (by simp; omega), Bits.stream_zeros,
        List.getElem?_replicate, if_pos (by simp; omega)]

end LnDso
