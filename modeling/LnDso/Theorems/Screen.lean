import LnDso.Logic.Windows
import LnDso.Theorems.Encoded
import LnDso.Theorems.RoundTrip
import LnDso.Theorems.Wires

/-!
# On the screen

A picture comes out where it is drawn, pixel by pixel, and nothing else on the
panel changes.
-/

namespace LnDso

open Lib

variable {flash : Mem} {data : Nat} {image : Image} {β τ : Board} {dat : Bool}

/-! ## Pictures -/

/-- The stream at `data` expands to the bytes of the picture, and then to
anything. -/
def Image.Stored (image : Image) (flash : Mem) (data : Nat) : Prop :=
  ∃ out, convert image = some out ∧
    ∀ i < out.length, out[i]? = some (Lzss.expand 8 4 (flash.from_ data) i)

/-- `mem`, with the picture at column `wx` and row `wy`. -/
def Image.over (image : Image) (wx wy : Nat) (mem : Nat → Nat → Half) (x y : Nat) : Half :=
  if wx ≤ x ∧ x < wx + image.width ∧ wy ≤ y ∧ y < wy + image.height then
    if 0x40 < (image.getpixel (x - wx) (y - wy)).pix then 0xffff else 0
  else mem x y

/-- Tokens that say the picture. -/
theorem stored_encode (toks : List Lzss.Tok) (hout : convert image = some (Lzss.meaning toks))
    (hfit : ∀ t ∈ toks, t.Fits 8 4)
    (hflash : flash.read data (Lzss.encode 8 4 toks).length = Lzss.encode 8 4 toks) :
    image.Stored flash data :=
  ⟨_, hout, fun _ hi => expand_tokens hfit hflash hi⟩

/-- The calls that draw it are a drawing of its words. -/
theorem drawHSBitmap_ops (hstored : image.Stored flash data)
    (hfit : image.width * image.height ≤ 2 ^ 31 - 8) (wx wy : Word) (temp : Nat → Half) :
    ∃ fuel calls out,
      drawHSBitmap (IliHS.next flash) fuel (BitVec.ofNat 32 image.width)
        (BitVec.ofNat 32 image.height) wx wy (IliHS.init data) temp = some calls ∧
      convert image = some out ∧
      calls.flatMap LcdCall.ops =
        drawing (wx.setWidth 16) (wy.setWidth 16)
          ((BitVec.ofNat 32 image.width + wx - 1).setWidth 16)
          ((BitVec.ofNat 32 image.height + wy - 1).setWidth 16) (wordsOf out) ++ [.cmd] := by
  obtain ⟨out, hout, hbytes⟩ := hstored
  obtain ⟨st, hst0, hst⟩ := reader_states flash data
  have hprod : (BitVec.ofNat 32 image.width * BitVec.ofNat 32 image.height).toInt.toNat =
      image.width * image.height := by
    rw [← BitVec.ofNat_mul, BitVec.toInt_eq_toNat_cond, BitVec.toNat_ofNat]
    split <;> omega
  obtain ⟨fuel, batches, hdraw, hflat, -⟩ :=
    drawHSBitmap_batches (fun i => (hst i).2) wx wy temp hprod hfit
  obtain ⟨out', hout', hlen, -⟩ := convert_stream image
  rw [hout] at hout'
  cases hout'
  have hwhole : batches.flatten = out := by
    rw [hflat]
    refine List.ext_getElem? fun i => ?_
    by_cases hi : i < out.length
    · rw [hbytes i hi, List.getElem?_map, List.getElem?_range (hlen ▸ hi)]
      rfl
    · rw [List.getElem?_eq_none (by simpa [hlen] using hi), List.getElem?_eq_none (by omega)]
  rw [hst0] at hdraw
  refine ⟨fuel, _, out, hdraw, hout, ?_⟩
  rw [List.flatMap_append, List.flatMap_append, batches_ops, hwhole]
  simp [windowCalls, LcdCall.ops, drawing]

/-- The window of a picture. -/
theorem opened_picture {W H : Nat} {wx wy : Word} (hW : 0 < W) (hH : 0 < H)
    (hx : wx.toNat + W ≤ 2 ^ 16) (hy : wy.toNat + H ≤ 2 ^ 16) (p : Panel) :
    let q := p.opened (wx.setWidth 16) (wy.setWidth 16)
      ((BitVec.ofNat 32 W + wx - 1).setWidth 16) ((BitVec.ofNat 32 H + wy - 1).setWidth 16)
    q.xs.toNat = wx.toNat ∧ q.ys.toNat = wy.toNat ∧ q.width = W ∧ q.height = H := by
  have hend : ∀ (n : Nat) (w : Word), 0 < n → w.toNat + n ≤ 2 ^ 16 →
      ((BitVec.ofNat 32 n + w - 1).setWidth 16).toNat = w.toNat + n - 1 := by
    intro n w hn hroom
    have hone : (1 : Word).toNat = 1 := rfl
    rw [BitVec.toNat_setWidth, BitVec.toNat_sub, BitVec.toNat_add, BitVec.toNat_ofNat, hone]
    omega
  have hstart : ∀ (n : Nat) (w : Word), 0 < n → w.toNat + n ≤ 2 ^ 16 →
      (w.setWidth 16).toNat = w.toNat := by
    intro n w hn hroom
    rw [BitVec.toNat_setWidth]
    omega
  intro q
  have hxs : q.xs.toNat = wx.toNat := hstart W wx hW hx
  have hys : q.ys.toNat = wy.toNat := hstart H wy hH hy
  have hxe : q.xe.toNat = wx.toNat + W - 1 := hend W wx hW hx
  have hye : q.ye.toNat = wy.toNat + H - 1 := hend H wy hH hy
  refine ⟨hxs, hys, ?_, ?_⟩
  · rw [Panel.width, hxs, hxe]
    omega
  · rw [Panel.height, hys, hye]
    omega

/-- Drawn at any place of the panel, a picture of whole bytes is there. -/
theorem drawing_over (hwhole : 8 ∣ image.width) {out : List Byte} (hout : convert image = some out)
    {wx wy : Word} (hx : wx.toNat + image.width ≤ 2 ^ 16) (hy : wy.toNat + image.height ≤ 2 ^ 16)
    (dat : Bool) (p : Panel) :
    (p.takeAll (Bus.bytes dat (drawing (wx.setWidth 16) (wy.setWidth 16)
      ((BitVec.ofNat 32 image.width + wx - 1).setWidth 16)
      ((BitVec.ofNat 32 image.height + wy - 1).setWidth 16) (wordsOf out)))).mem =
    image.over wx.toNat wy.toNat p.mem := by
  funext x y
  by_cases hempty : image.width * image.height = 0
  · obtain ⟨out', hout', hlen, -⟩ := convert_stream image
    rw [hout] at hout'
    cases hout'
    rw [hempty] at hlen
    have hnil : out = [] := List.eq_nil_of_length_eq_zero hlen
    have hno : ¬ (wx.toNat ≤ x ∧ x < wx.toNat + image.width ∧ wy.toNat ≤ y ∧
        y < wy.toNat + image.height) := by
      rintro ⟨hleft, hright, htop, hbottom⟩
      rcases Nat.mul_eq_zero.mp hempty with hW | hH <;> omega
    rw [Image.over, if_neg hno, hnil, drawing, Bus.bytes_append, Panel.takeAll_append,
      Panel.takeAll_window]
    rfl
  · have hW : 0 < image.width := Nat.pos_of_ne_zero fun h => hempty (by rw [h, Nat.zero_mul])
    have hH : 0 < image.height := Nat.pos_of_ne_zero fun h => hempty (by rw [h, Nat.mul_zero])
    obtain ⟨hxs, hys, hwidth, hheight⟩ := opened_picture hW hH hx hy p
    obtain ⟨hinside, houtside⟩ :=
      takeAll_drawing dat p (hW.trans_eq hwidth.symm) (hH.trans_eq hheight.symm) (wordsOf out) x y
    rw [Image.over]
    split
    · next hin =>
      obtain ⟨hleft, hright, htop, hbottom⟩ := hin
      have hcell := hinside ⟨hxs ▸ hleft, by rw [hxs, hwidth]; exact hright, hys ▸ htop,
        by rw [hys, hheight]; exact hbottom⟩
      have hcol : x - wx.toNat < image.width := by omega
      have hrow : y - wy.toNat < image.height := by omega
      obtain ⟨hlt, -, -⟩ := pixel_index hcol hrow
      rw [hcell, Panel.filled, hxs, hys, hwidth, hheight, drawn_bits hout hlt,
        drawnBit_whole hwhole hlt, pixelBit_at hcol hrow, color_bit]
    · next hno =>
      refine houtside fun hin => hno ?_
      rw [← hxs, ← hys, ← hwidth, ← hheight]
      exact ⟨hin.left, hin.right, hin.top, hin.bottom⟩

/-- The pins carry it to the panel. -/
theorem drawOnBoard_over (hstored : image.Stored flash data) (hwhole : 8 ∣ image.width)
    (hfit : image.width * image.height ≤ 2 ^ 31 - 8) {wx wy : Word}
    (hx : wx.toNat + image.width ≤ 2 ^ 16) (hy : wy.toNat + image.height ≤ 2 ^ 16)
    (temp : Nat → Half) (h : Wired dat β) :
    ∃ fuel τ, drawOnBoard (IliHS.next flash) fuel (BitVec.ofNat 32 image.width)
        (BitVec.ofNat 32 image.height) wx wy (IliHS.init data) temp β = some τ ∧
      Wired false τ ∧ β.Moves τ ∧ ∃ bs, τ.latched = β.latched ++ bs.map some ∧
        ∀ p : Panel, (p.takeAll bs).mem = image.over wx.toNat wy.toNat p.mem := by
  obtain ⟨fuel, calls, out, hdraw, hout, hops⟩ := drawHSBitmap_ops hstored hfit wx wy temp
  obtain ⟨hwired, hmoves, hlatched⟩ := h.run (calls.flatMap LcdCall.ops)
  have hline : Bus.line dat (calls.flatMap LcdCall.ops) = false := by
    rw [hops, Bus.line_append]
    rfl
  refine ⟨fuel, _, by rw [drawOnBoard, hdraw]; rfl, hline ▸ hwired, hmoves, _, hlatched, ?_⟩
  intro p
  have hend : ∀ dat, Bus.bytes dat [(BusOp.cmd : BusOp Byte)] = [] := fun _ => rfl
  rw [hops, Bus.bytes_append, hend, List.append_nil]
  exact drawing_over hwhole hout hx hy dat p

theorem drawOnBoard_unique {S : Type} {next : S → Option (Byte × S)} {fuel fuel' : Nat}
    {widthInPixel height wx wy : Word} {hs : S} {temp : Nat → Half} {υ : Board}
    (h : drawOnBoard next fuel widthInPixel height wx wy hs temp β = some τ)
    (h' : drawOnBoard next fuel' widthInPixel height wx wy hs temp β = some υ) : τ = υ := by
  obtain ⟨calls, hcalls, rfl⟩ := Option.map_eq_some_iff.mp h
  obtain ⟨calls', hcalls', rfl⟩ := Option.map_eq_some_iff.mp h'
  rw [drawHSBitmap_unique hcalls hcalls']

/-- A picture of whole bytes, with fewer pixels than overflow the product of width
and height, comes out in its place, and the rest of the panel stays as it was. -/
theorem drawn_in_place (image : Image) (flash : Mem) (data : Nat)
    (hstored : image.Stored flash data) (hwhole : 8 ∣ image.width)
    (hfit : image.width * image.height ≤ 2 ^ 31 - 8) (wx wy : Word)
    (hx : wx.toNat + image.width ≤ 2 ^ 16) (hy : wy.toNat + image.height ≤ 2 ^ 16)
    (temp : Nat → Half) (dat : Bool) (β : Board) (h : Wired dat β) :
    ∃ fuel τ, drawOnBoard (IliHS.next flash) fuel (BitVec.ofNat 32 image.width)
        (BitVec.ofNat 32 image.height) wx wy (IliHS.init data) temp β = some τ ∧
      Wired false τ ∧ β.Moves τ ∧ ∃ bs, τ.latched = β.latched ++ bs.map some ∧
        ∀ p : Panel, (p.takeAll bs).mem = image.over wx.toNat wy.toNat p.mem :=
  drawOnBoard_over hstored hwhole hfit hx hy temp h

/-- Bars, a column wide. -/
def bars (width height : Nat) : Image :=
  ⟨width, height, fun x _ => .grey (if x % 2 = 0 then 0xff else 0)⟩

/-- A board on which the display listens. -/
def listening : Board where
  port i := ⟨0x33333333, 0x33333333, if i = 2 then 0x8000 else 0⟩
  latched := []
  reads := 0

theorem drawn_in_place_bars :
    ∃ fuel τ, drawOnBoard (IliHS.next (Mem.write (fun _ => 0xff) 5
          (Lzss.encode 8 4 [.literal 0xaa, .back 1 1]))) fuel 8 2 3 4 (IliHS.init 5) (fun _ => 0)
        listening = some τ ∧
      Wired false τ ∧ listening.Moves τ ∧ ∃ bs, τ.latched = [] ++ bs.map some ∧
        ∀ p : Panel, (p.takeAll bs).mem = (bars 8 2).over 3 4 p.mem :=
  drawn_in_place (bars 8 2)
    (Mem.write (fun _ => 0xff) 5 (Lzss.encode 8 4 [.literal 0xaa, .back 1 1])) 5
    (stored_encode [.literal 0xaa, .back 1 1] (by decide) (by simp [Lzss.Tok.Fits])
      (Mem.read_write _ _ _)) (by decide) (by decide) 3 4 (by decide) (by decide) (fun _ => 0) false
    listening ⟨by decide, by decide, by decide, by decide⟩

end LnDso
