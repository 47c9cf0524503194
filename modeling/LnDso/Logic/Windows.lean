import LnDso.Hw.Panel
import LnDso.Logic.Painting
import LnDso.Machine.Ili

/-!
# The window of the panel

While a window is written, the panel is a display of its pixels and nothing
outside of it changes. What goes to the window does not depend on what the panel
did before.
-/

namespace LnDso

open Lib

variable {p q : Panel} {σ : Display} {size : Nat} {ws : List Half}

namespace Panel

/-- A pixel of the window. -/
structure InWindow (p : Panel) (x y : Nat) : Prop where
  left : p.xs.toNat ≤ x
  right : x < p.xs.toNat + p.width
  top : p.ys.toNat ≤ y
  bottom : y < p.ys.toNat + p.height

/-- Pixel `c` of the window, row by row. -/
def pixel (p : Panel) (c : Nat) : Half :=
  p.mem (p.xs.toNat + c % p.width) (p.ys.toNat + c / p.width)

/-- What `mem` is after words `ws` in the window. -/
def filled (p : Panel) (ws : List Half) (x y : Nat) : Half :=
  Ring.fill (p.width * p.height) ws p.pixel
    (x - p.xs.toNat + p.width * (y - p.ys.toNat))

/-- From `q` on, data have come to the window, and `σ` has had the same. -/
structure Views (q p : Panel) (σ : Display) : Prop where
  dc : σ.dc = true
  command : p.command = Display.ramwr
  same : σ.command = p.command
  high : σ.high = p.high
  count : σ.count = p.count
  xs : p.xs = q.xs
  width : p.width = q.width
  ys : p.ys = q.ys
  height : p.height = q.height
  pixels : ∀ c < q.width * q.height, σ.pixels c = p.pixel c
  outside : ∀ x y, ¬ q.InWindow x y → p.mem x y = q.mem x y

/-- Column and row of a word are those of the cell of the ring. -/
theorem cell_iff {W H c n : Nat} :
    c % W = n % W ∧ c / W = n / W % H ↔ c = n % (W * H) := by
  rw [Nat.mod_mul]
  constructor
  · rintro ⟨hmod, hdiv⟩
    rw [← hmod, ← hdiv]
    exact (Nat.mod_add_div c W).symm
  · intro hc
    by_cases hW : W = 0
    · subst hW
      simpa using hc
    · have hlt := Nat.mod_lt n (Nat.pos_of_ne_zero hW)
      rw [hc, Nat.add_mul_mod_self_left, Nat.mod_eq_of_lt hlt,
        Nat.add_mul_div_left _ _ (Nat.pos_of_ne_zero hW), Nat.div_eq_of_lt hlt, Nat.zero_add]
      exact ⟨rfl, rfl⟩

/-- A byte of data. -/
theorem Views.take (h : Views q p σ) (hW : 0 < q.width) (hH : 0 < q.height) (b : Byte) :
    Views q (p.take (true, b)) (σ.write8 (q.width * q.height) b) := by
  have hσ : σ.command = Display.ramwr := h.same.trans h.command
  cases hhigh : p.high with
  | none =>
      have hpanel : p.take (true, b) = { p with high := some b } := by
        simp [Panel.take, h.command, hhigh]
      have hdisplay : σ.write8 (q.width * q.height) b = { σ with high := some b } := by
        simp [Display.write8, h.dc, hσ, h.high, hhigh]
      rw [hpanel, hdisplay]
      exact ⟨h.dc, h.command, h.same, rfl, h.count, h.xs, h.width, h.ys, h.height, h.pixels,
        h.outside⟩
  | some a =>
      have hpanel : p.take (true, b) = { p with
          high := none
          count := p.count + 1
          mem := put (p.xs.toNat + p.count % p.width)
            (p.ys.toNat + p.count / p.width % p.height) (Half.ofBytes b a) p.mem } := by
        simp [Panel.take, h.command, hhigh]
      have hdisplay : σ.write8 (q.width * q.height) b = { σ with
          high := none
          count := σ.count + 1
          pixels := Function.update σ.pixels (σ.count % (q.width * q.height))
            (Half.ofBytes b a) } := by
        simp [Display.write8, h.dc, hσ, h.high, hhigh]
      rw [hpanel, hdisplay]
      refine ⟨h.dc, h.command, h.same, rfl, congrArg (· + 1) h.count, h.xs, h.width, h.ys,
        h.height, fun c hc => ?_, fun x y hout => ?_⟩
      · -- the cell that is written is the one the counter names, row by row
        have hcell := cell_iff (W := p.width) (H := p.height) (c := c) (n := p.count)
        have hpixel := h.pixels c hc
        simp only [Panel.pixel, put, Nat.add_left_cancel_iff] at hpixel ⊢
        rw [h.count, ← h.width, ← h.height]
        by_cases heq : c = p.count % (p.width * p.height)
        · rw [← heq, Function.update_self]
          exact (if_pos (hcell.mpr heq)).symm
        · rw [Function.update_of_ne heq, hpixel]
          exact (if_neg fun hboth => heq (hcell.mp hboth)).symm
      · -- row and column are taken modulo the window, so nothing outside it is hit
        have hcol := Nat.mod_lt p.count hW
        have hrow := Nat.mod_lt (p.count / p.width) hH
        rw [← h.width] at hcol
        rw [← h.height] at hrow
        refine (if_neg ?_).trans (h.outside x y hout)
        rintro ⟨hx, hy⟩
        rw [h.xs] at hx
        rw [h.ys] at hy
        rw [h.width] at hcol hx
        rw [h.height] at hrow hy
        exact hout ⟨by omega, by omega, by omega, by omega⟩

/-- Words. -/
theorem Views.sendWords (h : Views q p σ) (hW : 0 < q.width) (hH : 0 < q.height)
    (ws : List Half) : Views q (p.takeAll (Bus.bytes true (iliSendWords ws)))
      (LcdCall.iliSendWords (q.width * q.height) ws σ) := by
  induction ws generalizing p σ with
  | nil => exact h
  | cons w ws ih => exact ih ((h.take hW hH w.hi).take hW hH w.lo)

/-- The panel when words can come. -/
theorem Views.start (hcommand : q.command = Display.ramwr) (hhigh : q.high = none)
    (hcount : q.count = 0) :
    Views q q { dc := true, command := Display.ramwr, high := none, count := 0, pixels := q.pixel } :=
  ⟨rfl, hcommand, hcommand.symm, hhigh.symm, hcount.symm, rfl, rfl, rfl, rfl, fun _ _ => rfl,
    fun _ _ _ => rfl⟩

/-- The memory after words from the start of the window on. -/
theorem takeAll_words (hcommand : q.command = Display.ramwr) (hhigh : q.high = none)
    (hcount : q.count = 0) (hW : 0 < q.width) (hH : 0 < q.height) (ws : List Half) (x y : Nat) :
    (q.InWindow x y → (q.takeAll (Bus.bytes true (iliSendWords ws))).mem x y = q.filled ws x y) ∧
      (¬ q.InWindow x y →
        (q.takeAll (Bus.bytes true (iliSendWords ws))).mem x y = q.mem x y) := by
  have h := (Views.start hcommand hhigh hcount).sendWords hW hH ws
  have hpainted : LcdCall.Painted (q.width * q.height) q.pixel []
      { dc := true, command := Display.ramwr, high := none, count := 0, pixels := q.pixel } :=
    ⟨rfl, rfl, rfl, rfl, rfl⟩
  refine ⟨fun hin => ?_, h.outside x y⟩
  have hx : x - q.xs.toNat < q.width := by
    have := hin.left
    have := hin.right
    omega
  have hy : y - q.ys.toNat < q.height := by
    have := hin.top
    have := hin.bottom
    omega
  have hlt : x - q.xs.toNat + q.width * (y - q.ys.toNat) < q.width * q.height := by
    have hmul := Nat.mul_le_mul_left q.width (Nat.succ_le_of_lt hy)
    rw [Nat.mul_succ] at hmul
    omega
  have hpixel := h.pixels _ hlt
  rw [(hpainted.sendWords ws).pixels, List.nil_append, Panel.pixel, h.xs, h.ys, h.width,
    Nat.add_mul_mod_self_left, Nat.mod_eq_of_lt hx, Nat.add_mul_div_left _ _ hW,
    Nat.div_eq_of_lt hx, Nat.zero_add, Nat.add_sub_cancel' hin.left,
    Nat.add_sub_cancel' hin.top] at hpixel
  exact hpixel.symm

/-! ## Setting the window -/

/-- The panel after `ili_set_address_window`. -/
def opened (x1 y1 x2 y2 : Half) (p : Panel) : Panel :=
  { p with
    command := Display.ramwr
    params := []
    xs := x1
    xe := x2
    ys := y1
    ye := y2
    high := none
    count := 0 }

theorem takeAll_window (dat : Bool) (x1 y1 x2 y2 : Half) (p : Panel) :
    p.takeAll (Bus.bytes dat (iliSetAddressWindow x1 y1 x2 y2)) = p.opened x1 y1 x2 y2 := by
  have hcaset : Display.caset ≠ Display.ramwr := by decide
  have hpaset : Display.paset ≠ Display.ramwr := by decide
  have hother : Display.paset ≠ Display.caset := by decide
  simp [iliSetAddressWindow, writeCmdParam, Bus.bytes, takeAll, Panel.take, setWindow, hcaset,
    hpaset, hother, opened]

end Panel

/-! ## Drawing -/

/-- A window, and words into it. -/
def drawing (x1 y1 x2 y2 : Half) (ws : List Half) : List (BusOp Byte) :=
  iliSetAddressWindow x1 y1 x2 y2 ++ .dat :: iliSendWords ws

theorem line_window (dat : Bool) (x1 y1 x2 y2 : Half) :
    Bus.line dat (iliSetAddressWindow x1 y1 x2 y2) = false := rfl

/-- The memory after a drawing. -/
theorem takeAll_drawing (dat : Bool) {x1 y1 x2 y2 : Half} (p : Panel)
    (hW : 0 < (p.opened x1 y1 x2 y2).width) (hH : 0 < (p.opened x1 y1 x2 y2).height)
    (ws : List Half) (x y : Nat) :
    ((p.opened x1 y1 x2 y2).InWindow x y →
      (p.takeAll (Bus.bytes dat (drawing x1 y1 x2 y2 ws))).mem x y =
        (p.opened x1 y1 x2 y2).filled ws x y) ∧
    (¬ (p.opened x1 y1 x2 y2).InWindow x y →
      (p.takeAll (Bus.bytes dat (drawing x1 y1 x2 y2 ws))).mem x y = p.mem x y) := by
  rw [drawing, Bus.bytes_append, Panel.takeAll_append, Panel.takeAll_window, line_window]
  exact Panel.takeAll_words rfl rfl rfl hW hH ws x y

theorem iliSendWords_append (ws ws' : List Half) :
    iliSendWords (ws ++ ws') = iliSendWords ws ++ iliSendWords ws' := List.flatMap_append

/-- Filling sends one word again and again. -/
theorem fillLoop_eq (color : Half) (n : Nat) :
    fillLoop color n = iliSendWords (List.replicate n color) := by
  induction n with
  | zero => rfl
  | succ n ih =>
      rw [fillLoop, ih, List.replicate_succ]
      rfl

theorem iliFillScreen_eq (color : Half) (d : Ili) : iliFillScreen color d =
    drawing 0 0 (d.tftwidth - 1) (d.tftheight - 1)
      (List.replicate (d.tftwidth.setWidth 32 * d.tftheight.setWidth 32).toNat color) := by
  rw [iliFillScreen, iliFillColor, fillLoop_eq]
  rfl

/-- Reading moves no pin. -/
theorem batchCalls_ops (bs : List Byte) :
    (batchCalls bs).flatMap LcdCall.ops = iliSendWords (wordsOf bs) := by
  have hnexts : (bs.map LcdCall.next).flatMap LcdCall.ops = [] := by
    induction bs with
    | nil => rfl
    | cons cur bs ih => exact ih
  rw [batchCalls, List.flatMap_append, hnexts, List.nil_append, List.flatMap_singleton]
  rfl

theorem batches_ops (batches : List (List Byte)) :
    (batches.flatMap batchCalls).flatMap LcdCall.ops = iliSendWords (wordsOf batches.flatten) := by
  induction batches with
  | nil => rfl
  | cons bs batches ih =>
      rw [List.flatMap_cons, List.flatMap_append, batchCalls_ops, ih, List.flatten_cons,
        wordsOf_append, iliSendWords_append]

end LnDso
