import LnDso.Lib.Ring
import LnDso.Logic.Batches

/-!
# What the display shows

The calls that draw a bitmap fill the window with the words of all its batches,
from the first pixel on and round at the end.
-/

namespace LnDso

open Lib

namespace LcdCall

/-- A run of calls on a display of `size` pixels. -/
def runAll (size : Nat) (log : List LcdCall) (σ : Display) : Display := log.foldl (run size) σ

variable {size : Nat} {σ : Display} {ws : List Half} {pixels : Nat → Half} {bs : List Byte}

theorem runAll_append (size : Nat) (log log' : List LcdCall) (σ : Display) :
    runAll size (log ++ log') σ = runAll size log' (runAll size log σ) := List.foldl_append

/-- The words `ws` have come after the command. -/
structure Painted (size : Nat) (pixels : Nat → Half) (ws : List Half) (σ : Display) : Prop where
  dc : σ.dc = true
  command : σ.command = Display.ramwr
  high : σ.high = none
  count : σ.count = ws.length
  pixels : σ.pixels = Ring.fill size ws pixels

theorem Painted.word (h : Painted size pixels ws σ) (w : Half) :
    Painted size pixels (ws ++ [w]) ((σ.write8 size w.hi).write8 size w.lo) := by
  have hhigh : σ.write8 size w.hi = { σ with high := some w.hi } := by
    rw [Display.write8, if_pos h.dc, if_pos h.command, h.high]
  have hlow : Display.write8 size w.lo { σ with high := some w.hi } = { σ with
      high := none
      count := σ.count + 1
      pixels := Function.update σ.pixels (σ.count % size) w } := by
    rw [Display.write8, if_pos h.dc, if_pos h.command]
    simp only [Half.ofBytes_lo_hi]
  rw [hhigh, hlow]
  refine ⟨h.dc, h.command, rfl, ?_, ?_⟩
  · rw [List.length_append, List.length_singleton, ← h.count]
  · rw [Ring.fill_concat, ← h.count, ← h.pixels]

theorem Painted.sendWords (h : Painted size pixels ws σ) (data : List Half) :
    Painted size pixels (ws ++ data) (iliSendWords size data σ) := by
  induction data generalizing ws σ with
  | nil =>
      rw [List.append_nil]
      exact h
  | cons w data ih =>
      have hrest := ih (h.word w)
      rw [List.append_assoc] at hrest
      exact hrest

theorem Painted.batch (h : Painted size pixels ws σ) (bs : List Byte) :
    Painted size pixels (ws ++ wordsOf bs) (runAll size (batchCalls bs) σ) := by
  have hnexts : runAll size (bs.map next) σ = σ := by
    induction bs with
    | nil => rfl
    | cons cur bs ih => exact ih
  rw [batchCalls, runAll_append, hnexts]
  exact h.sendWords (wordsOf bs)

theorem Painted.batches (h : Painted size pixels ws σ) (batches : List (List Byte)) :
    Painted size pixels (ws ++ wordsOf batches.flatten)
      (runAll size (batches.flatMap batchCalls) σ) := by
  induction batches generalizing ws σ with
  | nil =>
      rw [List.flatten_nil, wordsOf, Bits.stream_nil, List.map_nil, List.append_nil]
      exact h
  | cons bs batches ih =>
      have hrest := ih (h.batch bs)
      rw [List.flatMap_cons, runAll_append, List.flatten_cons, wordsOf_append, ← List.append_assoc]
      exact hrest

theorem write8_command (cmd : Byte) (σ : Display) : σ.dcCmd.write8 size cmd =
    { σ with dc := false, command := cmd, high := none, count := 0 } := rfl

/-- A command but `ILI_RAMWR` leaves the pixels alone, and so do its bytes. -/
theorem writeCmdParam_pixels {cmd : Byte} (hcmd : cmd ≠ Display.ramwr) (data : List Byte)
    (σ : Display) : (writeCmdParam size cmd data σ).pixels = σ.pixels := by
  have hdata : ∀ τ : Display, τ.dc = true → τ.command = cmd →
      (data.foldl (fun τ b => τ.write8 size b) τ).pixels = τ.pixels := by
    induction data with
    | nil =>
        intro τ _ _
        rfl
    | cons b data ih =>
        intro τ hdc hcommand
        have hsame : τ.write8 size b = τ := by
          rw [Display.write8, if_pos hdc, if_neg (by rw [hcommand]; exact hcmd)]
        rw [List.foldl_cons, hsame]
        exact ih τ hdc hcommand
  rw [writeCmdParam, write8_command]
  exact hdata _ rfl rfl

theorem iliSetAddressWindow_eq (x1 y1 x2 y2 : Half) (σ : Display) :
    iliSetAddressWindow size x1 y1 x2 y2 σ =
      { σ with dc := false, command := Display.ramwr, high := none, count := 0 } := by
  have hcaset : Display.caset ≠ Display.ramwr := by decide
  have hpaset : Display.paset ≠ Display.ramwr := by decide
  rw [iliSetAddressWindow, write8_command, writeCmdParam_pixels hpaset,
    writeCmdParam_pixels hcaset]

/-- The window is set and the data line up: nothing has come yet. -/
theorem painted_window (x1 y1 x2 y2 : Half) (σ : Display) :
    Painted size σ.pixels [] (runAll size [setAddressWindow x1 y1 x2 y2, dataBegin] σ) := by
  have hrun : runAll size [setAddressWindow x1 y1 x2 y2, dataBegin] σ =
      (iliSetAddressWindow size x1 y1 x2 y2 σ).dcDat := rfl
  rw [hrun, iliSetAddressWindow_eq]
  exact ⟨rfl, rfl, rfl, rfl, rfl⟩

/-- The pixels after a whole bitmap. -/
theorem runAll_bitmap (x1 y1 x2 y2 : Half) (batches : List (List Byte)) (σ : Display) :
    (runAll size ([setAddressWindow x1 y1 x2 y2, dataBegin] ++ batches.flatMap batchCalls ++
      [dataEnd]) σ).pixels = Ring.fill size (wordsOf batches.flatten) σ.pixels := by
  rw [runAll_append, runAll_append]
  exact ((painted_window x1 y1 x2 y2 σ).batches batches).pixels

end LcdCall

/-! ## The last word of a pixel -/

variable {N L c : Nat} {ws : List Half} {pixels : Nat → Half}

/-- The last of the words up to `L` that goes to cell `c`. -/
def lastWord (N L c : Nat) : Nat := c + N * ((L - 1 - c) / N)

theorem lastWord_lt (hc : c < L) : lastWord N L c < L := by
  have hmul := Nat.mul_div_le (L - 1 - c) N
  rw [lastWord]
  omega

/-- A cell shows the last word that went to it. -/
theorem fill_lastWord (hN : c < N) (hc : c < ws.length) :
    Ring.fill N ws pixels c = ws[lastWord N ws.length c]?.getD 0 := by
  have hlt := lastWord_lt (N := N) hc
  rw [List.getElem?_eq_getElem hlt, Option.getD_some]
  refine Ring.fill_last hlt ?_ ?_
  · rw [lastWord, Nat.add_mul_mod_self_left, Nat.mod_eq_of_lt hN]
  · intro j hj hlen hmod
    have hdiv := Nat.div_add_mod j N
    rw [hmod] at hdiv
    have hquot : (ws.length - 1 - c) / N < j / N := by
      apply Nat.lt_of_not_le
      intro hle
      have hmul := Nat.mul_le_mul_left N hle
      rw [lastWord] at hj
      omega
    have hgrow := Nat.mul_le_mul_left N (Nat.succ_le_of_lt hquot)
    have hmax := Nat.lt_mul_div_succ (ws.length - 1 - c) (Nat.zero_lt_of_lt hN)
    rw [Nat.succ_eq_add_one] at hgrow
    omega

end LnDso
