import LnDso.Logic.Batches

/-!
# Drawing in batches

`drawHSBitmap` reads the bytes of the bitmap once each and sends the words of
all of them, batch by batch, unless its pixel count overflows.
-/

namespace LnDso

open Lib

variable {S : Type} {next : S → Option (Byte × S)} {st : Nat → S} {b : Nat → Byte}
  {batches : List (List Byte)}

/-- The bytes read in a run of calls. -/
def bytesRead (log : List LcdCall) : List Byte :=
  log.filterMap fun
    | .next cur => some cur
    | _ => none

/-- The arrays sent in a run of calls. -/
def arraysSent (log : List LcdCall) : List (List Half) :=
  log.filterMap fun
    | .sendWords data => some data
    | _ => none

theorem bytesRead_append (log log' : List LcdCall) :
    bytesRead (log ++ log') = bytesRead log ++ bytesRead log' := List.filterMap_append

theorem arraysSent_append (log log' : List LcdCall) :
    arraysSent (log ++ log') = arraysSent log ++ arraysSent log' := List.filterMap_append

theorem bytesRead_batch (bs : List Byte) : bytesRead (batchCalls bs) = bs := by
  rw [batchCalls, bytesRead_append]
  have hall : bytesRead (bs.map .next) = bs := by
    induction bs with
    | nil => rfl
    | cons cur bs ih => exact congrArg (cur :: ·) ih
  rw [hall]
  exact List.append_nil bs

theorem arraysSent_batch (bs : List Byte) : arraysSent (batchCalls bs) = [wordsOf bs] := by
  rw [batchCalls, arraysSent_append]
  have hnone : arraysSent (bs.map .next) = [] := by
    induction bs with
    | nil => rfl
    | cons cur bs ih => exact ih
  rw [hnone]
  rfl

theorem bytesRead_batches (batches : List (List Byte)) :
    bytesRead (batches.flatMap batchCalls) = batches.flatten := by
  induction batches with
  | nil => rfl
  | cons bs batches ih =>
      rw [List.flatMap_cons, bytesRead_append, bytesRead_batch, ih, List.flatten_cons]

theorem arraysSent_batches (batches : List (List Byte)) :
    arraysSent (batches.flatMap batchCalls) = batches.map wordsOf := by
  induction batches with
  | nil => rfl
  | cons bs batches ih =>
      rw [List.flatMap_cons, arraysSent_append, arraysSent_batch, ih]
      rfl

theorem flatten_wordsOf (batches : List (List Byte)) :
    (batches.map wordsOf).flatten = wordsOf batches.flatten := by
  induction batches with
  | nil => rfl
  | cons bs batches ih =>
      rw [List.map_cons, List.flatten_cons, ih, List.flatten_cons, wordsOf_append]

/-- The calls before the loop. -/
def windowCalls (widthInPixel height wx wy : Word) : List LcdCall :=
  [.setAddressWindow (wx.setWidth 16) (wy.setWidth 16)
    ((widthInPixel + wx - 1).setWidth 16) ((height + wy - 1).setWidth 16), .dataBegin]

/-- The calls of a whole bitmap, batch by batch. -/
theorem drawHSBitmap_batches (hnext : ∀ i, next (st i) = some (b i, st (i + 1)))
    {widthInPixel height : Word} (wx wy : Word) (temp : Nat → Half) {N : Nat}
    (hN : (widthInPixel * height).toInt.toNat = N) (hfit : N ≤ 2 ^ 31 - 8) :
    ∃ fuel, ∃ batches : List (List Byte),
      drawHSBitmap next fuel widthInPixel height wx wy (st 0) temp =
        some (windowCalls widthInPixel height wx wy ++ batches.flatMap batchCalls ++ [.dataEnd]) ∧
      batches.flatten = (List.range ((N + 7) / 8)).map b ∧ ∀ bs ∈ batches, bs.length ≤ 15 := by
  have hstart : Draw.Batching st b (windowCalls widthInPixel height wx wy) 0
      { hs := st 0, pixel := 0, temp := temp, o := 0, ready := 0,
        log := windowCalls widthInPixel height wx wy } [] [] :=
    ⟨rfl, rfl, by simp, rfl, by simp, by simp, rfl, rfl, rfl⟩
  obtain ⟨d, batches, rest, hloop, h⟩ :=
    Draw.drawLoop_batching hnext hN hfit hstart (Nat.zero_add ((N + 7) / 8))
  refine ⟨(N + 7) / 8 + 1, if rest = [] then batches else batches ++ [rest], ?_, ?_, ?_⟩
  · have hdraw : drawHSBitmap next ((N + 7) / 8 + 1) widthInPixel height wx wy (st 0) temp =
        some ((if d.ready ≠ 0 then d.send else d).log ++ [.dataEnd]) := by
      rw [drawHSBitmap]
      exact congrArg (Option.map _) hloop
    rw [hdraw]
    by_cases hrest : rest = []
    · have hready : d.ready = 0 := by
        rw [h.ready, hrest]
        rfl
      rw [if_neg (not_not.mpr hready), if_pos hrest, h.log, hrest, List.map_nil, List.append_nil]
    · have hready : d.ready ≠ 0 := by
        have hlen := List.length_pos_iff.mpr hrest
        rw [h.ready]
        omega
      have hsent : (List.range d.ready).map d.temp = wordsOf rest := by
        rw [← h.o]
        exact h.filled
      rw [if_pos hready, if_neg hrest]
      simp [Draw.send, hsent, h.log, batchCalls]
  · rw [← h.bytes]
    split
    · rename_i hnil
      rw [hnil, List.append_nil]
    · rw [List.flatten_append, List.flatten_singleton]
  · intro bs hbs
    have hshort := h.short
    split at hbs
    · exact Nat.le_of_eq (h.batch bs hbs)
    · rcases List.mem_append.mp hbs with hold | hnew
      · exact Nat.le_of_eq (h.batch bs hold)
      · rw [List.mem_singleton.mp hnew]
        omega

/-- The calls do not depend on the fuel. -/
theorem drawHSBitmap_unique {fuel fuel' : Nat} {widthInPixel height wx wy : Word} {hs : S}
    {temp : Nat → Half} {log log' : List LcdCall}
    (h : drawHSBitmap next fuel widthInPixel height wx wy hs temp = some log)
    (h' : drawHSBitmap next fuel' widthInPixel height wx wy hs temp = some log') : log = log' := by
  obtain ⟨d, hloop, rfl⟩ := Option.map_eq_some_iff.mp h
  obtain ⟨d', hloop', rfl⟩ := Option.map_eq_some_iff.mp h'
  rw [Draw.drawLoop_unique hloop hloop']

theorem drawHSBitmap_endless {widthInPixel height : Word} (wx wy : Word) (hs : S)
    (temp : Nat → Half) (hN : 2 ^ 31 - 8 < (widthInPixel * height).toInt) (fuel : Nat) :
    drawHSBitmap next fuel widthInPixel height wx wy hs temp = none := by
  rw [drawHSBitmap, Draw.drawLoop_endless hN rfl]
  rfl

/-! ## Exactly -/

/-- The calls of a bitmap of `k` bytes: each is read once, all their words are
sent, an array has no more than the buffer, and is sent as soon as its bytes are
read. -/
structure DrawsAll (b : Nat → Byte) (k : Nat) (log : List LcdCall) : Prop where
  read : bytesRead log = (List.range k).map b
  sent : (arraysSent log).flatten = wordsOf ((List.range k).map b)
  size : ∀ data ∈ arraysSent log, data.length ≤ st7735BufferSizeWord
  fresh : ∃ start, ∃ batches : List (List Byte),
    log = start ++ batches.flatMap batchCalls ++ [.dataEnd] ∧
      bytesRead start = [] ∧ arraysSent start = []

/-- The product in `int`. -/
theorem nbPixel_toInt {widthInPixel height : Word} {N : Nat}
    (hN : widthInPixel.toInt * height.toInt = N) (hfit : N < 2 ^ 31) :
    (widthInPixel * height).toInt = N := by
  rw [BitVec.toInt_mul, hN, Int.bmod_def]
  split <;> omega

/-- A product that fits an `int` is drawn exactly when `pixel` can pass it. -/
theorem drawHSBitmap_exact (next : S → Option (Byte × S)) (st : Nat → S) (b : Nat → Byte)
    (hnext : ∀ i, next (st i) = some (b i, st (i + 1))) (widthInPixel height wx wy : Word)
    (temp : Nat → Half) (N : Nat) (hN : widthInPixel.toInt * height.toInt = N)
    (hfit : N < 2 ^ 31) :
    (∃ fuel log, drawHSBitmap next fuel widthInPixel height wx wy (st 0) temp = some log ∧
      DrawsAll b ((N + 7) / 8) log) ↔ N ≤ 2 ^ 31 - 8 := by
  have hprod := nbPixel_toInt hN hfit
  constructor
  · rintro ⟨fuel, log, hdraw, -⟩
    apply Nat.le_of_not_lt
    intro hlt
    rw [drawHSBitmap_endless wx wy (st 0) temp (by omega) fuel] at hdraw
    cases hdraw
  · intro hle
    obtain ⟨fuel, batches, hdraw, hbytes, hsize⟩ :=
      drawHSBitmap_batches (N := N) hnext wx wy temp (by rw [hprod, Int.toNat_natCast]) hle
    refine ⟨fuel, _, hdraw, ?_, ?_, ?_, _, batches, rfl, rfl, rfl⟩
    · rw [bytesRead_append, bytesRead_append, bytesRead_batches, hbytes]
      exact List.append_nil _
    · rw [arraysSent_append, arraysSent_append, arraysSent_batches, ← hbytes, ← flatten_wordsOf]
      exact congrArg List.flatten (List.append_nil _)
    · intro data hdata
      rw [arraysSent_append, arraysSent_append, arraysSent_batches] at hdata
      have hmem : data ∈ batches.map wordsOf := by
        have hend : arraysSent [LcdCall.dataEnd] = [] := rfl
        have hwindow : arraysSent (windowCalls widthInPixel height wx wy) = [] := rfl
        rwa [hend, hwindow, List.append_nil, List.nil_append] at hdata
      obtain ⟨bs, hbs, rfl⟩ := List.mem_map.mp hmem
      have hlen := hsize bs hbs
      rw [length_wordsOf, st7735BufferSizeWord]
      omega

/-- A reader that hands out one byte for ever. -/
def oneByte (i : Nat) : Option (Byte × Nat) := some (0xa5, i + 1)

theorem drawHSBitmap_exact_oneByte :
    ∃ fuel log, drawHSBitmap oneByte fuel 8 1 0 0 0 (fun _ => 0) = some log ∧
      DrawsAll (fun _ => 0xa5) 1 log := by
  have hdrawn := drawHSBitmap_exact oneByte id (fun _ => 0xa5) (fun _ => rfl) 8 1 0 0 (fun _ => 0) 8
    rfl (by decide)
  exact hdrawn.mpr (by decide)

/-- A bitmap of 2147483647 pixels. -/
theorem drawHSBitmap_overflows :
    ¬ ∃ fuel log, drawHSBitmap oneByte fuel 0x7fffffff 1 0 0 0 (fun _ => 0) = some log ∧
      DrawsAll (fun _ => 0xa5) ((0x7fffffff + 7) / 8) log := by
  rintro ⟨fuel, log, hdraw, -⟩
  rw [drawHSBitmap_endless 0 0 0 (fun _ => 0) (by decide) fuel] at hdraw
  cases hdraw

end LnDso
