import LnDso.Lib.Bits
import LnDso.Machine.Lcd
import Mathlib.Algebra.Group.Int.Defs

/-!
# The batches of the drawing loop

Fifteen bytes fill a batch. Between two flushes the buffer holds the words of
the bytes read since the last one, and nothing is stored past it.
-/

namespace LnDso

open Lib

variable {S : Type} {next : S → Option (Byte × S)} {st : Nat → S} {b : Nat → Byte} {d : Draw S}
  {cur mask : Byte} {j k n : Nat}

/-- The word of a bit. -/
def color (bit : Bool) : Half := if bit then 0xffff else 0

/-- The words of some bytes, most significant bits first. -/
def wordsOf (bs : List Byte) : List Half := (Bits.stream bs).map color

@[simp] theorem length_wordsOf (bs : List Byte) : (wordsOf bs).length = 8 * bs.length := by
  simp [wordsOf]

theorem wordsOf_append (bs bs' : List Byte) : wordsOf (bs ++ bs') = wordsOf bs ++ wordsOf bs' := by
  simp [wordsOf]

theorem wordsOf_singleton (cur : Byte) : wordsOf [cur] = (Bits.ofByte cur).map color := by
  simp [wordsOf]

/-- The calls for the bytes of a batch. -/
def batchCalls (bs : List Byte) : List LcdCall := bs.map .next ++ [.sendWords (wordsOf bs)]

namespace Draw

/-! ## One byte -/

/-- What a store leaves alone. -/
structure SameRest (d d' : Draw S) : Prop where
  hs : d'.hs = d.hs
  pixel : d'.pixel = d.pixel
  ready : d'.ready = d.ready
  log : d'.log = d.log

/-- The buffer up to `o`. -/
def filled (d : Draw S) : List Half := (List.range d.o).map d.temp

theorem store_fills (h : d.o < 128) (v : Half) :
    ∃ d', d.store v = some d' ∧ d'.filled = d.filled ++ [v] ∧ d'.o = d.o + 1 ∧ SameRest d d' := by
  refine ⟨_, if_pos h, ?_, rfl, rfl, rfl, rfl, rfl⟩
  simp only [filled]
  rw [List.range_succ, List.map_append, List.map_singleton, Function.update_self]
  congr 1
  apply List.map_congr_left
  intro i hi
  exact Function.update_of_ne (Nat.ne_of_lt (List.mem_range.mp hi)) ..

theorem mask_bit (hn : n < 8) (hmask : mask = BitVec.twoPow 8 n) :
    (if mask &&& cur ≠ 0 then (0xffff : Half) else 0) = color (cur.getLsbD n) := by
  have hpow : BitVec.twoPow 8 n ≠ 0#8 := by
    intro hzero
    have hnat := congrArg BitVec.toNat hzero
    rw [BitVec.toNat_twoPow_of_lt hn] at hnat
    exact absurd hnat (Nat.pos_iff_ne_zero.mp (Nat.two_pow_pos n))
  rw [hmask, BitVec.and_comm, BitVec.and_twoPow, color]
  cases cur.getLsbD n with
  | true => simp [hpow]
  | false => simp

theorem storeBits_fills (hn : n ≤ 8) (hmask : 0 < n → mask = BitVec.twoPow 8 (n - 1))
    (hroom : d.o + n ≤ 128) :
    ∃ d', storeBits cur n mask d = some d' ∧
      d'.filled = d.filled ++ ((List.range n).map fun i => color (cur.getLsbD (n - 1 - i))) ∧
      d'.o = d.o + n ∧ SameRest d d' := by
  induction n generalizing d mask with
  | zero => exact ⟨d, rfl, (List.append_nil _).symm, rfl, rfl, rfl, rfl, rfl⟩
  | succ n ih =>
      have hm := hmask (Nat.succ_pos n)
      have hnext : 0 < n → mask >>> 1 = BitVec.twoPow 8 (n - 1) := by
        intro hpos
        obtain ⟨n, rfl⟩ : ∃ m, n = m + 1 := ⟨n - 1, by omega⟩
        apply BitVec.eq_of_toNat_eq
        rw [hm, BitVec.toNat_ushiftRight, BitVec.toNat_twoPow_of_lt (by omega),
          BitVec.toNat_twoPow_of_lt (by omega), Nat.shiftRight_eq_div_pow, Nat.pow_one]
        exact Nat.div_eq_of_eq_mul_left Nat.two_pos (Nat.pow_succ ..)
      obtain ⟨d1, hstore, hfilled1, ho1, hsame1⟩ :=
        store_fills (d := d) (by omega) (color (cur.getLsbD n))
      obtain ⟨d2, hrest, hfilled2, ho2, hsame2⟩ := ih (d := d1) (by omega) hnext (by omega)
      refine ⟨d2, ?_, ?_, by omega, hsame2.1.trans hsame1.1, hsame2.2.trans hsame1.2,
        hsame2.3.trans hsame1.3, hsame2.4.trans hsame1.4⟩
      · rw [storeBits, mask_bit (n := n) (by omega) hm, hstore, Option.bind_some, hrest]
      · rw [List.range_succ_eq_map, List.map_cons, List.map_map, hfilled2, hfilled1,
          List.append_assoc, List.singleton_append]
        refine congrArg (fun ws => d.filled ++ (color (cur.getLsbD n) :: ws)) ?_
        apply List.map_congr_left
        intro i _
        rw [Function.comp_apply, show n + 1 - 1 - (i + 1) = n - 1 - i by omega]

theorem storeBits_byte (hroom : d.o + 8 ≤ 128) :
    ∃ d', storeBits cur 8 0x80 d = some d' ∧ d'.filled = d.filled ++ wordsOf [cur] ∧
      d'.o = d.o + 8 ∧ SameRest d d' := by
  obtain ⟨d', hstore, hfilled, hrest⟩ :=
    storeBits_fills (d := d) (Nat.le_refl 8) (fun _ => rfl) hroom
  refine ⟨d', hstore, hfilled.trans ?_, hrest⟩
  rw [wordsOf_singleton, Bits.ofByte, List.map_map]
  refine congrArg (d.filled ++ ·) ?_
  apply List.map_congr_left
  intro i hi
  have hlt := List.mem_range.mp hi
  rw [Function.comp_apply, BitVec.getMsbD_eq_getLsbD, decide_eq_true hlt, Bool.true_and]

/-! ## Batches -/

/-- After `j` bytes: whole batches are sent, and `rest` is in the buffer. -/
structure Batching (st : Nat → S) (b : Nat → Byte) (start : List LcdCall) (j : Nat) (d : Draw S)
    (batches : List (List Byte)) (rest : List Byte) : Prop where
  hs : d.hs = st j
  pixel : d.pixel = BitVec.ofNat 32 (8 * j)
  log : d.log = start ++ batches.flatMap batchCalls ++ rest.map .next
  bytes : batches.flatten ++ rest = (List.range j).map b
  batch : ∀ bs ∈ batches, bs.length = 15
  short : rest.length < 15
  ready : d.ready = 8 * rest.length
  o : d.o = d.ready
  filled : d.filled = wordsOf rest

variable {start : List LcdCall} {batches : List (List Byte)} {rest : List Byte}

theorem drawByte_batching (hnext : ∀ i, next (st i) = some (b i, st (i + 1)))
    (h : Batching st b start j d batches rest) :
    ∃ d' batches' rest', drawByte next d = some d' ∧
      Batching st b start (j + 1) d' batches' rest' := by
  have hshort := h.short
  obtain ⟨d1, hstore, hfilled, ho, hsame⟩ := storeBits_byte
    (d := { d with hs := st (j + 1), log := d.log ++ [.next (b j)] })
    (by simp only [h.o, h.ready]; omega)
  have hfilled' : d1.filled = wordsOf (rest ++ [b j]) := by
    rw [wordsOf_append, ← h.filled]
    exact hfilled
  have hpixel : d1.pixel + 8 = BitVec.ofNat 32 (8 * (j + 1)) := by
    rw [hsame.pixel, h.pixel, Nat.mul_succ, BitVec.ofNat_add]
    rfl
  have hready : d1.ready + 8 = 8 * (rest ++ [b j]).length := by
    rw [hsame.ready, h.ready, List.length_append, List.length_singleton, Nat.mul_succ]
  have ho' : d1.o = d1.ready + 8 := by
    rw [ho, hsame.ready]
    simp only [h.o]
  have hlog : d1.log = start ++ batches.flatMap batchCalls ++ (rest ++ [b j]).map .next := by
    rw [hsame.log, List.map_append, List.map_singleton, ← List.append_assoc]
    simp only [h.log]
  have hbytes : batches.flatten ++ (rest ++ [b j]) = (List.range (j + 1)).map b := by
    rw [List.range_succ, List.map_append, List.map_singleton, ← h.bytes, List.append_assoc]
  have hbody : drawByte next d = some (if d1.ready + 8 > 112 then
      { ({ d1 with ready := d1.ready + 8, pixel := d1.pixel + 8 } : Draw S).send with
        ready := 0, o := 0 }
      else { d1 with ready := d1.ready + 8, pixel := d1.pixel + 8 }) := by
    rw [drawByte, h.hs, hnext, Option.bind_some]
    simp only [hstore, Option.map_some]
    rfl
  by_cases hflush : d1.ready + 8 > 112
  · rw [if_pos hflush] at hbody
    have hlen : (rest ++ [b j]).length = 15 := by
      rw [List.length_append, List.length_singleton] at hready ⊢
      omega
    refine ⟨_, batches ++ [rest ++ [b j]], [], hbody, hsame.hs, hpixel, ?_, ?_, ?_, by simp, rfl,
      rfl, rfl⟩
    · have hsent : (List.range (d1.ready + 8)).map d1.temp = wordsOf (rest ++ [b j]) := by
        rw [← ho', ← hfilled']
        rfl
      simp only [send, hsent, hlog, List.flatMap_append, List.flatMap_singleton, batchCalls,
        List.append_assoc, List.map_nil, List.append_nil]
    · rw [List.flatten_append, List.flatten_singleton, List.append_nil, ← hbytes]
    · intro bs hbs
      rcases List.mem_append.mp hbs with hold | hnew
      · exact h.batch bs hold
      · rw [List.mem_singleton.mp hnew, hlen]
  · rw [if_neg hflush] at hbody
    exact ⟨_, batches, rest ++ [b j], hbody, hsame.hs, hpixel, hlog, hbytes, h.batch, by omega,
      hready, ho', hfilled'⟩

/-! ## The loop -/

/-- The condition of the loop, while `pixel` does not overflow. -/
theorem pixel_slt {nbPixel : Word} {N : Nat} (hN : nbPixel.toInt.toNat = N) (hj : 8 * j < 2 ^ 31) :
    (BitVec.ofNat 32 (8 * j)).slt nbPixel = decide (8 * j < N) := by
  have hpixel : (BitVec.ofNat 32 (8 * j)).toInt = 8 * j := by
    rw [BitVec.toInt_eq_toNat_cond, BitVec.toNat_ofNat]
    split <;> omega
  rw [BitVec.slt, hpixel]
  exact decide_eq_decide.mpr (by omega)

/-- The loop reads the bytes that are left. -/
theorem drawLoop_batching {nbPixel : Word} {N n : Nat}
    (hnext : ∀ i, next (st i) = some (b i, st (i + 1))) (hN : nbPixel.toInt.toNat = N)
    (hfit : N ≤ 2 ^ 31 - 8) (h : Batching st b start j d batches rest)
    (hj : j + n = (N + 7) / 8) :
    ∃ d' batches' rest', drawLoop next nbPixel (n + 1) d = some d' ∧
      Batching st b start ((N + 7) / 8) d' batches' rest' := by
  have hslt := pixel_slt (j := j) hN (by omega)
  rw [← h.pixel] at hslt
  induction n generalizing j d batches rest with
  | zero =>
      rw [decide_eq_false (by omega)] at hslt
      rw [Nat.add_zero] at hj
      refine ⟨d, batches, rest, ?_, hj ▸ h⟩
      rw [drawLoop, hslt]
      rfl
  | succ n ih =>
      rw [decide_eq_true (by omega)] at hslt
      obtain ⟨d1, batches1, rest1, hbody, h1⟩ := drawByte_batching hnext h
      have hslt1 := pixel_slt (j := j + 1) hN (by omega)
      rw [← h1.pixel] at hslt1
      obtain ⟨d', batches', rest', hloop, h'⟩ := ih h1 (by omega) hslt1
      refine ⟨d', batches', rest', ?_, h'⟩
      rw [drawLoop, hslt, if_pos rfl, hbody, Option.bind_some, hloop]

/-- More fuel makes no difference. -/
theorem drawLoop_unique {nbPixel : Word} {fuel fuel' : Nat} {d1 d2 : Draw S}
    (h1 : drawLoop next nbPixel fuel d = some d1) (h2 : drawLoop next nbPixel fuel' d = some d2) :
    d1 = d2 := by
  induction fuel generalizing d fuel' with
  | zero => cases h1
  | succ fuel ih =>
      cases fuel' with
      | zero => cases h2
      | succ fuel' =>
          rw [drawLoop] at h1 h2
          by_cases hslt : d.pixel.slt nbPixel = true
          · rw [if_pos hslt] at h1 h2
            obtain ⟨d', hbody, hrest⟩ := Option.bind_eq_some_iff.mp h1
            rw [hbody, Option.bind_some] at h2
            exact ih hrest h2
          · rw [if_neg hslt] at h1 h2
            exact Option.some.inj (h1.symm.trans h2)

theorem storeBits_pixel {d' : Draw S} (h : storeBits cur n mask d = some d') :
    d'.pixel = d.pixel := by
  induction n generalizing d mask with
  | zero =>
      cases h
      rfl
  | succ n ih =>
      obtain ⟨d1, hstore, hrest⟩ := Option.bind_eq_some_iff.mp h
      rw [ih hrest]
      rw [store] at hstore
      split at hstore
      · cases hstore
        rfl
      · cases hstore

theorem drawByte_pixel {d' : Draw S} (h : drawByte next d = some d') :
    d'.pixel = d.pixel + 8 := by
  obtain ⟨r, -, hbody⟩ := Option.bind_eq_some_iff.mp h
  obtain ⟨d1, hstore, rfl⟩ := Option.map_eq_some_iff.mp hbody
  have hpixel := storeBits_pixel hstore
  simp only
  split <;> exact congrArg (· + 8) hpixel

/-- Past the last multiple of 8 that `pixel` can be, the loop does not end. -/
theorem drawLoop_endless {nbPixel : Word} (hN : 2 ^ 31 - 8 < nbPixel.toInt)
    (hpixel : d.pixel.toNat % 8 = 0) (fuel : Nat) : drawLoop next nbPixel fuel d = none := by
  induction fuel generalizing d with
  | zero => rfl
  | succ fuel ih =>
      have hslt : d.pixel.slt nbPixel = true := by
        have hlt := d.pixel.isLt
        rw [BitVec.slt, decide_eq_true_iff, BitVec.toInt_eq_toNat_cond]
        split <;> omega
      rw [drawLoop, hslt, if_pos rfl]
      cases hbody : drawByte next d with
      | none => rfl
      | some d' =>
          refine ih ?_
          have hlt := d.pixel.isLt
          rw [drawByte_pixel hbody, BitVec.toNat_add]
          simp
          omega

end Draw

end LnDso
