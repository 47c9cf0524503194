import LnDso.Logic.Decoder

/-!
# One turn of the poll loop

The decoder tracks the expansion through a window of the last 256 bytes and a
state that says how much of a token it has seen. A turn finishes a part of a
token, or is stuck with its input or its output exhausted.
-/

namespace LnDso

open Lib

namespace HeatshrinkDecoder

variable {s : Nat → Byte} {d d' : HeatshrinkDecoder} {b e count n size : Nat} {out H : List Byte}
  {c : Byte}

/-! ## The window -/

theorem windowAt_eq (i : Half) : windowAt i = inputBufferSize + i.toNat % 256 := by
  have hmask : (BitVec.ofNat 16 (1 <<< windowBits - 1)).toNat = 2 ^ 8 - 1 := rfl
  rw [windowAt, BitVec.toNat_and, hmask, Nat.and_two_pow_sub_one_eq_mod]

/-- The window holds the last 256 bytes that came out. -/
def Window (d : HeatshrinkDecoder) (H : List Byte) : Prop :=
  ∀ k, 1 ≤ k → k ≤ 256 → d.buffers (windowAt (d.headIndex - BitVec.ofNat 16 k)) = Lzss.back H k

theorem window_reset : reset.Window [] := fun _ _ _ => rfl

theorem SameOut.window (h : SameOut d d') (hw : d.Window H) : d'.Window H := by
  intro k hk hk'
  rw [h.headIndex, h.buffers]
  exact hw k hk hk'

/-- Store a byte in the window: `buf[head_index++ & mask] = c`. -/
def pushWindow (c : Byte) (d : HeatshrinkDecoder) : HeatshrinkDecoder :=
  { d with buffers := d.buffers.write (windowAt d.headIndex) [c], headIndex := d.headIndex + 1 }

theorem Window.push (h : d.Window H) (c : Byte) : (d.pushWindow c).Window (H ++ [c]) := by
  intro k hk hk'
  obtain ⟨j, rfl⟩ : ∃ j, k = j + 1 := ⟨k - 1, by omega⟩
  have hindex : d.headIndex + 1 - BitVec.ofNat 16 (j + 1) = d.headIndex - BitVec.ofNat 16 j := by
    rw [BitVec.ofNat_add]
    grind
  simp only [pushWindow, hindex]
  cases j with
  | zero =>
      rw [show d.headIndex - BitVec.ofNat 16 0 = d.headIndex by grind, Lzss.back_one]
      exact Mem.write_at d.buffers (windowAt d.headIndex) [c] (i := 0) Nat.one_pos
  | succ j =>
      rw [Lzss.back_succ _ _ (by omega), ← h (j + 1) (by omega) (by omega)]
      have hne : windowAt (d.headIndex - BitVec.ofNat 16 (j + 1)) ≠ windowAt d.headIndex := by
        rw [windowAt_eq, windowAt_eq, BitVec.toNat_sub, BitVec.toNat_ofNat]
        have hhead := d.headIndex.isLt
        omega
      rcases Nat.lt_or_gt_of_ne hne with hlt | hgt
      · exact Mem.write_below _ _ _ hlt
      · exact Mem.write_above _ _ _ (Nat.succ_le_of_lt hgt)

/-- Bytes are stored in the window only, not in the input buffer. -/
theorem Feed.push (h : d.Feed s b e) (c : Byte) : (d.pushWindow c).Feed s b e := by
  refine h.congr rfl rfl rfl rfl fun i hi => ?_
  exact Mem.write_below _ _ _ (by rw [windowAt_eq]; omega)

theorem copyBackref_succ (n : Nat) (out : List Byte) (d : HeatshrinkDecoder) :
    copyBackref (n + 1) out d =
      copyBackref n (out ++ [d.buffers (windowAt (d.headIndex - d.outputIndex))])
        (d.pushWindow (d.buffers (windowAt (d.headIndex - d.outputIndex)))) := rfl

/-- The copy loop copies from the expansion. -/
theorem copyBackref_copy {k : Nat} (n : Nat) (out : List Byte) (hfeed : d.Feed s b e)
    (hwindow : d.Window H) (hk : d.outputIndex = BitVec.ofNat 16 k) (hpos : 1 ≤ k) (hle : k ≤ 256) :
    ∃ grow d', copyBackref n out d = (out ++ grow, d') ∧ H ++ grow = Lzss.copy k n H ∧
      grow.length = n ∧ d'.Feed s b e ∧ d'.Window (H ++ grow) ∧ d'.outputCount = d.outputCount ∧
      d'.outputIndex = d.outputIndex := by
  induction n generalizing d out H with
  | zero =>
      refine ⟨[], d, ?_, ?_, rfl, hfeed, ?_, rfl, rfl⟩
      · rw [copyBackref, List.append_nil]
      · rw [Lzss.copy, List.append_nil]
      · rwa [List.append_nil]
  | succ n ih =>
      obtain ⟨c, hc⟩ : ∃ c, d.buffers (windowAt (d.headIndex - d.outputIndex)) = c := ⟨_, rfl⟩
      have hback : Lzss.back H k = c := by
        rw [← hc, hk]
        exact (hwindow k hpos hle).symm
      obtain ⟨grow, d', hcopy, hgrow, hlen, hfeed', hwindow', hcount, hindex⟩ :=
        ih (out ++ [c]) (hfeed.push c) (hwindow.push c) hk
      rw [List.append_assoc] at hcopy hgrow hwindow'
      refine ⟨c :: grow, d', ?_, ?_, ?_, hfeed', hwindow', hcount, hindex⟩
      · rw [copyBackref_succ, hc, hcopy]
        rfl
      · rw [Lzss.copy, hback, ← hgrow]
        rfl
      · rw [List.length_cons, hlen]

/-! ## Where the decoder stands -/

/-- The part of the token after `A` that the decoder has seen. -/
inductive Phase (s : Nat → Byte) (d : HeatshrinkDecoder) (b : Nat) (H : List Byte)
    (A : Lzss.State) : Prop
  | tagBit (hstate : d.state = .tagBit) (hb : b = A.pos) (hH : H = A.out)
  | yieldLiteral (hstate : d.state = .yieldLiteral) (hbit : Bits.bitAt s A.pos = true)
      (hb : b = A.pos + 1) (hH : H = A.out)
  | backrefIndexLsb (hstate : d.state = .backrefIndexLsb) (hbit : Bits.bitAt s A.pos = false)
      (hb : b = A.pos + 1) (hH : H = A.out) (hindex : d.outputIndex = 0)
  | backrefCountLsb (hstate : d.state = .backrefCountLsb) (hbit : Bits.bitAt s A.pos = false)
      (hb : b = A.pos + 9) (hH : H = A.out)
      (hindex : d.outputIndex = BitVec.ofNat 16 (Bits.field s (A.pos + 1) 8 + 1))
      (hcount : d.outputCount = 0)
  | yieldBackref {m : Nat} (hstate : d.state = .yieldBackref) (hbit : Bits.bitAt s A.pos = false)
      (hb : b = A.pos + 13) (hH : H = Lzss.copy (Bits.field s (A.pos + 1) 8 + 1) m A.out)
      (hindex : d.outputIndex = BitVec.ofNat 16 (Bits.field s (A.pos + 1) 8 + 1))
      (hcount : m + d.outputCount.toNat = Bits.field s (A.pos + 9) 4 + 1)
      (hpos : 0 < d.outputCount.toNat)

/-- The decoder has put out `H`, somewhere in the expansion of `s`. -/
structure Tracks (s : Nat → Byte) (d : HeatshrinkDecoder) (b e : Nat) (H : List Byte) : Prop where
  feed : d.Feed s b e
  window : d.Window H
  phase : ∃ t, Phase s d b H (Lzss.tokens 8 4 s t)

theorem tracks_reset (s : Nat → Byte) : reset.Tracks s 0 0 [] where
  feed := feed_reset s
  window := window_reset
  phase := ⟨0, .tagBit rfl rfl rfl⟩

theorem token_literal {A : Lzss.State} (h : Bits.bitAt s A.pos = true) :
    Lzss.token 8 4 s A = ⟨A.pos + 9, A.out ++ [BitVec.ofNat 8 (Bits.field s (A.pos + 1) 8)]⟩ := by
  rw [Lzss.token, if_pos h]

theorem token_backref {A : Lzss.State} (h : Bits.bitAt s A.pos = false) :
    Lzss.token 8 4 s A = ⟨A.pos + 13, Lzss.copy (Bits.field s (A.pos + 1) 8 + 1)
      (Bits.field s (A.pos + 9) 4 + 1) A.out⟩ := by
  rw [Lzss.token, if_neg (by rw [h]; exact Bool.false_ne_true)]

/-- What came out is a prefix of the expansion. -/
theorem Phase.out_extends {A : Lzss.State} (h : Phase s d b H A) :
    H <+: (Lzss.token 8 4 s A).out := by
  cases h with
  | tagBit _ _ hH | yieldLiteral _ _ _ hH | backrefIndexLsb _ _ _ hH | backrefCountLsb _ _ _ hH =>
      rw [hH]
      exact Lzss.token_extends A
  | yieldBackref _ hbit _ hH _ hcount =>
      rw [hH, token_backref hbit, ← hcount, Lzss.copy_add]
      exact Lzss.copy_extends ..

theorem Tracks.getD (h : d.Tracks s b e H) (hn : n < H.length) :
    H.getD n 0 = Lzss.expand 8 4 s n := by
  obtain ⟨t, hphase⟩ := h.phase
  exact Lzss.getD_expand (m := t + 1) hphase.out_extends hn

/-! ## Turns -/

/-- The bits that take any token to its first byte. -/
def need : HsdState → Nat
  | .tagBit => 13
  | .yieldLiteral => 8
  | .backrefIndexLsb => 12
  | .backrefCountLsb => 4
  | _ => 0

theorem need_le (st : HsdState) : need st ≤ 13 := by
  cases st <;> decide

/-- More than the turns left with `n` bits to take. -/
def turns (st : HsdState) (n : Nat) : Nat := 2 * n + if st = .yieldBackref then 1 else 0

/-- One turn with `out` in the output buffer of `size` bytes. -/
inductive Turn (s : Nat → Byte) (size e : Nat) (out H : List Byte) (d : HeatshrinkDecoder)
    (b : Nat) : Prop
  | stuck (hstep : d.pollStep size out = (out, d))
      (hwhy : d.inputSize = 0 ∧ 8 * e < b + need d.state ∨ out.length = size)
  | full {grow u} (hstep : d.pollStep size out = (out ++ grow, u)) (hstate : u.state = d.state)
      (htracks : u.Tracks s b e (H ++ grow)) (hfull : (out ++ grow).length = size)
      (hgrow : grow ≠ [])
  | moved {grow u c} (hstep : d.pollStep size out = (out ++ grow, u))
      (hstate : u.state ≠ d.state) (htracks : u.Tracks s c e (H ++ grow))
      (hlen : (out ++ grow).length ≤ size)
      (hturns : turns u.state (8 * e - c) < turns d.state (8 * e - b))
      (hneed : grow ≠ [] ∨ need u.state + c ≤ need d.state + b)

variable {A : Lzss.State} {b' t : Nat} {v : Half}

/-- A turn that takes bits and puts nothing out. -/
theorem Turn.parsed {u : HeatshrinkDecoder} {c : Nat}
    (hstep : d.pollStep size out = (out, u)) (hlen : out.length ≤ size) (htracks : u.Tracks s c e H)
    (hb : b < c) (hle : c ≤ 8 * e) (hback : d.state ≠ .yieldBackref) (hstate : u.state ≠ d.state)
    (hneed : need u.state + c ≤ need d.state + b) : Turn s size e out H d b := by
  rw [← List.append_nil H] at htracks
  refine .moved ?_ hstate htracks ?_ ?_ (.inr hneed)
  · rwa [List.append_nil]
  · rwa [List.append_nil]
  · rw [turns, turns, if_neg hback]
    split <;> omega

/-- A turn that finds too few bits. -/
theorem Turn.starved (h : d.Feed s b e) (hcount : count ≤ 8) (hlt : 8 * e < b + count)
    (hneed : count ≤ need d.state)
    (hstep : d.getBits count = (noBits, d) → d.pollStep size out = (out, d)) :
    Turn s size e out H d b :=
  .stuck (hstep (getBits_none h hlt hcount)) (.inl ⟨h.exhausted (by omega), by omega⟩)

theorem tagBit_turn (h : d.Feed s b e) (hw : d.Window H) (hlen : out.length ≤ size)
    (hA : Lzss.tokens 8 4 s t = A) (hstate : d.state = .tagBit) (hb : b = A.pos) (hH : H = A.out) :
    Turn s size e out H d b := by
  by_cases hle : b + 1 ≤ 8 * e
  · obtain ⟨v, d1, hbits, hv, hvalue, hfeed, hsame⟩ :=
      getBits_take h hle Nat.one_pos (by omega : 1 ≤ 8)
    have hfield : Bits.field s b 1 = (Bits.bitAt s b).toNat := by
      rw [Bits.field, Bits.field, Nat.add_zero]
      omega
    rw [hfield, hb] at hvalue
    cases hbit : Bits.bitAt s A.pos with
    | true =>
        have hne : v ≠ 0 := by
          rintro rfl
          rw [hbit] at hvalue
          exact absurd hvalue Nat.zero_ne_one
        refine .parsed (u := { d1 with state := .yieldLiteral }) (c := b + 1) ?_ hlen ?_
          (Nat.lt_succ_self b) hle ?_ ?_ ?_
        · simp only [pollStep, hstate, stTagBit, hbits, if_neg hv, if_pos hne]
        · refine ⟨hfeed.congr rfl rfl rfl rfl fun _ _ => rfl, hsame.window hw, t, ?_⟩
          rw [hA]
          exact .yieldLiteral rfl hbit (by rw [hb]) hH
        · simp [hstate]
        · simp [hstate]
        · simp only [hstate, need]
          omega
    | false =>
        have hzero : v = 0 := by
          apply BitVec.eq_of_toNat_eq
          rw [hvalue, hbit]
          rfl
        refine .parsed (u := { d1 with outputIndex := 0, state := .backrefIndexLsb })
          (c := b + 1) ?_ hlen ?_ (Nat.lt_succ_self b) hle ?_ ?_ ?_
        · simp only [pollStep, hstate, stTagBit, hbits, hzero]
          rfl
        · refine ⟨hfeed.congr rfl rfl rfl rfl fun _ _ => rfl, hsame.window hw, t, ?_⟩
          rw [hA]
          exact .backrefIndexLsb rfl hbit (by rw [hb]) hH rfl
        · simp [hstate]
        · simp [hstate]
        · simp only [hstate, need]
          omega
  · refine .starved h (by omega : 1 ≤ 8) (by omega) (by rw [hstate]; decide) fun hnone => ?_
    simp only [pollStep, hstate, stTagBit, hnone, if_true]
    rw [← hstate]

theorem indexLsb_bits : (if windowBits < 8 then windowBits else 8) = 8 := rfl

theorem backrefIndexLsb_turn (h : d.Feed s b e) (hw : d.Window H) (hlen : out.length ≤ size)
    (hA : Lzss.tokens 8 4 s t = A) (hstate : d.state = .backrefIndexLsb)
    (hbit : Bits.bitAt s A.pos = false) (hb : b = A.pos + 1) (hH : H = A.out)
    (hindex : d.outputIndex = 0) : Turn s size e out H d b := by
  by_cases hle : b + 8 ≤ 8 * e
  · obtain ⟨v, d1, hbits, hv, hvalue, hfeed, hsame⟩ :=
      getBits_take h hle (by omega : 0 < 8) (Nat.le_refl 8)
    rw [hb] at hvalue
    refine .parsed
      (u := { d1 with
        outputIndex := (d1.outputIndex ||| v) + 1
        outputCount := 0
        state := .backrefCountLsb })
      (c := b + 8) ?_ hlen ?_ (by omega) hle ?_ ?_ ?_
    · simp only [pollStep, hstate, stBackrefIndexLsb, indexLsb_bits, hbits, if_neg hv]
      rfl
    · refine ⟨hfeed.congr rfl rfl rfl rfl fun _ _ => rfl, hsame.window hw, t, ?_⟩
      rw [hA]
      refine .backrefCountLsb rfl hbit (by rw [hb]) hH ?_ rfl
      simp only [hsame.outputIndex, hindex]
      rw [show (0 : Half) ||| v = v from BitVec.zero_or, ← hvalue, BitVec.ofNat_add,
        BitVec.ofNat_toNat, BitVec.setWidth_eq]
      rfl
    · simp [hstate]
    · simp [hstate]
    · simp only [hstate, need]
      omega
  · refine .starved h (Nat.le_refl 8) (by omega) (by rw [hstate]; decide) fun hnone => ?_
    simp only [pollStep, hstate, stBackrefIndexLsb, indexLsb_bits, hnone, if_true]
    rw [← hstate]

theorem countLsb_bits : (if lookaheadBits < 8 then lookaheadBits else 8) = 4 := rfl

theorem backrefCountLsb_turn (h : d.Feed s b e) (hw : d.Window H) (hlen : out.length ≤ size)
    (hA : Lzss.tokens 8 4 s t = A) (hstate : d.state = .backrefCountLsb)
    (hbit : Bits.bitAt s A.pos = false) (hb : b = A.pos + 9) (hH : H = A.out)
    (hindex : d.outputIndex = BitVec.ofNat 16 (Bits.field s (A.pos + 1) 8 + 1))
    (hcount : d.outputCount = 0) : Turn s size e out H d b := by
  by_cases hle : b + 4 ≤ 8 * e
  · obtain ⟨v, d1, hbits, hv, hvalue, hfeed, hsame⟩ :=
      getBits_take h hle (by omega : 0 < 4) (by omega : 4 ≤ 8)
    rw [hb] at hvalue
    have hnext : ((d1.outputCount ||| v) + 1).toNat = Bits.field s (A.pos + 9) 4 + 1 := by
      have hlt := Bits.field_lt s (A.pos + 9) 4
      rw [hsame.outputCount, hcount, show (0 : Half) ||| v = v from BitVec.zero_or,
        BitVec.toNat_add, hvalue]
      exact Nat.mod_eq_of_lt (by simp; omega)
    refine .parsed
      (u := { d1 with
        outputCount := (d1.outputCount ||| v) + 1
        state := .yieldBackref })
      (c := b + 4) ?_ hlen ?_ (by omega) hle ?_ ?_ ?_
    · simp only [pollStep, hstate, stBackrefCountLsb, countLsb_bits, hbits, if_neg hv]
    · refine ⟨hfeed.congr rfl rfl rfl rfl fun _ _ => rfl, hsame.window hw, t, ?_⟩
      rw [hA]
      refine .yieldBackref (m := 0) rfl hbit (by rw [hb]) hH (hsame.outputIndex.trans hindex) ?_ ?_
      · rw [Nat.zero_add]
        exact hnext
      · rw [hnext]
        exact Nat.succ_pos _
    · simp [hstate]
    · simp [hstate]
    · simp only [hstate, need]
      omega
  · refine .starved h (by omega : 4 ≤ 8) (by omega) (by rw [hstate]; decide) fun hnone => ?_
    simp only [pollStep, hstate, stBackrefCountLsb, countLsb_bits, hnone, if_true]
    rw [← hstate]

theorem yieldLiteral_turn (h : d.Feed s b e) (hw : d.Window H) (hlen : out.length ≤ size)
    (hA : Lzss.tokens 8 4 s t = A) (hstate : d.state = .yieldLiteral)
    (hbit : Bits.bitAt s A.pos = true) (hb : b = A.pos + 1) (hH : H = A.out) :
    Turn s size e out H d b := by
  by_cases hroom : out.length < size
  · by_cases hle : b + 8 ≤ 8 * e
    · obtain ⟨v, d1, hbits, hv, hvalue, hfeed, hsame⟩ :=
        getBits_take h hle (by omega : 0 < 8) (Nat.le_refl 8)
      have hbyte : v.setWidth 8 = BitVec.ofNat 8 (Bits.field s (A.pos + 1) 8) := by
        rw [← hb, ← hvalue]
        exact BitVec.eq_of_toNat_eq (by simp)
      refine .moved
        (u := { d1.pushWindow (v.setWidth 8) with state := .tagBit }) (c := b + 8)
        ?_ ?_ ?_ ?_ ?_ (.inl (List.cons_ne_nil (v.setWidth 8) []))
      · simp only [pollStep, hstate, stYieldLiteral, if_pos hroom, hbits, if_neg hv]
        rfl
      · simp [hstate]
      · refine ⟨(hfeed.push _).congr rfl rfl rfl rfl fun _ _ => rfl, (hsame.window hw).push _,
          t + 1, .tagBit rfl ?_ ?_⟩
        · rw [Lzss.tokens, hA, token_literal hbit, hb]
        · rw [Lzss.tokens, hA, token_literal hbit, hH, hbyte]
      · rw [List.length_append, List.length_singleton]
        exact hroom
      · rw [hstate, turns, turns]
        simp
        omega
    · refine .starved h (Nat.le_refl 8) (by omega) (by rw [hstate]; decide) fun hnone => ?_
      simp only [pollStep, hstate, stYieldLiteral, if_pos hroom, hnone, if_true]
      rw [← hstate]
  · refine .stuck ?_ (.inr (by omega))
    simp only [pollStep, hstate, stYieldLiteral, if_neg hroom]
    rw [← hstate]

theorem yieldBackref_turn {m : Nat} (h : d.Feed s b e) (hw : d.Window H) (hlen : out.length ≤ size)
    (hA : Lzss.tokens 8 4 s t = A) (hstate : d.state = .yieldBackref)
    (hbit : Bits.bitAt s A.pos = false) (hb : b = A.pos + 13)
    (hH : H = Lzss.copy (Bits.field s (A.pos + 1) 8 + 1) m A.out)
    (hindex : d.outputIndex = BitVec.ofNat 16 (Bits.field s (A.pos + 1) 8 + 1))
    (hcount : m + d.outputCount.toNat = Bits.field s (A.pos + 9) 4 + 1)
    (hpos : 0 < d.outputCount.toNat) : Turn s size e out H d b := by
  by_cases hroom : size - out.length > 0
  · obtain ⟨c, hc⟩ : ∃ c, (if d.outputCount.toNat < size - out.length then d.outputCount.toNat
        else size - out.length) = c := ⟨_, rfl⟩
    have hcle : c ≤ d.outputCount.toNat ∧ c ≤ size - out.length ∧ 0 < c ∧
        (c = d.outputCount.toNat ∨ c = size - out.length) := by
      rw [← hc]
      split <;> omega
    have hback : Bits.field s (A.pos + 1) 8 + 1 ≤ 256 := Bits.field_lt s (A.pos + 1) 8
    obtain ⟨grow, d1, hcopy, hgrow, hgrowlen, hfeed, hwindow, hcount', hindex'⟩ :=
      copyBackref_copy c out h hw hindex (Nat.succ_pos _) hback
    have hne : grow ≠ [] := by
      rintro rfl
      rw [List.length_nil] at hgrowlen
      omega
    have hleft : (d1.outputCount - BitVec.ofNat 16 c).toNat = d.outputCount.toNat - c := by
      have hlt := d.outputCount.isLt
      rw [hcount', BitVec.toNat_sub, BitVec.toNat_ofNat]
      omega
    have hout : H ++ grow = Lzss.copy (Bits.field s (A.pos + 1) 8 + 1) (m + c) A.out := by
      rw [hgrow, hH, ← Lzss.copy_add]
    by_cases hdone : c = d.outputCount.toNat
    · have hzero : d1.outputCount - BitVec.ofNat 16 c = 0 := by
        apply BitVec.eq_of_toNat_eq
        rw [hleft, hdone, Nat.sub_self]
        rfl
      refine .moved
        (u := { d1 with outputCount := d1.outputCount - BitVec.ofNat 16 c, state := .tagBit })
        (c := b) ?_ ?_ ?_ ?_ ?_ (.inl hne)
      · simp only [pollStep, hstate, stYieldBackref, if_pos hroom, hc, hcopy, if_pos hzero]
      · simp [hstate]
      · refine ⟨hfeed.congr rfl rfl rfl rfl fun _ _ => rfl, hwindow, t + 1, .tagBit rfl ?_ ?_⟩
        · rw [Lzss.tokens, hA, token_backref hbit, hb]
        · rw [Lzss.tokens, hA, token_backref hbit, hout, hdone, hcount]
      · rw [List.length_append, hgrowlen]
        omega
      · simp only [hstate, turns]
        simp
    · have hsome : d1.outputCount - BitVec.ofNat 16 c ≠ 0 := by
        intro hzero
        rw [hzero] at hleft
        have hnil : (0 : Half).toNat = 0 := rfl
        omega
      refine .full
        (u := { d1 with outputCount := d1.outputCount - BitVec.ofNat 16 c, state := .yieldBackref })
        ?_ hstate.symm ?_ ?_ hne
      · simp only [pollStep, hstate, stYieldBackref, if_pos hroom, hc, hcopy, if_neg hsome]
      · refine ⟨hfeed.congr rfl rfl rfl rfl fun _ _ => rfl, hwindow, t, ?_⟩
        rw [hA]
        refine .yieldBackref (m := m + c) rfl hbit hb hout (hindex'.trans hindex) ?_ ?_
        · simp only [hleft]
          omega
        · simp only [hleft]
          omega
      · rw [List.length_append, hgrowlen]
        omega
  · refine .stuck ?_ (.inr (by omega))
    simp only [pollStep, hstate, stYieldBackref, if_neg hroom]
    rw [← hstate]

theorem turn (h : d.Tracks s b e H) (hlen : out.length ≤ size) : Turn s size e out H d b := by
  obtain ⟨t, hphase⟩ := h.phase
  cases hphase with
  | tagBit hstate hb hH => exact tagBit_turn h.feed h.window hlen rfl hstate hb hH
  | yieldLiteral hstate hbit hb hH =>
      exact yieldLiteral_turn h.feed h.window hlen rfl hstate hbit hb hH
  | backrefIndexLsb hstate hbit hb hH hindex =>
      exact backrefIndexLsb_turn h.feed h.window hlen rfl hstate hbit hb hH hindex
  | backrefCountLsb hstate hbit hb hH hindex hcount =>
      exact backrefCountLsb_turn h.feed h.window hlen rfl hstate hbit hb hH hindex hcount
  | yieldBackref hstate hbit hb hH hindex hcount hpos =>
      exact yieldBackref_turn h.feed h.window hlen rfl hstate hbit hb hH hindex hcount hpos

/-! ## The poll loop -/

theorem pollLoop_succ (fuel : Nat) (out : List Byte) (d : HeatshrinkDecoder) :
    pollLoop size (fuel + 1) out d =
      if (d.pollStep size out).2.state = d.state then
        some (if (d.pollStep size out).1.length = size then .more else .empty, d.pollStep size out)
      else pollLoop size fuel (d.pollStep size out).1 (d.pollStep size out).2 := rfl

/-- How the loop ends: with its output full, or its input at an end. Either a
byte came out, or the next one is nearer. -/
theorem pollLoop_tracks {fuel : Nat} (h : d.Tracks s b e H) (hlen : out.length ≤ size)
    (hfuel : turns d.state (8 * e - b) < fuel) :
    ∃ r grow d' b', pollLoop size fuel out d = some (r, out ++ grow, d') ∧
      r = (if (out ++ grow).length = size then .more else .empty) ∧ d'.Tracks s b' e (H ++ grow) ∧
      (d'.inputSize = 0 ∧ 8 * e < b' + need d'.state ∨ (out ++ grow).length = size) ∧
      (grow ≠ [] ∨ need d'.state + b' ≤ need d.state + b) := by
  induction fuel generalizing d b out H with
  | zero => exact absurd hfuel (Nat.not_lt_zero _)
  | succ fuel ih =>
      cases turn h hlen with
      | stuck hstep hwhy =>
          refine ⟨_, [], d, b, ?_, rfl, ?_, ?_, .inr (Nat.le_refl _)⟩
          · rw [pollLoop_succ, hstep, List.append_nil]
            exact if_pos rfl
          · rwa [List.append_nil]
          · rwa [List.append_nil]
      | full hstep hstate htracks hfull hgrow =>
          refine ⟨_, _, _, b, ?_, rfl, htracks, .inr hfull, .inl hgrow⟩
          rw [pollLoop_succ, hstep]
          exact if_pos hstate
      | moved hstep hstate htracks hlen' hturns hneed =>
          obtain ⟨r, grow', d', b', hloop, hr, htracks', hend, hnext⟩ :=
            ih htracks hlen' (by omega)
          rw [List.append_assoc] at hloop hr htracks' hend
          refine ⟨r, _, d', b', ?_, hr, htracks', hend, ?_⟩
          · rw [pollLoop_succ, hstep]
            exact (if_neg hstate).trans hloop
          · rcases hneed with hgrow | hneed
            · exact .inl fun hnil => hgrow (List.append_eq_nil_iff.mp hnil).1
            · rcases hnext with hgrow' | hnext
              · exact .inl fun hnil => hgrow' (List.append_eq_nil_iff.mp hnil).2
              · exact .inr (by omega)

/-- A poll into an empty output buffer. It comes back empty only when the input
buffer is, and not if there were bits enough for a byte. -/
theorem poll_tracks (h : d.Tracks s b e H) (hsize : 0 < size) :
    ∃ r grow d' b', d.poll size = some (r, grow, d') ∧ d'.Tracks s b' e (H ++ grow) ∧
      (grow = [] → r = .empty ∧ d'.inputSize = 0 ∧ 8 * e < b + 13) := by
  have hle := h.feed.le
  have hnil : ([] : List Byte).length ≤ size := Nat.zero_le size
  have hfuel : turns d.state (8 * e - b) < 600 := by
    rw [turns]
    split <;> omega
  obtain ⟨r, grow, d', b', hloop, hr, htracks, hend, hnext⟩ := pollLoop_tracks h hnil hfuel
  rw [List.nil_append] at hloop hr hend
  refine ⟨r, grow, d', b', hloop, htracks, ?_⟩
  rintro rfl
  rw [List.length_nil] at hr hend
  rw [if_neg (by omega)] at hr
  rcases hend with ⟨hempty, hbits⟩ | hfull
  · rcases hnext with hne | hnext
    · exact absurd rfl hne
    · have hneed := need_le d.state
      exact ⟨hr, hempty, by omega⟩
  · omega

/-! ## Sinking -/

/-- An empty input buffer takes the next 32 bytes. -/
theorem sink_tracks {inBuf : Mem} (h : d.Tracks s b e H) (hempty : d.inputSize = 0)
    (hin : ∀ j < 32, inBuf j = s (e + j)) :
    ∃ d', d.sink inBuf (64 * 1024) = (32, d') ∧ d'.Tracks s b (e + 32) H := by
  obtain ⟨k, hk, hbit, hb, hbyte⟩ := h.feed.bits
  have hindex : d.inputIndex = 0 := by
    rcases h.feed.index with hlt | ⟨hzero, -⟩
    · rw [hempty] at hlt
      exact absurd hlt (Nat.not_lt_zero _)
    · exact hzero
  have hzero : (0 : Half).toNat = 0 := rfl
  rw [hindex, hempty, hzero] at hb
  refine ⟨{ d with buffers := d.buffers.write 0 (inBuf.read 0 32), inputSize := 32 }, ?_, ?_⟩
  · rw [sink, hempty]
    rfl
  · refine ⟨⟨⟨k, hk, hbit, ?_, hbyte⟩, ?_, ?_, ?_⟩, ?_, ?_⟩
    · simp only [hindex, hzero]
      simp
      omega
    · simp [hindex]
    · simp [inputBufferSize]
    · simp only [hindex, hzero]
      intro j hj
      have hj' : j < 32 := hj
      have hlen' : j < (inBuf.read 0 32).length := by simpa using hj'
      have hcell := Mem.write_at d.buffers 0 (inBuf.read 0 32) hlen'
      have hread : (inBuf.read 0 32)[j] = s (e + j) := by
        rw [← hin j hj']
        simp [Mem.read]
      rw [Nat.zero_add] at hcell ⊢
      rw [hcell, hread]
      rfl
    · intro k hk hk'
      simp only
      rw [Mem.write_above _ _ _ (by rw [windowAt_eq]; simp [inputBufferSize])]
      exact h.window k hk hk'
    · obtain ⟨t, hphase⟩ := h.phase
      refine ⟨t, ?_⟩
      cases hphase with
      | tagBit hstate hb hH => exact .tagBit hstate hb hH
      | yieldLiteral hstate hbit hb hH => exact .yieldLiteral hstate hbit hb hH
      | backrefIndexLsb hstate hbit hb hH hindex =>
          exact .backrefIndexLsb hstate hbit hb hH hindex
      | backrefCountLsb hstate hbit hb hH hindex hcount =>
          exact .backrefCountLsb hstate hbit hb hH hindex hcount
      | yieldBackref hstate hbit hb hH hindex hcount hpos =>
          exact .yieldBackref hstate hbit hb hH hindex hcount hpos

end HeatshrinkDecoder

end LnDso