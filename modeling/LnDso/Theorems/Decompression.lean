import LnDso.Logic.Streaming

/-!
# Decompression

The reader hands out the expansion of the stream at its data pointer, byte by
byte, wherever the ends of its two buffers fall.
-/

namespace LnDso

open Lib

namespace IliHS

variable {flash : Mem} {data n : Nat} {hs : IliHS}

/-- The reader after `n` bytes: the decoder is ahead of it by the bytes of
`decompBuffer`. -/
structure Reading (flash : Mem) (data n : Nat) (hs : IliHS) : Prop where
  tracks : ∃ b e H, hs.hsd.Tracks (flash.from_ data) b e H ∧ hs.p = data + e ∧ n ≤ H.length ∧
    H.drop n = hs.decompBuffer

theorem reading_init (flash : Mem) (data : Nat) : Reading flash data 0 (init data) where
  tracks := ⟨0, 0, [], HeatshrinkDecoder.tracks_reset _, rfl, Nat.zero_le _, rfl⟩

/-- A sink brings bits enough for a byte, so there is no second one. -/
theorem again_reads (h : Reading flash data n hs) (hnil : hs.decompBuffer = []) :
    ∃ hs', again flash 2 hs = some hs' ∧ Reading flash data n hs' ∧ hs'.decompBuffer ≠ [] ∧
      (hs'.sinks = hs.sinks ∨ hs'.sinks = hs.sinks ++ [0]) := by
  obtain ⟨b, e, H, htracks, hp, hn, hdrop⟩ := h.tracks
  have hlen : n = H.length := by
    rw [hnil, List.drop_eq_nil_iff] at hdrop
    omega
  obtain ⟨r, grow, d, b', hpoll, htracks', hend⟩ := HeatshrinkDecoder.poll_tracks
    htracks (by omega : 0 < 64)
  by_cases hgrow : grow = []
  · obtain ⟨hr, hempty, -⟩ := hend hgrow
    rw [hgrow, List.append_nil] at htracks'
    have hin : ∀ j < 32, flash.from_ hs.p j = flash.from_ data (e + j) := by
      intro j _
      simp only [Mem.from_, hp, Nat.add_assoc]
    obtain ⟨d1, hsink, htracks1⟩ := HeatshrinkDecoder.sink_tracks htracks' hempty hin
    obtain ⟨r2, grow2, d2, b2, hpoll2, htracks2, hend2⟩ :=
      HeatshrinkDecoder.poll_tracks htracks1 (by omega : 0 < 64)
    have hgrow2 : grow2 ≠ [] := by
      intro hnone
      have hlast := (hend2 hnone).2.2
      have hle := htracks'.feed.le
      omega
    refine ⟨⟨d2, grow2, hs.p + 32, hs.sinks ++ [d.inputSize]⟩, ?_, ⟨b2, e + 32, H ++ grow2, htracks2,
      ?_, ?_, ?_⟩, hgrow2, .inr ?_⟩
    · have hcount : r2 = .empty ∧ grow2.length = 0 → False :=
        fun hnone => hgrow2 (List.eq_nil_of_length_eq_zero hnone.2)
      simp only [again, hpoll, Option.bind_some, hr, hgrow, List.length_nil, and_self, if_true,
        hsink, hpoll2, if_neg hcount]
    · simp only [hp, Nat.add_assoc]
    · rw [List.length_append]
      omega
    · rw [hlen, List.drop_left]
    · simp only [hempty]
  · refine ⟨{ hs with hsd := d, decompBuffer := grow }, ?_, ⟨b', e, H ++ grow, htracks', hp, ?_, ?_⟩,
      hgrow, .inl rfl⟩
    · have hcount : r = .empty ∧ grow.length = 0 → False :=
        fun hnone => hgrow (List.eq_nil_of_length_eq_zero hnone.2)
      simp only [again, hpoll, Option.bind_some, if_neg hcount]
    · rw [List.length_append]
      omega
    · rw [hlen, List.drop_left]

/-- A byte out of `decompBuffer`. -/
theorem Reading.pop {c : Byte} {rest : List Byte} (h : Reading flash data n hs)
    (hbuf : hs.decompBuffer = c :: rest) :
    c = Lzss.expand 8 4 (flash.from_ data) n ∧
      Reading flash data (n + 1) { hs with decompBuffer := rest } := by
  obtain ⟨b, e, H, htracks, hp, hn, hdrop⟩ := h.tracks
  rw [hbuf] at hdrop
  have hlt : n < H.length := by
    have hlen := congrArg List.length hdrop
    rw [List.length_drop, List.length_cons] at hlen
    omega
  have hc : H.getD n 0 = c := by
    rw [List.getD_eq_getElem?_getD, ← Nat.add_zero n, ← List.getElem?_drop, hdrop]
    rfl
  refine ⟨?_, b, e, H, htracks, hp, hlt, ?_⟩
  · rw [← hc, htracks.getD hlt]
  · rw [← List.drop_drop, hdrop]
    rfl

theorem next_reads (h : Reading flash data n hs) :
    ∃ hs', hs.next flash = some (Lzss.expand 8 4 (flash.from_ data) n, hs') ∧
      Reading flash data (n + 1) hs' ∧ (hs'.sinks = hs.sinks ∨ hs'.sinks = hs.sinks ++ [0]) := by
  cases hbuf : hs.decompBuffer with
  | nil =>
      obtain ⟨hs1, hagain, hread, hne, hsinks⟩ := again_reads h hbuf
      obtain ⟨c, rest, hbuf1⟩ := List.exists_cons_of_ne_nil hne
      obtain ⟨hc, hread'⟩ := hread.pop hbuf1
      refine ⟨{ hs1 with decompBuffer := rest }, ?_, hread', hsinks⟩
      simp only [next, hbuf, if_true, hagain, Option.bind_some, hbuf1, hc]
  | cons c rest =>
      obtain ⟨hc, hread'⟩ := h.pop hbuf
      refine ⟨{ hs with decompBuffer := rest }, ?_, hread', .inl rfl⟩
      simp only [next, hbuf, reduceCtorEq, if_false, Option.bind_some, hc]

theorem after_reads (flash : Mem) (data n : Nat) :
    ∃ hs, after flash data n = some hs ∧ Reading flash data n hs := by
  induction n with
  | zero => exact ⟨init data, rfl, reading_init flash data⟩
  | succ n ih =>
      obtain ⟨hs, hafter, hread⟩ := ih
      obtain ⟨hs', hnext, hread', -⟩ := next_reads hread
      refine ⟨hs', ?_, hread'⟩
      simp only [after, hafter, Option.bind_some, hnext, Option.map_some]

/-- Call `n` of `next()` returns byte `n` of the expansion, and sinks at most
once, into an empty input buffer. -/
theorem next_expands (flash : Mem) (data n : Nat) :
    ∃ hs hs', after flash data n = some hs ∧
      hs.next flash = some (Lzss.expand 8 4 (flash.from_ data) n, hs') ∧
      (hs'.sinks = hs.sinks ∨ hs'.sinks = hs.sinks ++ [0]) := by
  obtain ⟨hs, hafter, hread⟩ := after_reads flash data n
  obtain ⟨hs', hnext, -, hsinks⟩ := next_reads hread
  exact ⟨hs, hs', hafter, hnext, hsinks⟩

end IliHS

end LnDso
