import Mathlib.Data.List.Basic

/-!
# Transfers in packets

A transfer of `n` items goes in packets of at most `M`. `packets` is what a
sender makes of a list, `hostRead` how the other side finds its end; `gather`
is what a receiver keeps that knows the total in advance, `Full` that no
packet falls short.
-/

namespace Lib

namespace Packets

variable {α : Type}

/-! ## Receiving a known total -/

/-- What packet `i`, counted from 0, of a transfer of `n` items has to bring. -/
def share (M n i : Nat) : Nat := min M (n - M * i)

/-- The number of packets of a transfer of `n` items. -/
def count (M n : Nat) : Nat := (n + M - 1) / M

/-- The items a receiver keeps: of each packet what is still missing. -/
def gather (M : Nat) : Nat → List (List α) → List α
  | _, [] => []
  | n, p :: ps => p.take (min M n) ++ gather M (n - M) ps

/-- Every packet brings its share. -/
def Full (M n : Nat) (ps : List (List α)) : Prop :=
  ∀ i p, ps[i]? = some p → share M n i ≤ p.length

theorem share_succ (M n i : Nat) : share M n (i + 1) = share M (n - M) i := by
  simp only [share, Nat.mul_succ]
  rw [Nat.sub_sub, Nat.add_comm M]

theorem full_nil (M n : Nat) : Full M n ([] : List (List α)) := by
  intro i p hp
  simp at hp

theorem full_cons {M n : Nat} {p : List α} {ps : List (List α)} :
    Full M n (p :: ps) ↔ min M n ≤ p.length ∧ Full M (n - M) ps := by
  constructor
  · intro h
    refine ⟨?_, fun i q hq => ?_⟩
    · simpa [share] using h 0 p rfl
    · rw [← share_succ]
      exact h (i + 1) q hq
  · rintro ⟨hp, hps⟩ i q hq
    cases i with
    | zero =>
        cases hq
        simpa [share] using hp
    | succ i =>
        rw [share_succ]
        exact hps i q hq

theorem length_gather {M n : Nat} {ps : List (List α)} (h : Full M n ps) :
    (gather M n ps).length = min n (M * ps.length) := by
  induction ps generalizing n with
  | nil => simp [gather]
  | cons p ps ih =>
      obtain ⟨hp, hps⟩ := full_cons.mp h
      rw [gather, List.length_append, List.length_take, ih hps, List.length_cons, Nat.mul_succ]
      omega

/-- A transfer is short of its end as long as packets are missing. -/
theorem lt_count_iff {M n k : Nat} (hM : 0 < M) : k < count M n ↔ M * k < n := by
  rw [count, Nat.lt_iff_add_one_le, Nat.le_div_iff_mul_le hM, Nat.add_mul, Nat.mul_comm k]
  omega

theorem count_le_iff {M n k : Nat} (hM : 0 < M) : count M n ≤ k ↔ n ≤ M * k := by
  rw [← Nat.not_lt, lt_count_iff hM, Nat.not_lt]

theorem gather_zero (M : Nat) (ps : List (List α)) : gather M 0 ps = [] := by
  induction ps with
  | nil => rfl
  | cons p ps ih => rw [gather, Nat.min_zero, List.take_zero, Nat.zero_sub, ih, List.nil_append]

theorem full_zero (M : Nat) (ps : List (List α)) : Full M 0 ps := by
  intro i p _
  simp [share]

theorem length_gather_of_count {M n : Nat} (hM : 0 < M) {ps : List (List α)} (h : Full M n ps)
    (hk : count M n ≤ ps.length) : (gather M n ps).length = n := by
  rw [length_gather h, Nat.min_eq_left ((count_le_iff hM).mp hk)]

/-! ## Sending -/

/-- The packets of a transfer: as many full ones as there are before the last,
the last, and an empty one if `zlp`. -/
def packets (M : Nat) (zlp : Bool) (l : List α) : List (List α) :=
  if 0 < M ∧ M < l.length then l.take M :: packets M zlp (l.drop M)
  else l :: (if zlp then [[]] else [])
termination_by l.length
decreasing_by
  rw [List.length_drop]
  omega

theorem packets_cons {M : Nat} (hM : 0 < M) {zlp : Bool} {l : List α} (h : M < l.length) :
    packets M zlp l = l.take M :: packets M zlp (l.drop M) := by
  rw [packets, if_pos ⟨hM, h⟩]

theorem packets_last {M : Nat} {zlp : Bool} {l : List α} (h : l.length ≤ M) :
    packets M zlp l = l :: (if zlp then [[]] else []) := by
  rw [packets, if_neg (by omega)]

theorem packets_ne_nil (M : Nat) (zlp : Bool) (l : List α) : packets M zlp l ≠ [] := by
  unfold packets
  split <;> exact List.cons_ne_nil _ _

/-- When the sender has to add an empty packet: the data fills its packets
exactly and the other side asked for `w`, more than it gets. -/
def NeedsZlp (M w : Nat) (l : List α) : Prop := l.length < w ∧ l ≠ [] ∧ l.length % M = 0

theorem flatten_packets (M : Nat) (zlp : Bool) (l : List α) : (packets M zlp l).flatten = l := by
  fun_induction packets M zlp l with
  | case1 l h ih => rw [List.flatten_cons, ih, List.take_append_drop]
  | case2 l h => cases zlp <;> simp

theorem length_packets_le {M : Nat} (hM : 0 < M) (zlp : Bool) (l : List α) :
    (packets M zlp l).length ≤ l.length / M + 2 := by
  fun_induction packets M zlp l with
  | case1 l h ih =>
      have hdiv := Nat.div_eq_sub_div hM (Nat.le_of_lt h.2)
      rw [List.length_drop] at ih
      rw [List.length_cons]
      omega
  | case2 l h =>
      rw [List.length_cons]
      cases zlp <;> simp

/-- Every packet but the last is full. -/
theorem length_of_mem_dropLast {M : Nat} (hM : 0 < M) {zlp : Bool} {l : List α}
    (hz : zlp = true → l ≠ [] ∧ l.length % M = 0) {q : List α}
    (hq : q ∈ (packets M zlp l).dropLast) : q.length = M := by
  fun_induction packets M zlp l with
  | case1 l h ih =>
      rw [List.dropLast_cons_of_ne_nil (packets_ne_nil _ _ _), List.mem_cons] at hq
      rcases hq with rfl | hq
      · rw [List.length_take]
        omega
      · refine ih (fun hzlp => ?_) hq
        have hmod := (hz hzlp).2
        refine ⟨List.ne_nil_of_length_pos ?_, ?_⟩
        · rw [List.length_drop]
          omega
        · rw [List.length_drop, ← Nat.mod_eq_sub_mod (by omega)]
          exact hmod
  | case2 l h =>
      cases zlp with
      | false => simp at hq
      | true =>
          obtain ⟨hne, hmod⟩ := hz rfl
          have hpos : 0 < l.length := List.length_pos_iff.mpr hne
          have hql : q = l := by simpa using hq
          subst hql
          have hle : M ≤ q.length := Nat.le_of_dvd hpos (Nat.dvd_of_mod_eq_zero hmod)
          omega

theorem length_le_of_mem {M : Nat} (hM : 0 < M) {zlp : Bool} {l q : List α}
    (hq : q ∈ packets M zlp l) : q.length ≤ M := by
  fun_induction packets M zlp l with
  | case1 l h ih =>
      rcases List.mem_cons.mp hq with rfl | hq
      · exact List.length_take_le _ _
      · exact ih hq
  | case2 l h =>
      rcases List.mem_cons.mp hq with rfl | hq
      · omega
      · cases zlp with
        | false => simp at hq
        | true =>
            have hnil : q = [] := by simpa using hq
            rw [hnil]
            exact Nat.zero_le _

/-- The last packet is empty exactly when there is no data or one was added. -/
theorem getLast?_eq_nil_iff {M : Nat} {zlp : Bool} {l : List α} :
    (packets M zlp l).getLast? = some [] ↔ l = [] ∨ zlp = true := by
  fun_induction packets M zlp l with
  | case1 l h ih =>
      have hl : l ≠ [] := fun h0 => by simp [h0] at h
      have hd : l.drop M ≠ [] := fun h0 => by
        have := List.drop_eq_nil_iff.mp h0
        omega
      rw [List.getLast?_cons, Option.some_inj, List.getLast?_eq_getLast_of_ne_nil
        (packets_ne_nil M zlp (l.drop M)), Option.getD_some, ← Option.some_inj,
        ← List.getLast?_eq_getLast_of_ne_nil, ih]
      simp only [hl, hd]
  | case2 l h => cases zlp <;> simp

/-! ## The other side -/

/-- A host that asked for `w` items reads until a packet is short or it has
them: the items and the packets it leaves, or nothing while it waits for more. -/
def hostRead (M : Nat) : Nat → List (List α) → Option (List α × List (List α))
  | _, [] => none
  | w, p :: ps =>
      if p.length < M ∨ w ≤ p.length then some (p, ps)
      else (hostRead M (w - p.length) ps).map fun r => (p ++ r.1, r.2)

/-- It stops with the last packet, with all the items. -/
theorem hostRead_packets {M w : Nat} (hM : 0 < M) {zlp : Bool} {l : List α} (hw : l.length ≤ w)
    (hz : zlp = true ↔ NeedsZlp M w l) : hostRead M w (packets M zlp l) = some (l, []) := by
  fun_induction packets M zlp l generalizing w with
  | case1 l h ih =>
      have htake : (l.take M).length = M := by rw [List.length_take]; omega
      have hdrop : (l.drop M).length = l.length - M := List.length_drop
      have hne : l.drop M ≠ [] := List.ne_nil_of_length_pos (by omega)
      have hl : l ≠ [] := List.ne_nil_of_length_pos (by omega)
      have hrest : hostRead M (w - M) (packets M zlp (l.drop M)) = some (l.drop M, []) := by
        refine ih (by omega) (hz.trans ?_)
        rw [NeedsZlp, NeedsZlp, hdrop, ← Nat.mod_eq_sub_mod (by omega)]
        constructor
        · rintro ⟨hlt, _, hmod⟩
          exact ⟨by omega, hne, hmod⟩
        · rintro ⟨hlt, _, hmod⟩
          exact ⟨by omega, hl, hmod⟩
      rw [hostRead, if_neg (by omega), htake, hrest, Option.map_some, List.take_append_drop]
  | case2 l h =>
      have hle : l.length ≤ M := by omega
      cases zlp with
      | false =>
          -- A full last packet without an empty one after it is all the host asked for.
          rw [hostRead, if_pos]
          · rfl
          · by_contra hnot
            have hlen : l.length = M := by omega
            have hneed : NeedsZlp M w l :=
              ⟨by omega, List.ne_nil_of_length_pos (by omega), by rw [hlen, Nat.mod_self]⟩
            exact absurd (hz.mpr hneed) Bool.false_ne_true
      | true =>
          obtain ⟨hlt, hne, hmod⟩ := hz.mp rfl
          have hpos : 0 < l.length := List.length_pos_iff.mpr hne
          have hlen : M ≤ l.length := Nat.le_of_dvd hpos (Nat.dvd_of_mod_eq_zero hmod)
          rw [hostRead, if_neg (by omega)]
          simp [hostRead, hM]

end Packets

end Lib
