import Mathlib.Data.List.Basic

/-!
# Logs and their past

Properties of a growing log, oldest entry first. `Each R` says that every entry
is in relation `R` to the log before it; `Since p q` that some entry satisfies
`q` and every later one satisfies `p`. Each has one rule, for a log that grows
by an entry.
-/

namespace Lib.Trace

variable {C : Type}

/-- Every entry `c` of the log stands in `R` to the entries before it. -/
def Each (R : List C → C → Prop) (l : List C) : Prop :=
  ∀ pre c post, l = pre ++ c :: post → R pre c

/-- Some entry satisfies `q`, and all entries after it satisfy `p`. -/
def Since (p q : C → Prop) (l : List C) : Prop :=
  ∃ pre c post, l = pre ++ c :: post ∧ q c ∧ ∀ d ∈ post, p d

/-- Where an entry of a grown log lies. -/
theorem snoc_eq_split {l pre post : List C} {c d : C} (h : l ++ [d] = pre ++ c :: post) :
    (pre = l ∧ c = d ∧ post = []) ∨ ∃ post', post = post' ++ [d] ∧ l = pre ++ c :: post' := by
  rcases List.eq_nil_or_concat post with rfl | ⟨post', e, rfl⟩
  · obtain ⟨hl, hd⟩ := List.append_inj' h rfl
    exact .inl ⟨hl.symm, (List.singleton_inj.mp hd).symm, rfl⟩
  · have h' : l ++ [d] = (pre ++ c :: post') ++ [e] := by simpa using h
    obtain ⟨hl, hd⟩ := List.append_inj' h' rfl
    obtain rfl := List.singleton_inj.mp hd
    exact .inr ⟨post', by simp, hl⟩

theorem each_nil (R : List C → C → Prop) : Each R [] := by
  intro pre c post h
  simp at h

theorem each_snoc {R : List C → C → Prop} {l : List C} {d : C} :
    Each R (l ++ [d]) ↔ Each R l ∧ R l d := by
  constructor
  · intro h
    refine ⟨fun pre c post heq => h pre c (post ++ [d]) (by rw [heq]; simp), ?_⟩
    exact h l d [] rfl
  · rintro ⟨hl, hd⟩ pre c post heq
    rcases snoc_eq_split heq with ⟨rfl, rfl, -⟩ | ⟨post', -, hpre⟩
    · exact hd
    · exact hl pre c post' hpre

theorem since_snoc {p q : C → Prop} {l : List C} {d : C} :
    Since p q (l ++ [d]) ↔ q d ∨ Since p q l ∧ p d := by
  constructor
  · rintro ⟨pre, c, post, heq, hc, hpost⟩
    rcases snoc_eq_split heq with ⟨-, rfl, -⟩ | ⟨post', rfl, hpre⟩
    · exact .inl hc
    · refine .inr ⟨⟨pre, c, post', hpre, hc, fun e he => hpost e ?_⟩, hpost d ?_⟩
      · exact List.mem_append_left _ he
      · exact List.mem_append_right _ (List.mem_singleton.mpr rfl)
  · rintro (hd | ⟨⟨pre, c, post, rfl, hc, hpost⟩, hd⟩)
    · exact ⟨l, d, [], rfl, hd, by simp⟩
    · refine ⟨pre, c, post ++ [d], by simp, hc, fun e he => ?_⟩
      rcases List.mem_append.mp he with he | he
      · exact hpost e he
      · rw [List.mem_singleton.mp he]
        exact hd

/-- An entry that satisfies `p` keeps what held since. -/
theorem Since.snoc {p q : C → Prop} {l : List C} {d : C} (h : Since p q l) (hd : p d) :
    Since p q (l ++ [d]) :=
  since_snoc.mpr (.inr ⟨h, hd⟩)

theorem Since.now {p q : C → Prop} (l : List C) {d : C} (hd : q d) : Since p q (l ++ [d]) :=
  since_snoc.mpr (.inl hd)

end Lib.Trace
