import LnDso.Lib.TSys

/-!
# Straight code among events

A processor executes a list of instructions one by one while events change the state
between them; an instruction that waits is tried again until it executes. An outline
has an assertion for each instruction. If the events keep the assertions and each
instruction leads from its own to the next, they hold in every run, whatever comes
between.
-/

namespace Lib

/-- Instructions and events over states `S`. -/
structure Core (S I E : Type) where
  /-- What an instruction does, none while it waits. -/
  exec : I → S → Option S
  event : E → S → S

/-- The instructions that are left, and the state. -/
structure Code (S I : Type) where
  todo : List I
  state : S

namespace Core

variable {S I E : Type} (M : Core S I E)

/-- A turn of the processor. -/
def turn (c : Code S I) : Code S I :=
  match c.todo with
  | [] => c
  | i :: is => ((M.exec i c.state).map (Code.mk is)).getD c

theorem turn_waits {i : I} {is : List I} {s : S} (h : M.exec i s = none) :
    M.turn ⟨i :: is, s⟩ = ⟨i :: is, s⟩ := by
  show ((M.exec i s).map (Code.mk is)).getD _ = _
  rw [h]
  rfl

theorem turn_executes {i : I} {is : List I} {s s' : S} (h : M.exec i s = some s') :
    M.turn ⟨i :: is, s⟩ = ⟨is, s'⟩ := by
  show ((M.exec i s).map (Code.mk is)).getD _ = _
  rw [h]
  rfl

/-- The processor at work on the instructions `is`. The event `none` is its turn. -/
def system (is : List I) (P : S → Prop) : TSys (Code S I) (Option E) where
  init c := c.todo = is ∧ P c.state
  step c
    | none => M.turn c
    | some e => { c with state := M.event e c.state }

/-- The events keep `P`. -/
def Stable (P : S → Prop) : Prop := ∀ e s, P s → P (M.event e s)

/-- The state after some events. -/
def after (es : List E) (s : S) : S := es.foldl (fun s e => M.event e s) s

/-- What holds before an instruction, and what the rest needs for its end to be
reached. -/
structure Assertion (S : Type) where
  holds : S → Prop
  ready : S → Prop

/-- An outline of instructions from `a` on, up to `b`. The events keep what the
assertions say, and that gives `G`; each instruction leads from its assertion to the
next; and no instruction waits for what events cannot bring, if there is `V`. -/
inductive Outline (G V : S → Prop) (b : Assertion S) : List I → Assertion S → Prop
  | nil : M.Stable b.holds → (∀ s, b.holds s → G s) → Outline G V b [] b
  | cons {i : I} {is : List I} {a a' : Assertion S} :
      M.Stable a.holds → (∀ s, a.holds s → G s) → (∀ s, V s → a.ready s) →
      (∀ s s', a.holds s → M.exec i s = some s' → a'.holds s') →
      (∀ s, a.holds s → a.ready s → ∃ es s', M.exec i (M.after es s) = some s' ∧ a'.ready s') →
      Outline G V b is a' → Outline G V b (i :: is) a

namespace Outline

variable {M} {G V : S → Prop} {a b : Assertion S} {is : List I} {c : Code S I} {s : S}

theorem stable (h : M.Outline G V b is a) : M.Stable a.holds := by
  cases h with
  | nil hstable _ => exact hstable
  | cons hstable _ _ _ _ _ => exact hstable

theorem good (h : M.Outline G V b is a) (hs : a.holds s) : G s := by
  cases h with
  | nil _ hgood => exact hgood s hs
  | cons _ hgood _ _ _ _ => exact hgood s hs

theorem ready (h : M.Outline G V b is a) (hs : V s) : is = [] ∨ a.ready s := by
  cases h with
  | nil _ _ => exact .inl rfl
  | cons _ _ hready _ _ _ => exact .inr (hready s hs)

theorem after_holds (h : M.Stable a.holds) (es : List E) (hs : a.holds s) :
    a.holds (M.after es s) := by
  induction es generalizing s with
  | nil => exact hs
  | cons e es ih => exact ih (h e s hs)

/-- The code stands in an outline: the assertion before what is left holds. -/
def Stands (M : Core S I E) (G V : S → Prop) (b : Assertion S) (c : Code S I) : Prop :=
  ∃ a, M.Outline G V b c.todo a ∧ a.holds c.state

theorem Stands.step (h : Stands M G V b c) (is : List I) (P : S → Prop) (e : Option E) :
    Stands M G V b ((M.system is P).step c e) := by
  obtain ⟨a, houtline, ha⟩ := h
  cases e with
  | some e => exact ⟨a, houtline, houtline.stable e _ ha⟩
  | none =>
      obtain ⟨todo, s⟩ := c
      cases houtline with
      | nil hstable hgood => exact ⟨b, .nil hstable hgood, ha⟩
      | @cons i is _ a' hstable hgood hready hexec hwakes hrest =>
          show Stands M G V b (M.turn ⟨i :: is, s⟩)
          cases hs : M.exec i s with
          | none =>
              rw [M.turn_waits hs]
              -- it waits: the code has not moved
              exact ⟨a, .cons hstable hgood hready hexec hwakes hrest, ha⟩
          | some s' =>
              rw [M.turn_executes hs]
              exact ⟨a', hrest, hexec s s' ha hs⟩

theorem Stands.run (h : Stands M G V b c) (is : List I) (P : S → Prop) (es : List (Option E)) :
    Stands M G V b ((M.system is P).run c es) :=
  (M.system is P).run_preserves (fun _ e hc => hc.step is P e) h es

/-- Events alone leave the instructions. -/
theorem run_events (is : List I) (P : S → Prop) (c : Code S I) (es : List E) :
    (M.system is P).run c (es.map some) = { c with state := M.after es c.state } := by
  induction es generalizing c with
  | nil => rfl
  | cons e es ih => exact ih _

/-- The end can be reached. -/
theorem finishes (h : M.Outline G V b is a) (hs : a.holds s) (hready : a.ready s) (all : List I)
    (P : S → Prop) : ∃ es, ((M.system all P).run ⟨is, s⟩ es).todo = [] := by
  induction h generalizing s with
  | nil _ _ => exact ⟨[], rfl⟩
  | @cons i is a a' hstable hgood _ hexec hwakes hrest ih =>
      -- the events that wake the instruction, then the instruction, then the rest
      obtain ⟨es, s', hs', hready'⟩ := hwakes s hs hready
      obtain ⟨es', hend⟩ := ih (hexec _ s' (after_holds hstable es hs) hs') hready'
      refine ⟨es.map some ++ none :: es', ?_⟩
      rw [TSys.run_append, run_events, TSys.run_cons]
      show ((M.system all P).run (M.turn ⟨i :: is, _⟩) es').todo = []
      rw [M.turn_executes hs']
      exact hend

/-- In every run `G` holds; at the end the last assertion holds; and the end can be
reached where there is `V`. -/
theorem sound (h : M.Outline G V b is a) (hs : a.holds s) (P : S → Prop) (es : List (Option E)) :
    let c := (M.system is P).run ⟨is, s⟩ es
    G c.state ∧ (c.todo = [] → b.holds c.state) ∧
      (V c.state → ∃ es', ((M.system is P).run c es').todo = []) := by
  intro c
  have hstands : Stands M G V b c := Stands.run ⟨a, h, hs⟩ is P es
  obtain ⟨a', houtline, ha'⟩ := hstands
  refine ⟨houtline.good ha', fun hend => ?_, fun hV => ?_⟩
  · rw [hend] at houtline
    cases houtline with
    | nil _ _ => exact ha'
  · rcases houtline.ready hV with hend | hready
    · exact ⟨[], hend⟩
    · exact houtline.finishes ha' hready is P

end Outline

end Core

end Lib
