import Mathlib.Data.List.Basic

/-!
# Event-driven transition systems

A deterministic system that answers events one at a time. The rules here are
the induction principles every development over such a system uses: inductive
invariants, invariants of runs whose steps all meet a condition, and relations
kept by two runs in lockstep.
-/

namespace Lib

/-- A deterministic transition system over states `S` and events `E`. -/
structure TSys (S E : Type) where
  init : S → Prop
  step : S → E → S

namespace TSys

variable {S E : Type} (M : TSys S E)

/-- The state after a finite sequence of events. -/
def run (s : S) (es : List E) : S := es.foldl M.step s

@[simp] theorem run_nil (s : S) : M.run s [] = s := rfl

@[simp] theorem run_cons (s : S) (e : E) (es : List E) :
    M.run s (e :: es) = M.run (M.step s e) es := rfl

theorem run_append (s : S) (es es' : List E) :
    M.run s (es ++ es') = M.run (M.run s es) es' :=
  List.foldl_append

theorem run_snoc (s : S) (es : List E) (e : E) :
    M.run s (es ++ [e]) = M.step (M.run s es) e := by
  rw [run_append]; rfl

/-- States reached from an initial state by some sequence of events. -/
inductive Reachable : S → Prop
  | init {s} : M.init s → Reachable s
  | step {s} (e : E) : Reachable s → Reachable (M.step s e)

theorem Reachable.run {s : S} (h : M.Reachable s) (es : List E) :
    M.Reachable (M.run s es) := by
  induction es generalizing s with
  | nil => exact h
  | cons e es ih => exact ih (h.step e)

/-- `P` holds in every reachable state. -/
def Invariant (P : S → Prop) : Prop := ∀ s, M.Reachable s → P s

/-- `P` holds initially and is kept by every step. -/
structure Inductive (P : S → Prop) : Prop where
  init : ∀ s, M.init s → P s
  step : ∀ s e, P s → P (M.step s e)

theorem Inductive.invariant {M : TSys S E} {P : S → Prop} (h : M.Inductive P) :
    M.Invariant P := by
  intro s hs
  induction hs with
  | init hi => exact h.init _ hi
  | step e _ ih => exact h.step _ e ih

/-- A property every step keeps is kept by every run, from any state. -/
theorem run_preserves {P : S → Prop} (hstep : ∀ s e, P s → P (M.step s e))
    {s : S} (hs : P s) (es : List E) : P (M.run s es) := by
  induction es generalizing s with
  | nil => exact hs
  | cons e es ih => exact ih (hstep s e hs)

/-- An account of the events, kept in step with the state. -/
theorem run_account {A : Type} {R : A → S → Prop} (next : A → E → A)
    (hstep : ∀ a s e, R a s → R (next a e) (M.step s e)) {a : A} {s : S} (h : R a s)
    (es : List E) : R (es.foldl next a) (M.run s es) := by
  induction es generalizing a s with
  | nil => exact h
  | cons e es ih => exact ih (hstep a s e h)

/-! ## Runs without end -/

/-- The state before event `n` of an endless run. -/
def before (s : S) (es : Nat → E) (n : Nat) : S := M.run s ((List.range n).map es)

@[simp] theorem before_zero (s : S) (es : Nat → E) : M.before s es 0 = s := rfl

theorem before_succ (s : S) (es : Nat → E) (n : Nat) :
    M.before s es (n + 1) = M.step (M.before s es n) (es n) := by
  rw [before, List.range_succ, List.map_append, List.map_singleton, run_snoc]
  rfl

/-! ## Runs whose steps all meet a condition -/

/-- Every step of the run from `s` meets `C`, a condition on the event and the
state before it. -/
def Admits (C : S → E → Prop) : S → List E → Prop
  | _, [] => True
  | s, e :: es => C s e ∧ Admits C (M.step s e) es

theorem Admits.preserves {C : S → E → Prop} {P : S → Prop}
    (hstep : ∀ s e, C s e → P s → P (M.step s e)) {s : S} (hs : P s) {es : List E}
    (h : M.Admits C s es) : P (M.run s es) := by
  induction es generalizing s with
  | nil => exact hs
  | cons e es ih => exact ih (hstep s e h.1 hs) h.2

/-- Conditions that agree in every reachable state admit the same runs. -/
theorem Reachable.admits_congr {M : TSys S E} {C D : S → E → Prop}
    (hCD : ∀ s, M.Reachable s → ∀ e, C s e ↔ D s e) {s : S} (hs : M.Reachable s) (es : List E) :
    M.Admits C s es ↔ M.Admits D s es := by
  induction es generalizing s with
  | nil => exact Iff.rfl
  | cons e es ih => exact and_congr (hCD s hs e) (ih (hs.step e))

/-! ## Idle events -/

/-- The events `es'` are `es` with idle events put in, each before another event. -/
inductive Padded (idle : S → E → Prop) : S → List E → List E → Prop
  | nil {s : S} : Padded idle s [] []
  | cons {s : S} (e : E) {es es' : List E} :
      Padded idle (M.step s e) es es' → Padded idle s (e :: es) (e :: es')
  | idle {s : S} {e e' : E} {es es' : List E} :
      idle s e' → Padded idle s (e :: es) es' → Padded idle s (e :: es) (e' :: es')

theorem Padded.refl {idle : S → E → Prop} (s : S) (es : List E) : M.Padded idle s es es := by
  induction es generalizing s with
  | nil => exact .nil
  | cons e es ih => exact .cons e (ih (M.step s e))

/-- Idle events that change no state of `P` change no run from one. -/
theorem Padded.run {idle : S → E → Prop} {P : S → Prop} (hstep : ∀ s e, P s → P (M.step s e))
    (hidle : ∀ s e, P s → idle s e → M.step s e = s) {s : S} (hs : P s) {es es' : List E}
    (h : M.Padded idle s es es') : M.run s es' = M.run s es := by
  induction h with
  | nil => rfl
  | cons e _ ih => exact ih (hstep _ e hs)
  | @idle s e e' _ _ he _ ih =>
      rw [run_cons, hidle s e' hs he]
      exact ih hs

/-! ## Two runs in lockstep -/

/-- The system of two runs on the same events. -/
def pair : TSys (S × S) E where
  init p := M.init p.1 ∧ M.init p.2
  step p e := (M.step p.1 e, M.step p.2 e)

theorem run_pair (s t : S) (es : List E) : M.pair.run (s, t) es = (M.run s es, M.run t es) := by
  induction es generalizing s t with
  | nil => rfl
  | cons e es ih => exact ih (M.step s e) (M.step t e)

/-- A relation that every common event meeting `C` keeps is kept by every common
run whose events all meet it. -/
theorem Admits.lockstep {C : S × S → E → Prop} {R : S → S → Prop}
    (hstep : ∀ s t e, C (s, t) e → R s t → R (M.step s e) (M.step t e))
    {s t : S} (h : R s t) {es : List E} (hC : M.pair.Admits C (s, t) es) :
    R (M.run s es) (M.run t es) := by
  have hpair := Admits.preserves M.pair (P := fun p => R p.1 p.2)
    (fun p e hp hR => hstep p.1 p.2 e hp hR) h hC
  rw [run_pair] at hpair
  exact hpair

/-- The rule where the condition is never in the way. -/
theorem run_lockstep {R : S → S → Prop} (hstep : ∀ s t e, R s t → R (M.step s e) (M.step t e))
    {s t : S} (h : R s t) (es : List E) : R (M.run s es) (M.run t es) := by
  induction es generalizing s t with
  | nil => exact h
  | cons e es ih => exact ih (hstep s t e h)

end TSys

end Lib
