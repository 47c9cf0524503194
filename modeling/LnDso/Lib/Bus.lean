import Mathlib.Data.List.Basic

/-!
# A bus with a data/command line

A driver of such a bus is a list of operations on it; what they do is up to the
bus. Two buses that step by step stay in a relation stay in it over every list.
-/

namespace Lib

/-- An operation on the bus. -/
inductive BusOp (B : Type)
  /-- The line goes to command. -/
  | cmd
  /-- The line goes to data. -/
  | dat
  | write (b : B)
deriving DecidableEq

/-- What the operations do to a state. -/
structure Bus (B S : Type) where
  cmd : S → S
  dat : S → S
  write : B → S → S

namespace Bus

variable {B S T : Type}

def step (A : Bus B S) (s : S) : BusOp B → S
  | .cmd => A.cmd s
  | .dat => A.dat s
  | .write b => A.write b s

def run (A : Bus B S) (ops : List (BusOp B)) (s : S) : S := ops.foldl A.step s

@[simp] theorem run_nil (A : Bus B S) (s : S) : A.run [] s = s := rfl

@[simp] theorem run_cons (A : Bus B S) (op : BusOp B) (ops : List (BusOp B)) (s : S) :
    A.run (op :: ops) s = A.run ops (A.step s op) := rfl

theorem run_append (A : Bus B S) (ops ops' : List (BusOp B)) (s : S) :
    A.run (ops ++ ops') s = A.run ops' (A.run ops s) := List.foldl_append

/-- A relation between the states of two buses that each operation keeps. -/
structure Sim (A : Bus B S) (C : Bus B T) (R : S → T → Prop) : Prop where
  cmd : ∀ {s t}, R s t → R (A.cmd s) (C.cmd t)
  dat : ∀ {s t}, R s t → R (A.dat s) (C.dat t)
  write : ∀ {s t} (b : B), R s t → R (A.write b s) (C.write b t)

theorem Sim.run {A : Bus B S} {C : Bus B T} {R : S → T → Prop} (h : Sim A C R) {s : S} {t : T}
    (hst : R s t) (ops : List (BusOp B)) : R (A.run ops s) (C.run ops t) := by
  induction ops generalizing s t with
  | nil => exact hst
  | cons op ops ih =>
      cases op with
      | cmd => exact ih (h.cmd hst)
      | dat => exact ih (h.dat hst)
      | write b => exact ih (h.write b hst)

/-! ## What comes over the bus -/

/-- The line, and the bytes written so far, each with the line as it was. -/
structure Sent (B : Type) where
  dat : Bool
  sent : List (Bool × B)

/-- The bus that records. -/
def recorder : Bus B (Sent B) where
  cmd s := { s with dat := false }
  dat s := { s with dat := true }
  write b s := { s with sent := s.sent ++ [(s.dat, b)] }

/-- The bytes that `ops` write, the line being at `dat` before. -/
def bytes : (dat : Bool) → List (BusOp B) → List (Bool × B)
  | _, [] => []
  | _, .cmd :: ops => bytes false ops
  | _, .dat :: ops => bytes true ops
  | dat, .write b :: ops => (dat, b) :: bytes dat ops

/-- Where `ops` leave the line. -/
def line : (dat : Bool) → List (BusOp B) → Bool
  | dat, [] => dat
  | _, .cmd :: ops => line false ops
  | _, .dat :: ops => line true ops
  | dat, .write _ :: ops => line dat ops

theorem recorder_run (ops : List (BusOp B)) (s : Sent B) :
    recorder.run ops s = ⟨line s.dat ops, s.sent ++ bytes s.dat ops⟩ := by
  induction ops generalizing s with
  | nil => simp [line, bytes]
  | cons op ops ih =>
      cases op with
      | write b => rw [run_cons, ih, step, recorder, bytes, line, List.append_assoc, List.singleton_append]
      | cmd => rw [run_cons, ih, step, recorder, bytes, line]
      | dat => rw [run_cons, ih, step, recorder, bytes, line]

theorem line_append (dat : Bool) (ops ops' : List (BusOp B)) :
    line dat (ops ++ ops') = line (line dat ops) ops' := by
  have h := recorder_run (ops ++ ops') ⟨dat, []⟩
  rw [run_append, recorder_run, recorder_run] at h
  exact (congrArg Sent.dat h).symm

theorem bytes_append (dat : Bool) (ops ops' : List (BusOp B)) :
    bytes dat (ops ++ ops') = bytes dat ops ++ bytes (line dat ops) ops' := by
  have h := recorder_run (ops ++ ops') ⟨dat, []⟩
  rw [run_append, recorder_run, recorder_run] at h
  have hsent := congrArg Sent.sent h
  simpa using hsent.symm

end Bus

end Lib
