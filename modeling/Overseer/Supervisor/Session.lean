import Overseer.Supervisor.Step

/-!
# Sessions

A session is a machine, and perhaps one isolated run that it waits for.  The isolated run has a loop
and a handle of its own; kernel, clock and journal are those of the session.

    run n s = some t    n steps bring the session to rest at t
    run n s = none      n steps do not suffice
-/

namespace Overseer

open Supervisor

/-- A machine set up for one isolated run, on the kernel of another machine. -/
def Machine.forRun (outer : Machine) (spec : RunSpec) : Machine :=
  { Machine.fresh outer.config outer.config.tick outer.environ outer.kernel with
    logging := spec.logged
    home := false
    handles := [{ Handle.fresh with subscribers := [.collector] }]
    control := .isolated spec
    journal := outer.journal }

structure Session where
  outer : Machine
  inner : Option Machine

namespace Session

def fresh (s : Machine) : Session := ⟨s, none⟩

/-- The machine goes on with the answer, the kernel and the journal of the isolated run. -/
def rejoin (outer inner : Machine) (a : Answer) : Machine :=
  { outer with
    kernel := inner.kernel
    journal := inner.journal
    loop := { outer.loop with quit := outer.loop.quit || inner.strayQuit }
    control := .value (.answer a) }

def step (s : Session) : Session :=
  match s.inner with
  | some inner =>
    match inner.answer? with
    | some a => ⟨rejoin s.outer inner a, none⟩
    | none => ⟨s.outer, some inner.step⟩
  | none =>
    match s.outer.control with
    | .suspended spec => ⟨s.outer, some (s.outer.forRun spec)⟩
    | _ => ⟨s.outer.step, none⟩

def isIdle (s : Session) : Bool := s.inner.isNone && s.outer.isIdle

/-- Step until the session is at rest, for at most `fuel` steps. -/
def run : (fuel : Nat) → Session → Option Session
  | 0, s => if s.isIdle then some s else none
  | fuel + 1, s => if s.isIdle then some s else run fuel s.step

/-- Carry out one operation on a session at rest. -/
def perform (fuel : Nat) (s : Session) (op : Op) : Option Session :=
  run fuel { s with outer := s.outer.start op }

/-- The answer of the last operation. -/
def answer (s : Session) : Answer := s.outer.answer?.getD .nothing

/-! ## The end phase -/

/-- A name in front of those that are not less. -/
def insertName (n : String) : List String → List String
  | [] => [n]
  | m :: r => if decide (n ≤ m) then n :: m :: r else m :: insertName n r

/-- The names of the handles that are left, in their order. -/
def names (s : Session) : List String := (s.outer.names.map (·.1)).foldr insertName []

/-- Drop the named handles; callbacks do nothing any more. -/
def dropAll (fuel : Nat) : List String → Session → Option Session
  | [], s => some s
  | n :: r, s => (s.perform fuel (.drop n)).bind (dropAll fuel r)

def finish (fuel : Nat) (s : Session) : Option Session :=
  let s := { s with outer := { s.outer with ending := true } }
  dropAll fuel s.names s

/-! ## Lemmas -/

/-- A run that ends, ends at rest. -/
theorem isIdle_of_run {n : Nat} {s t : Session} (h : run n s = some t) : t.isIdle = true := by
  induction n generalizing s with
  | zero =>
    unfold run at h
    split at h
    · next hs => cases h; exact hs
    · simp at h
  | succ n ih =>
    unfold run at h
    split at h
    · next hs => cases h; exact hs
    · exact ih h

end Session

end Overseer
