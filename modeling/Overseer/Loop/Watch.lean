import Overseer.ExitStatus
import Overseer.Kernel.Basic

/-!
# Watches and their registry

A watch has a number, a priority and a source: a descriptor, a child, a timer or idle work.  Its
callback stands in a slot that is empty while the callback runs; a child's callback runs once, so it
has no slot.  Numbers are given in increasing order and never twice, and the registry keeps the
watches in that order.

    insert:  id = last + 1,  watches' = watches ++ [watch id]
    remove:  watches' = the watches whose number is not id
-/

namespace Overseer.Loop

open Kernel (Fd)

/-- Lower numbers are more urgent. -/
abbrev Priority := Int

namespace Priority

def high : Priority := -100

def normal : Priority := 0

def highIdle : Priority := 100

def normalIdle : Priority := 200

def low : Priority := 300

end Priority

/-- What a watch waits for; `κ` is the type of callbacks.  Times are in nanoseconds. -/
inductive Source (κ : Type)
  | io (fd : Fd) (interest fired : Condition) (slot : Option κ)
  | child (pid : Int) (hasFd : Bool) (status : Option ExitStatus) (callback : κ)
  | timer (interval deadline : Nat) (slot : Option κ)
  | idle (slot : Option κ)

structure Watch (κ : Type) where
  id : Nat
  priority : Priority
  source : Source κ

/-- The text of a watch's number. -/
def watchText (id : Nat) : String := "watch#" ++ toString id

end Loop

/-- A loop: the last number given, the watches, the request to stop, the pace of looking for dead
children in nanoseconds. -/
structure Loop (κ : Type) where
  lastId : Nat
  watches : List (Loop.Watch κ)
  quit : Bool
  tick : Nat

namespace Loop

variable {κ : Type}

/-- The pace is at least a millisecond. -/
def fresh (tick : Nat) : Loop κ := ⟨0, [], false, max tick 1000000⟩

def find? (l : Loop κ) (id : Nat) : Option (Watch κ) := l.watches.find? fun w => w.id == id

def contains (l : Loop κ) (id : Nat) : Bool := (l.find? id).isSome

def insert (l : Loop κ) (priority : Priority) (source : Source κ) : Nat × Loop κ :=
  (l.lastId + 1,
    { l with lastId := l.lastId + 1
             watches := l.watches ++ [⟨l.lastId + 1, priority, source⟩] })

/-- Forget a watch. -/
def erase (l : Loop κ) (id : Nat) : Loop κ :=
  { l with watches := l.watches.filter fun w => w.id != id }

/-- Change the source of one watch. -/
def modify (l : Loop κ) (id : Nat) (f : Source κ → Source κ) : Loop κ :=
  { l with watches := l.watches.map fun w => if w.id == id then { w with source := f w.source } else w }

def Source.kind : Source κ → String
  | .io .. => "io"
  | .child .. => "child"
  | .timer .. => "timer"
  | .idle .. => "idle"

/-- Watches of each kind that occurs, in the order of the kinds' names. -/
def census (l : Loop κ) : List (String × Nat) :=
  (["child", "idle", "io", "timer"].map fun k =>
    (k, (l.watches.filter fun w => w.source.kind == k).length)).filter fun r => r.2 != 0

/-! ## Lemmas -/

@[simp] theorem lastId_erase (l : Loop κ) (id : Nat) : (l.erase id).lastId = l.lastId := rfl

@[simp] theorem lastId_modify (l : Loop κ) (id : Nat) (f : Source κ → Source κ) :
    (l.modify id f).lastId = l.lastId := rfl

theorem mem_erase {l : Loop κ} {id : Nat} {w : Watch κ} :
    w ∈ (l.erase id).watches ↔ w ∈ l.watches ∧ w.id ≠ id := by
  simp [erase]

end Loop

end Overseer
