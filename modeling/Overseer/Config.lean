import Overseer.Text.Blank
import Overseer.Text.Number
import Overseer.Word

/-!
# Tunables of supervision

`grace` is the patience between the polite and the forced end of a child, `chunk` the size of one
read from a captured stream, `tick` the pace of looking for dead children where the kernel gives no
descriptor for them.  Durations are in nanoseconds.  Each may be set by a variable; a value that is no
positive number is ignored.

    ofLookup look = default, with each field that a variable sets to a positive number
-/

namespace Overseer

structure Config where
  grace : Nat
  chunk : Nat
  tick : Nat
  deriving DecidableEq, Repr

namespace Config

def maxChunk : Nat := 1048576

def standard : Config := ⟨2000000000, 4096, 10000000⟩

/-- A positive number below 2^64. -/
def readPositive (raw : String) : Option Nat :=
  match Text.readNat? (Text.trim raw) with
  | some n => if n = 0 ∨ Word.size64 ≤ n then none else some n
  | none => none

/-- A duration of a positive number of milliseconds. -/
def readMillis (raw : String) : Option Nat := (readPositive raw).map (1000000 * ·)

/-- A positive number of bytes, cut down to the largest chunk. -/
def readChunk (raw : String) : Option Nat := (readPositive raw).map (min · maxChunk)

def withChunk (c : Config) (n : Nat) : Config := { c with chunk := max 1 (min n maxChunk) }

def graceVariable : String := "WARDEN_DISPOSE_GRACE_MS"

def chunkVariable : String := "WARDEN_READ_CHUNK"

def tickVariable : String := "WARDEN_CHILD_POLL_MS"

/-- The standard tunables, overridden by the variables that `look` knows. -/
def ofLookup (look : String → Option String) : Config :=
  { grace := ((look graceVariable).bind readMillis).getD standard.grace
    chunk := ((look chunkVariable).bind readChunk).getD standard.chunk
    tick := ((look tickVariable).bind readMillis).getD standard.tick }

/-! ## Lemmas -/

theorem readChunk_le {raw : String} {n : Nat} (h : readChunk raw = some n) : n ≤ maxChunk := by
  unfold readChunk at h
  obtain ⟨m, -, rfl⟩ := Option.map_eq_some_iff.1 h
  exact Nat.min_le_right _ _

end Config

end Overseer
