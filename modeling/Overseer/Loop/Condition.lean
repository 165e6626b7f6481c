/-!
# Readiness of a descriptor

A condition is a set of six bits.  A poll request carries only the three that may be asked for; the
kernel reports the other three unasked.

    text c = the names of the bits of c joined by a bar, or "none"
    ofRevents r keeps from r the six bits that have a meaning
-/

namespace Overseer.Loop

structure Condition where
  bits : UInt16
  deriving DecidableEq, Repr

namespace Condition

def empty : Condition := ⟨0⟩

def readable : Condition := ⟨1⟩

def writable : Condition := ⟨2⟩

def priority : Condition := ⟨4⟩

def error : Condition := ⟨8⟩

def hangup : Condition := ⟨16⟩

def invalid : Condition := ⟨32⟩

/-- The bits with their names, in the order in which they are written. -/
def named : List (Condition × String) :=
  [(readable, "in"), (writable, "out"), (priority, "pri"), (error, "err"), (hangup, "hup"),
   (invalid, "nval")]

def isEmpty (c : Condition) : Bool := c.bits == 0

/-- All bits of `d` are set in `c`. -/
def contains (c d : Condition) : Bool := c.bits &&& d.bits == d.bits

/-- Some bit of `d` is set in `c`. -/
def intersects (c d : Condition) : Bool := c.bits &&& d.bits != 0

def union (c d : Condition) : Condition := ⟨c.bits ||| d.bits⟩

/-- The set of the bits that are named; other names are passed over. -/
def ofNames (names : List String) : Condition :=
  (named.filter fun r => names.contains r.2).foldl (fun c r => c.union r.1) empty

def text (c : Condition) : String :=
  match (named.filter fun r => c.contains r.1).map (·.2) with
  | [] => "none"
  | names => "|".intercalate names

/-! ## Poll masks -/

def pollIn : UInt16 := 1

def pollPri : UInt16 := 2

def pollOut : UInt16 := 4

def pollErr : UInt16 := 8

def pollHup : UInt16 := 16

def pollNval : UInt16 := 32

/-- Reported whether or not they are asked for. -/
def pollUnasked : UInt16 := pollErr ||| pollHup ||| pollNval

/-- Each bit with its place in a poll mask. -/
def places : List (Condition × UInt16) :=
  [(readable, pollIn), (writable, pollOut), (priority, pollPri), (error, pollErr),
   (hangup, pollHup), (invalid, pollNval)]

/-- The mask to ask for; error, hangup and invalid need no asking. -/
def pollMask (c : Condition) : UInt16 :=
  ((places.take 3).filter fun r => c.contains r.1).foldl (fun m r => m ||| r.2) 0

/-- The condition that a poll has reported. -/
def ofRevents (r : UInt16) : Condition :=
  (places.filter fun p => r &&& p.2 != 0).foldl (fun c p => c.union p.1) empty

end Condition

end Overseer.Loop
