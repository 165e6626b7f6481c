import Overseer.Kernel.Basic

/-!
# Waiting for descriptors

A poll applies what is due, lets the children tend their input, and looks at every descriptor.  If
one is ready, or the time is up, it answers; else the clock moves to the next event or to the end of
the time, whichever comes first.  With nothing ready, nothing planned and no end of the time, no
answer can ever come.

A poll may also be interrupted, fail or return early, with any report and after any part of its time:
that is how a poll goes whose end is queued.

    poll ≤ n ms:   now ≤ now' ≤ now + 1000000 n
-/

namespace Overseer.Kernel

open Loop (Condition)

/-- A descriptor with the mask of what is asked of it. -/
structure Request where
  fd : Fd
  mask : UInt16
  deriving DecidableEq, Repr

/-- The bits that hold of a descriptor now; one that the parent has closed is invalid. -/
def levels (k : Kernel) : Fd → UInt16
  | .input pid =>
    match k.child? pid with
    | none => 0
    | some c =>
      match c.input with
      | none => 0
      | some i =>
        if !i.parentOpen then Condition.pollNval
        else if !i.childOpen then Condition.pollOut ||| Condition.pollErr
        else if i.buffer.length < c.habits.capacity then Condition.pollOut
        else 0
  | .output pid s =>
    match (k.child? pid).bind fun c => c.stream s with
    | none => 0
    | some o =>
      (if !o.buffer.isEmpty || !k.faults.read.isEmpty then Condition.pollIn else 0) |||
        (if o.writerOpen then 0 else Condition.pollHup)
  | .death pid =>
    match k.child? pid with
    | none => 0
    | some c => if c.isRunning then 0 else Condition.pollIn
  | .named name =>
    match k.standing.find? fun r => r.1 == name with
    | none => 0
    | some r => r.2

/-- What a poll reports of one descriptor. -/
def revents (k : Kernel) (r : Request) : UInt16 :=
  k.levels r.fd &&& (r.mask ||| Condition.pollUnasked)

inductive Polled
  | failed (code : Int)
  | ready (revents : List UInt16)
  | deadlock
  deriving DecidableEq, Repr

def PollEnd.slept : PollEnd → Nat
  | fails slept _ => slept
  | reports slept _ => slept

def PollEnd.answer : PollEnd → Polled
  | fails _ code => .failed code
  | reports _ revents => .ready revents

/-- When the clock may next have to stop. -/
def nextStop (k : Kernel) (deadline : Option Nat) : Option Nat :=
  match k.agenda, deadline with
  | [], d => d
  | (t, _) :: _, none => some t
  | (t, _) :: _, some d => some (min t d)

def isOver (k : Kernel) : Option Nat → Bool
  | none => false
  | some d => d ≤ k.now

/-- Each round but the last applies an event of the agenda, so its length bounds the rounds. -/
def awaitReady : (fuel : Nat) → List Request → (deadline : Option Nat) → Kernel → Polled × Kernel
  | 0, rs, _, k => (.ready (rs.map k.revents), k)
  | fuel + 1, rs, deadline, k =>
    let k := k.due.tend
    let seen := rs.map k.revents
    if seen.any (· != 0) || k.isOver deadline then (.ready seen, k)
    else match k.nextStop deadline with
      | none => (.deadlock, k)
      | some t => awaitReady fuel rs deadline { k with now := max k.now t }

/-- Sleep for so long, whatever happens meanwhile; in no time nothing happens. -/
def sleep (k : Kernel) (ns : Nat) : Kernel :=
  if ns = 0 then k else (awaitReady (k.agenda.length + 2) [] (some (k.now + ns)) k).2

/-- How long a poll sleeps that would sleep for `slept`, but is given no more than its time. -/
def sleepTime (slept : Nat) : (timeoutMs : Option Nat) → Nat
  | none => slept
  | some ms => min slept (1000000 * ms)

/-- Wait up to `timeoutMs` milliseconds, or without end. -/
def poll (k : Kernel) (rs : List Request) (timeoutMs : Option Nat) : Polled × Kernel :=
  match k.pollEnds with
  | e :: later => (e.answer, { k with pollEnds := later }.sleep (sleepTime e.slept timeoutMs))
  | [] => awaitReady (k.agenda.length + 2) rs (timeoutMs.map fun ms => k.now + 1000000 * ms) k

end Overseer.Kernel
