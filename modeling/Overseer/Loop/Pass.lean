import Overseer.Kernel.Poll
import Overseer.Loop.Watch

/-!
# The stages of a pass

A pass collects the dead children, asks the kernel about every descriptor that a watch needs, and
collects again; then it runs, at the most urgent priority that is ready, the watches in the order of
their numbers.

    requests  = one request for each descriptor watch that has its callback, and for each living
                child with a descriptor
    timeout   = the least of: 0 for idle work and for a child already collected, the pace for a child
                without a descriptor, the time left for a timer; none if there is none of these
    readyIds  = the ready watches whose priority is the least among the ready ones
-/

namespace Overseer.Loop

open Kernel (Request Wait)

variable {κ : Type}

/-! ## Collecting children -/

/-- Ask for a child again and again while the question is interrupted; each question asked is
recorded with its answer. -/
def askChild : (fuel : Nat) → Kernel → Int → List Wait × Kernel
  | 0, k, _ => ([], k)
  | fuel + 1, k, pid =>
    match k.waitpid pid with
    | (.failed 4, k) =>
      let (rest, k) := askChild fuel k pid
      (.failed 4 :: rest, k)
    | (w, k) => ([w], k)

/-- What an answer says of the child's end; a child that is not ours ended in an unknown way. -/
def statusOf : Wait → Option ExitStatus
  | .running => none
  | .ended raw => some (.ofWait raw)
  | .failed _ => some .unknown

/-- The end of a child, if it has ended, after as many questions as it takes. -/
def reap (k : Kernel) (pid : Int) : Option ExitStatus × List Wait × Kernel :=
  let (asked, k) := askChild (k.faults.waitpid.length + 1) k pid
  (asked.getLast?.bind statusOf, asked, k)

/-- Collect the dead among some watches; the questions are recorded by child. -/
def collectIn : List (Watch κ) → Kernel → List (Watch κ) × List (Int × Wait) × Kernel
  | [], k => ([], [], k)
  | w :: r, k =>
    match w.source with
    | .child pid hasFd none callback =>
      let (status, asked, k) := reap k pid
      let source := match status with
        | none => .child pid hasFd none callback
        | some st => .child pid false (some st) callback
      let (r, more, k) := collectIn r k
      ({ w with source := source } :: r, asked.map (fun a => (pid, a)) ++ more, k)
    | _ =>
      let (r, more, k) := collectIn r k
      (w :: r, more, k)

def collect (l : Loop κ) (k : Kernel) : Loop κ × List (Int × Wait) × Kernel :=
  let (ws, asked, k) := collectIn l.watches k
  ({ l with watches := ws }, asked, k)

/-! ## What to wait for -/

/-- The descriptor that a watch has to be told about. -/
def Watch.request? (w : Watch κ) : Option (Nat × Request) :=
  match w.source with
  | .io fd interest _ (some _) => some (w.id, ⟨fd, interest.pollMask⟩)
  | .child pid true none _ => some (w.id, ⟨.death pid, Condition.pollIn⟩)
  | _ => none

def requests (l : Loop κ) : List (Nat × Request) := l.watches.filterMap Watch.request?

/-- How long a watch lets the loop sleep, in nanoseconds; nothing if it sets no limit. -/
def Watch.limit? (w : Watch κ) (tick now : Nat) : Option Nat :=
  match w.source with
  | .idle (some _) => some 0
  | .child _ _ (some _) _ => some 0
  | .child _ false none _ => some tick
  | .timer _ deadline (some _) => some (deadline - now)
  | _ => none

def shorten (a b : Option Nat) : Option Nat :=
  match a, b with
  | none, b => b
  | a, none => a
  | some x, some y => some (min x y)

/-- The sleep that no watch forbids; a pass that may not block does not sleep. -/
def timeout (l : Loop κ) (mayBlock : Bool) (now : Nat) : Option Nat :=
  (l.watches.map fun w => w.limit? l.tick now).foldl shorten (if mayBlock then none else some 0)

def maxTimeoutMs : Nat := 2147483647

/-- Nanoseconds in whole milliseconds, rounded up. -/
def timeoutMs (ns : Nat) : Nat := min ((ns + 999999) / 1000000) maxTimeoutMs

/-- Old readiness is forgotten before the kernel is asked. -/
def forgetFired (l : Loop κ) : Loop κ :=
  { l with watches := l.watches.map fun w =>
      match w.source with
      | .io fd interest _ (some cb) => { w with source := .io fd interest .empty (some cb) }
      | _ => w }

/-- Write the reported readiness of one descriptor into its watch. -/
def recordOne (l : Loop κ) (id : Nat) (revents : UInt16) : Loop κ :=
  if revents = 0 then l
  else l.modify id fun s =>
    match s with
    | .io fd interest _ slot => .io fd interest (.ofRevents revents) slot
    | s => s

def record (l : Loop κ) (reported : List (Nat × UInt16)) : Loop κ :=
  reported.foldl (fun l r => l.recordOne r.1 r.2) l

/-! ## What to run -/

def Source.isReady (s : Source κ) (now : Nat) : Bool :=
  match s with
  | .io _ _ fired (some _) => !fired.isEmpty
  | .child _ _ status _ => status.isSome
  | .timer _ deadline (some _) => decide (deadline ≤ now)
  | .idle (some _) => true
  | _ => false

def readyWatches (l : Loop κ) (now : Nat) : List (Watch κ) :=
  l.watches.filter fun w => w.source.isReady now

def bestPriority (ws : List (Watch κ)) : Option Priority := (ws.map (·.priority)).min?

/-- The numbers of the watches to run in this pass. -/
def readyIds (l : Loop κ) (now : Nat) : List Nat :=
  let ready := l.readyWatches now
  match bestPriority ready with
  | none => []
  | some best => (ready.filter fun w => w.priority == best).map (·.id)

/-- What a callback is told. -/
inductive Payload
  | none
  | io (condition : Condition)
  | child (pid : Int) (status : ExitStatus)
  deriving DecidableEq, Repr

/-- A callback taken out of its watch for one call; `once` is the mark of a child's callback. -/
structure Job (κ : Type) where
  callback : κ
  payload : Payload
  once : Bool

/-- Take the callback of a watch that is still ready; a child's watch goes with it. -/
def take (l : Loop κ) (id now : Nat) : Option (Job κ × Loop κ) :=
  match l.find? id with
  | none => none
  | some w =>
    if w.source.isReady now then
      match w.source with
      | .io fd interest fired (some cb) =>
        some (⟨cb, .io fired, false⟩, l.modify id fun _ => .io fd interest .empty none)
      | .child pid _ status cb =>
        some (⟨cb, .child pid (status.getD .unknown), true⟩, l.erase id)
      | .timer interval deadline (some cb) =>
        some (⟨cb, .none, false⟩, l.modify id fun _ => .timer interval deadline none)
      | .idle (some cb) => some (⟨cb, .none, false⟩, l.modify id fun _ => .idle none)
      | _ => none
    else none

/-- Put a callback back, a timer's for one more interval from now. -/
def restore (l : Loop κ) (id now : Nat) (cb : κ) : Loop κ :=
  l.modify id fun s =>
    match s with
    | .io fd interest fired _ => .io fd interest fired (some cb)
    | .timer interval _ _ => .timer interval (now + interval) (some cb)
    | .idle _ => .idle (some cb)
    | s => s

end Overseer.Loop
