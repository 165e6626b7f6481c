import Overseer.Config
import Overseer.Supervisor.Handle

/-!
# Machines: one loop with its handles

A machine is a loop, the handles on it, the kernel under it, and what is being done just now: a
control, which is the next thing to do or the value just found, and a stack of frames, which are the
calls that wait for that value.  The innermost call is the first frame.  A journal, newest entry
first, records every system call, callback, event and notice.

    idle s  ↔  the control is a value and no frame is left
-/

namespace Overseer.Supervisor

open Kernel (Stream)
open Run (Captured Report)

/-- The answer of one operation. -/
inductive Answer
  | nothing
  | flag (b : Bool)
  | number (n : Nat)
  | watch (id : Nat)
  | size (n : Nat)
  | text (s : String)
  | bytes (b : Option Bytes)
  | events (es : List Event)
  | command (c : Option Command)
  | spawned (r : Except SpawnError Unit)
  | wrote (r : Except WriteError Nat)
  | waited (r : Except WaitError ExitStatus)
  | killed (r : Except KillError Unit)
  | ofHandle (a : Answer) (view : View) (execution : Option Execution)
  | report (time : Nat) (r : Except Run.Error Report) (execution : Option Execution)

/-- How a pass ended: a callback ran, none ran, or nothing could ever become ready. -/
inductive Pass
  | dispatched
  | empty
  | stalled
  deriving DecidableEq, Repr

/-- One thing that happened.  Times are in nanoseconds. -/
inductive Entry
  | noted (time : Nat) (notice : Notice)
  | called (tag : String) (payload : Loop.Payload)
  | told (tag : String) (event : Event)
  | acted (tag : String) (answer : Answer)
  | executed (e : Execution)
  | spawned (h generation : Nat) (pid : Int)
  | asked (pid : Int) (answer : Kernel.Wait)
  | signalled (target signal : Int) (refusal : Option Int)
  | polled (requests : List (Nat × Kernel.Request)) (timeoutMs : Option Nat) (answer : Kernel.Polled)
  | read (h generation : Nat) (stream : Stream) (answer : Except Int Bytes)
  | wrote (h generation : Nat) (pid : Int) (data : Bytes) (answer : Except Int Nat)
  | emitted (h generation : Nat) (event : Event)
  | delivering (h : Nat) (event : Event) (subscribers : Nat)
  | queued (h : Nat) (event : Event)
  | started (time id : Nat) (payload : Loop.Payload)
  | settled (time id : Nat) (again : Bool)
  | added (time id : Nat)
  | removed (id : Nat) (found : Bool)
  | quit

/-- The value of a finished call. -/
inductive Value
  | unit
  | again (b : Bool)
  | passed (p : Pass)
  | wrote (r : Except WriteError Nat)
  | waited (r : Except WaitError ExitStatus)
  | answer (a : Answer)

/-- A write under way: the bytes left, the number written, the watch of its deadline. -/
structure Writing where
  h : Nat
  rest : Bytes
  written : Nat
  deadline : Option Nat
  deriving DecidableEq, Repr

/-- An isolated run under way. -/
structure Running where
  spec : RunSpec
  started : Nat
  execution : Option Execution

/-- What is to be done next. -/
inductive Control
  | value (v : Value)
  | perform (op : Op)
  | pass (mayBlock : Bool)
  | dispatch (rest : List Nat) (now : Nat) (ran : Bool)
  | invoke (id : Nat) (callback : Callback) (payload : Loop.Payload)
  | keepRunning
  | drain (h : Nat) (stream : Stream) (generation : Nat)
  | emit (h : Nat) (event : Event)
  | deliver (h : Nat)
  | tell (h : Nat) (event : Event) (done rest : List Subscriber)
  | startWrite (w : Writing)
  | write (w : Writing) (pid : Int)
  | awaitWritable (w : Writing) (watch : Nat)
  | wait (h : Nat) (timeout : Nat)
  | awaitExit (h : Nat) (deadline : Nat)
  | dispose (h : Nat)
  | isolated (spec : RunSpec)
  | finishInput (r : Running) (timedOut : Bool)
  | finishWait (r : Running) (waited : Except WaitError ExitStatus)
  | suspended (spec : RunSpec)

/-- A call that waits for a value. -/
inductive Frame
  | acts (tag : String) (rest : List Op) (again : Bool)
  | settle (id : Nat) (callback : Callback)
  | dispatch (rest : List Nat) (now : Nat)
  | iterate
  | running
  | drained (h : Nat) (stream : Stream) (generation : Nat)
  | drainFailed
  | reapOut (h generation : Nat) (pid : Int) (status : ExitStatus)
  | reapErr (h generation : Nat) (pid : Int) (status : ExitStatus)
  | told (h : Nat) (event : Event) (done rest : List Subscriber)
  | writing (w : Writing) (watch : Nat)
  | writeDeadline (deadline : Nat)
  | waiting (h : Nat) (deadline : Nat)
  | grace (h : Nat)
  | killed (h : Nat)
  | reply (h : Nat)
  | answer (a : Answer)
  | runWritten (r : Running) (total : Nat)
  | runAborted (r : Running) (cause : WriteError)
  | runWaited (r : Running)
  | runDisposed (r : Running) (waited : Except WaitError ExitStatus)

end Supervisor

/-- `home` tells whether a kernel that can never answer stops this loop, and `strayQuit` records that
it meant another one.  In the end phase callbacks do nothing. -/
structure Machine where
  config : Config
  logging : Bool
  home : Bool
  strayQuit : Bool
  environ : List (String × String)
  kernel : Kernel
  loop : Loop Supervisor.Callback
  handles : List Supervisor.Handle
  names : List (String × Nat)
  tags : List (String × Nat)
  raised : List Nat
  captured : Run.Captured
  ending : Bool
  control : Supervisor.Control
  stack : List Supervisor.Frame
  journal : List Supervisor.Entry

namespace Machine

open Supervisor

/-- A machine at rest, without handles or watches. -/
def fresh (config : Config) (tick : Nat) (environ : List (String × String)) (kernel : Kernel) :
    Machine :=
  { config := config
    logging := true
    home := true
    strayQuit := false
    environ := environ
    kernel := kernel
    loop := .fresh tick
    handles := []
    names := []
    tags := []
    raised := []
    captured := .empty
    ending := false
    control := .value .unit
    stack := []
    journal := [] }

/-- The answer of the last operation, when nothing is being done. -/
def answer? (s : Machine) : Option Answer :=
  match s.control, s.stack with
  | .value (.answer a), [] => some a
  | _, _ => none

def isIdle (s : Machine) : Bool :=
  match s.control, s.stack with
  | .value _, [] => true
  | _, _ => false

/-! ## Small changes -/

def record (s : Machine) (e : Entry) : Machine := { s with journal := e :: s.journal }

def recordAll (s : Machine) (es : List Entry) : Machine := { s with journal := es.reverse ++ s.journal }

def note (s : Machine) (n : Notice) : Machine :=
  if s.logging then s.record (.noted s.kernel.now n) else s

def yield (s : Machine) (v : Value) : Machine := { s with control := .value v }

def yieldAnswer (s : Machine) (a : Answer) : Machine := s.yield (.answer a)

def go (s : Machine) (c : Control) : Machine := { s with control := c }

def push (s : Machine) (f : Frame) : Machine := { s with stack := f :: s.stack }

def withKernel (s : Machine) (k : Kernel) : Machine := { s with kernel := k }

def handle (s : Machine) (h : Nat) : Handle := s.handles.getD h .fresh

def mapHandle (s : Machine) (h : Nat) (f : Handle → Handle) : Machine :=
  { s with handles := s.handles.modify h f }

/-- The handle of a name; an unknown name gets a new one. -/
def resolve (s : Machine) (name : String) : Nat × Machine :=
  match Command.look? name s.names with
  | some h => (h, s)
  | none =>
    (s.handles.length,
      { s with handles := s.handles ++ [.fresh], names := s.names ++ [(name, s.handles.length)] })

def isRaised (s : Machine) (id : Nat) : Bool := s.raised.contains id

/-- The mark of a deadline is used once. -/
def lower (s : Machine) (id : Nat) : Machine := { s with raised := s.raised.filter (· != id) }

/-- Register a watch. -/
def addWatch (s : Machine) (priority : Loop.Priority) (source : Loop.Source Callback) : Nat × Machine :=
  let (id, loop) := s.loop.insert priority source
  (id, { s with loop := loop }.record (.added s.kernel.now id))

/-- Forget a watch; whether it was there is recorded. -/
def removeWatch (s : Machine) (id : Nat) : Machine :=
  { s with loop := s.loop.erase id }.record (.removed id (s.loop.contains id))

def watchChild (s : Machine) (pid : Int) (priority : Loop.Priority) (cb : Callback) : Nat × Machine :=
  s.addWatch priority (.child pid (s.kernel.deathFd pid) none cb)

def addTimer (s : Machine) (interval : Nat) (priority : Loop.Priority) (cb : Callback) :
    Nat × Machine :=
  s.addWatch priority (.timer interval (s.kernel.now + interval) (some cb))

def quit (s : Machine) : Machine :=
  { s with loop := { s.loop with quit := true } }.record .quit

end Machine

end Overseer
