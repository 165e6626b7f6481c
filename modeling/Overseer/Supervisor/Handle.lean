import Overseer.Loop.Pass
import Overseer.Supervisor.Script

/-!
# Handles

A handle owns at most one living child.  Each successful spawn opens a generation; within it the
handle runs, then is reaped, and is closed from either state.

    notStarted → running → reaped → closed          running → closed
-/

namespace Overseer.Supervisor

open Kernel (Stream)

inductive State
  | notStarted
  | running
  | reaped
  | closed
  deriving DecidableEq, Repr

def State.name : State → String
  | notStarted => "not_started"
  | running => "running"
  | reaped => "reaped"
  | closed => "closed"

/-- A captured stream of the child with the watch upon it. -/
structure Pipe where
  pid : Int
  watch : Nat
  deriving DecidableEq, Repr

/-- Who is told of events: a script of the user, or the collector of an isolated run. -/
inductive Subscriber
  | script (s : Script)
  | collector

/-- `stdin` is the child whose input is open; `target` is the pid, negated for a group. -/
structure Handle where
  state : State
  generation : Nat
  pid : Option Int
  target : Int
  status : Option ExitStatus
  command : Option Command
  stdin : Option Int
  out : Option Pipe
  err : Option Pipe
  childWatch : Option Nat
  queue : List Event
  outbox : List Event
  subscribers : List Subscriber
  emitting : Bool
  orphan : Bool

namespace Handle

def fresh : Handle :=
  ⟨.notStarted, 0, none, 0, none, none, none, none, none, none, [], [], [], false, false⟩

def isRunning (h : Handle) : Bool := h.state == .running

def pipe (h : Handle) : Stream → Option Pipe
  | .out => h.out
  | .err => h.err

def dropPipe (h : Handle) : Stream → Handle
  | .out => { h with out := none }
  | .err => { h with err := none }

/-- The child whose input may be written. -/
def writable (h : Handle) : Except WriteError Int :=
  if h.state = .running then
    match h.stdin with
    | some pid => .ok pid
    | none => .error .stdinClosed
  else .error .notRunning

end Handle

/-- What anyone may see of a handle. -/
structure View where
  state : State
  pid : Option Int
  generation : Nat
  status : Option ExitStatus
  deriving DecidableEq, Repr

def Handle.view (h : Handle) : View := ⟨h.state, h.pid, h.generation, h.status⟩

/-- What a loop calls: a script of the user or a part of the supervisor itself. -/
inductive Callback
  | script (s : Script)
  | stream (h : Nat) (s : Stream) (generation : Nat)
  | reap (h : Nat) (generation : Nat)
  | detached
  | raise

/-- How a standard stream of a child is set up. -/
inductive Stdio
  | pipe
  | null
  | inherit
  deriving DecidableEq, Repr

def Stdio.name : Stdio → String
  | pipe => "pipe"
  | null => "null"
  | inherit => "inherit"

def stdinMode (f : Command.Flags) : Stdio :=
  if f.contains Command.Flags.inheritStdin then .inherit
  else if f.contains Command.Flags.stdinFromNull then .null
  else .pipe

def outputMode (f : Command.Flags) (toNull : UInt32) : Stdio :=
  if f.contains toNull then .null else .pipe

/-- What reached the point of being executed. -/
structure Execution where
  program : String
  args : List String
  env : List String
  cwd : Option String
  newGroup : Bool
  stdin : Stdio
  out : Stdio
  err : Stdio
  deriving DecidableEq, Repr

end Overseer.Supervisor
