import Overseer.Supervisor.Machine
import Overseer.Text.Duration

/-!
# What is done at once

These parts of the supervisor run no callback: starting a child, sending a signal, letting go of
pipes, closing.  Each is one step of a machine.

    spawn fails  →  handles and watches are as they were
    close        →  a running child is left to a watch that only collects it
-/

namespace Overseer.Machine

open Supervisor
open Kernel (Stream)
open Os (Failure)

/-- Close a captured stream and drop its watch. -/
def releaseStream (s : Machine) (h : Nat) (st : Stream) : Machine :=
  match (s.handle h).pipe st with
  | none => s
  | some p => (s.mapHandle h fun x => x.dropPipe st).removeWatch p.watch

/-- Close the child's input. -/
def closeStdin (s : Machine) (h : Nat) : Machine :=
  match (s.handle h).stdin with
  | none => s
  | some pid =>
    (s.mapHandle h fun x => { x with stdin := none }).withKernel (s.kernel.closeInput pid)

/-- Send a signal to the child, or to its group; a child that is gone counts as signalled. -/
def kill (s : Machine) (h : Nat) (sig : Int) : Except KillError Unit × Machine :=
  let x := s.handle h
  if x.state ≠ .running then (.error .notRunning, s)
  else if !Signal.isValid sig then (.error (.invalidSignal sig), s)
  else
    let (refusal, k) := s.kernel.kill x.target sig
    let s := (s.withKernel k).record (.signalled x.target sig refusal)
    match refusal with
    | none => (.ok (), s)
    | some e =>
      if e = Failure.noProcess then (.ok (), s)
      else if e = Failure.invalidArgument then (.error (.invalidSignal sig), s)
      else (.error (.permissionDenied (.code e)), s)

/-- Let go of pipes and watches without a signal. -/
def close (s : Machine) (h : Nat) : Machine :=
  let x := s.handle h
  if x.state = .closed ∨ x.state = .notStarted then s
  else
    let s := s.closeStdin h
    let s := s.mapHandle h fun x =>
      { x with state := .closed, out := none, err := none, childWatch := none }
    let watches := x.out.toList.map (·.watch) ++ x.err.toList.map (·.watch) ++ x.childWatch.toList
    let s := watches.foldl removeWatch s
    match x.state, x.pid with
    | .running, some pid => (s.watchChild pid Loop.Priority.normal .detached).2
    | _, _ => s

/-- A name or value that cannot be handed to the kernel. -/
def hasNul (t : String) : Bool := t.toList.any fun c => c.toNat == 0

/-- Byte order of UTF-8, which is the order of the characters. -/
def insertSorted (t : String) : List String → List String
  | [] => [t]
  | u :: r => if decide (t < u) then t :: u :: r else u :: insertSorted t r

def execution (c : Command) (program : String) (environ : List (String × String)) : Execution :=
  { program := Command.resolve program c.flags c.cwd
    args := c.args.tail
    env := (Command.materialize (c.environment environ)).foldr insertSorted []
    cwd := c.cwd
    newGroup := c.flags.contains Command.Flags.newGroup
    stdin := stdinMode c.flags
    out := outputMode c.flags Command.Flags.stdoutToNull
    err := outputMode c.flags Command.Flags.stderrToNull }

def Execution.pipes (e : Execution) : Kernel.Pipes :=
  ⟨e.stdin == .pipe, e.out == .pipe, e.err == .pipe⟩

/-- Make each pipe of a new child non-blocking; a refusal is only noted. -/
def setNonblocking (s : Machine) (pid : Int) : (pipes : Nat) → Machine
  | 0 => s
  | n + 1 =>
    let (refusal, k) := s.kernel.setNonblocking
    let s := s.withKernel k
    let s := match refusal with
      | none => s
      | some e => s.note (.pipeBlocks pid (.code e))
    setNonblocking s pid n

/-- Watch one captured stream of a new child, if it is a pipe. -/
def watchStream (s : Machine) (h generation : Nat) (pid : Int) (st : Stream) (mode : Stdio) :
    Option Pipe × Machine :=
  if mode = .pipe then
    let (id, s) := s.addWatch Loop.Priority.normal
      (.io (.output pid st) .readable .empty (some (.stream h st generation)))
    (some ⟨pid, id⟩, s)
  else (none, s)

/-- Wire a child that has started to its handle and its loop. -/
def adopt (s : Machine) (h : Nat) (c : Command) (e : Execution) (pid : Int) : Machine :=
  let pipes := (if e.stdin = .pipe then 1 else 0) + (if e.out = .pipe then 1 else 0) +
    (if e.err = .pipe then 1 else 0)
  let s := s.setNonblocking pid pipes
  let generation := (s.handle h).generation + 1
  let s := s.mapHandle h fun x =>
    { x with state := .running
             generation := generation
             pid := some pid
             target := if e.newGroup then -pid else pid
             status := none
             stdin := if e.stdin = .pipe then some pid else none }
  let s := s.record (.spawned h generation pid)
  let (out, s) := s.watchStream h generation pid .out e.out
  let (err, s) := s.watchStream h generation pid .err e.err
  let (watch, s) := s.watchChild pid Loop.Priority.normal (.reap h generation)
  let s := s.note (.spawned pid generation c)
  s.mapHandle h fun x =>
    { x with out := out, err := err, childWatch := some watch, command := some c }

/-- Start a command.  The second part of the answer is there when the program was reached. -/
def spawn (s : Machine) (h : Nat) (c : Command) (plan : Kernel.Plan) (execError : Option Int) :
    Except SpawnError Unit × Option Execution × Machine :=
  match c.program? with
  | none => (.error .commandMissing, none, s)
  | some program =>
    let state := (s.handle h).state
    if state = .running ∨ state = .reaped then (.error .alreadyRunning, none, s)
    else
      let e := execution c program s.environ
      let texts := e.program :: c.args ++ e.env ++ e.cwd.toList
      if texts.any hasNul then
        let cause := Failure.refused "nul byte found in provided data"
        (.error (.failed cause), none, s.note (.spawnFailed c cause))
      else
        let s := s.record (.executed e)
        match execError with
        | some n => (.error (.failed (.code n)), some e, s.note (.spawnFailed c (.code n)))
        | none =>
          let (pid, k) := s.kernel.spawn (Execution.pipes e) e.newGroup plan
          (.ok (), some e, (s.withKernel k).adopt h c e pid)

/-! ## Descriptions -/

/-- The pairs of a listing between braces. -/
def census (rows : List (String × Nat)) : String :=
  "\x7b" ++ ", ".intercalate (rows.map fun r => Text.quoted r.1 ++ ": " ++ toString r.2) ++ "\x7d"

def describeLoop (s : Machine) : String :=
  "PollLoop \x7b watches: " ++ census s.loop.census ++ ", next_id: " ++ toString s.loop.lastId ++
    ", child_poll_interval: " ++ Text.durationText s.loop.tick ++ " \x7d"

def describeSupervisor (s : Machine) : String :=
  "ProcessSupervisor \x7b config: SupervisorConfig \x7b dispose_grace: " ++
    Text.durationText s.config.grace ++ ", read_chunk_size: " ++ toString s.config.chunk ++
    ", child_poll_interval: " ++ Text.durationText s.config.tick ++ " \x7d, .. \x7d"

def stateTitle : State → String
  | .notStarted => "NotStarted"
  | .running => "Running"
  | .reaped => "Reaped"
  | .closed => "Closed"

def statusTitle : ExitStatus → String
  | .exited c => "Exited(" ++ toString c ++ ")"
  | .signaled n => "Signaled(" ++ toString n ++ ")"
  | .unknown => "Unknown"

def optionText (o : Option String) : String :=
  match o with
  | none => "None"
  | some t => "Some(" ++ t ++ ")"

def describeHandle (s : Machine) (h : Nat) : String :=
  let x := s.handle h
  "ProcessHandle \x7b state: " ++ stateTitle x.state ++ ", generation: " ++ toString x.generation ++
    ", pid: " ++ optionText (x.pid.map toString) ++ ", exit_status: " ++
    optionText (x.status.map statusTitle) ++ ", .. \x7d"

end Overseer.Machine
