import Overseer.Kernel.Child
import Overseer.Loop.Condition

/-!
# A kernel in virtual time

The kernel holds a clock in nanoseconds, the children in the order of their pids, and an agenda of
events.  The clock moves only while a poll waits and by an explicit advance.  Each system call first
takes a fault from its own queue, if there is one, and fails with it; a poll takes from its queue how
it is to end, and after how long.

    due k      = every event of the agenda up to now, applied by time, then by order of scheduling
    waitpid    : running → not yet,  zombie raw → raw and gone,  gone or unknown → no such child
    kill t s   : a zombie or a child that ignores s is left alone, any other dies of s
-/

namespace Overseer.Kernel

/-- A descriptor: an end of a child's pipe, a child's death, or a named file. -/
inductive Fd
  | input (pid : Int)
  | output (pid : Int) (stream : Stream)
  | death (pid : Int)
  | named (name : String)
  deriving DecidableEq, Repr

/-- The calls that can be made to fail. -/
inductive Call
  | read
  | write
  | waitpid
  | kill
  | fcntl
  deriving DecidableEq, Repr

/-- What happens to one child. -/
inductive ChildEvent
  | emit (stream : Stream) (data : Bytes)
  | close (stream : Stream)
  | consume (n : Nat)
  | closeInput
  | exit (raw : Int) (kept : List Stream)
  | change (habits : HabitChange)
  deriving DecidableEq, Repr

/-- How a poll ends that does not end by itself: after this time, in nanoseconds, or at the end of its
own time if that is earlier, it fails with a code or reports these bits of its descriptors. -/
inductive PollEnd
  | fails (slept : Nat) (code : Int)
  | reports (slept : Nat) (revents : List UInt16)
  deriving DecidableEq, Repr

inductive Event
  | child (pid : Int) (e : ChildEvent)
  | standing (fd : String) (revents : UInt16)
  | addChild (pid : Int)
  | deathFds (on : Bool)
  | fault (call : Call) (codes : List Int)
  | pollEnds (ends : List PollEnd)
  deriving DecidableEq, Repr

/-- The event with another child in the place of its own. -/
def Event.retarget (pid : Int) : Event → Event
  | child _ e => child pid e
  | e => e

/-- Queued results of the next calls of each kind. -/
structure Faults where
  read : List Int
  write : List Int
  waitpid : List Int
  kill : List Int
  fcntl : List Int
  deriving DecidableEq, Repr

namespace Faults

def none : Faults := ⟨[], [], [], [], []⟩

def queue (f : Faults) : Call → List Int
  | .read => f.read
  | .write => f.write
  | .waitpid => f.waitpid
  | .kill => f.kill
  | .fcntl => f.fcntl

def setQueue (f : Faults) (c : Call) (q : List Int) : Faults :=
  match c with
  | .read => { f with read := q }
  | .write => { f with write := q }
  | .waitpid => { f with waitpid := q }
  | .kill => { f with kill := q }
  | .fcntl => { f with fcntl := q }

end Faults

end Kernel

structure Kernel where
  now : Nat
  children : List Kernel.Child
  agenda : List (Nat × Kernel.Event)
  faults : Kernel.Faults
  pollEnds : List Kernel.PollEnd
  standing : List (String × UInt16)
  deathFds : Bool
  nextPid : Int
  deriving DecidableEq, Repr

namespace Kernel

/-- No children, nothing planned, and pids from 4001. -/
def fresh (deathFds : Bool) : Kernel := ⟨0, [], [], .none, [], [], deathFds, 4001⟩

def child? (k : Kernel) (pid : Int) : Option Child := k.children.find? fun c => c.pid == pid

def mapChild (k : Kernel) (pid : Int) (f : Child → Child) : Kernel :=
  { k with children := k.children.map fun c => if c.pid == pid then f c else c }

/-- Children stand in the order of their pids; a pid stands for its latest child. -/
def putChild (c : Child) : List Child → List Child
  | [] => [c]
  | d :: r =>
    if c.pid < d.pid then c :: d :: r
    else if c.pid = d.pid then c :: r
    else d :: putChild c r

def addChild (k : Kernel) (c : Child) : Kernel := { k with children := putChild c k.children }

/-- Put an event behind those of the same time. -/
def scheduleAt (time : Nat) (e : Event) : List (Nat × Event) → List (Nat × Event)
  | [] => [(time, e)]
  | (t, x) :: r => if time < t then (time, e) :: (t, x) :: r else (t, x) :: scheduleAt time e r

def schedule (k : Kernel) (time : Nat) (e : Event) : Kernel :=
  { k with agenda := scheduleAt time e k.agenda }

/-! ## Events -/

def Child.apply (c : Child) : ChildEvent → Child
  | .emit s data => c.emit s data
  | .close s => c.closeStream s
  | .consume n => c.consume n
  | .closeInput => c.closeInput
  | .exit raw kept => c.die raw kept
  | .change d => { c with habits := c.habits.change d }

/-- A child without pipes. -/
def stranger (pid : Int) : Child := ⟨pid, .running, false, .standard, none, none, none, []⟩

def setStanding (fd : String) (r : UInt16) : List (String × UInt16) → List (String × UInt16)
  | [] => [(fd, r)]
  | (f, x) :: rest => if f = fd then (f, r) :: rest else (f, x) :: setStanding fd r rest

def apply (k : Kernel) : Event → Kernel
  | .child pid e => k.mapChild pid fun c => c.apply e
  | .standing fd r => { k with standing := setStanding fd r k.standing }
  | .addChild pid => k.addChild (stranger pid)
  | .deathFds on => { k with deathFds := on }
  | .fault c codes => { k with faults := k.faults.setQueue c (k.faults.queue c ++ codes) }
  | .pollEnds ends => { k with pollEnds := k.pollEnds ++ ends }

/-- Apply the events of an agenda that are due, in order, and give back the others. -/
def applyDue (k : Kernel) : List (Nat × Event) → Kernel
  | [] => { k with agenda := [] }
  | (t, e) :: r => if t ≤ k.now then applyDue (k.apply e) r else { k with agenda := (t, e) :: r }

def due (k : Kernel) : Kernel := applyDue k k.agenda

/-- The children that handle their own input do so. -/
def tend (k : Kernel) : Kernel := { k with children := k.children.map Child.tend }

/-! ## System calls -/

/-- Take the next fault queued for a call. -/
def fault (k : Kernel) (c : Call) : Option Int × Kernel :=
  match k.faults.queue c with
  | [] => (none, k)
  | e :: q => (some e, { k with faults := k.faults.setQueue c q })

/-- Read up to `size` bytes of a captured stream; no bytes mean its end. -/
def read (k : Kernel) (pid : Int) (s : Stream) (size : Nat) : Except Int Bytes × Kernel :=
  match k.fault .read with
  | (some e, k) => (.error e, k)
  | (none, k) =>
    match (k.child? pid).bind fun c => c.stream s with
    | none => (.error 9, k)
    | some o =>
      if o.buffer.isEmpty then (if o.writerOpen then .error 11 else .ok [], k)
      else (.ok (o.buffer.take size),
        k.mapChild pid fun c => c.mapStream s fun o => { o with buffer := o.buffer.drop size })

/-- Write to the input of a child, and say how many bytes there was room for. -/
def write (k : Kernel) (pid : Int) (data : Bytes) : Except Int Nat × Kernel :=
  match k.fault .write with
  | (some e, k) => (.error e, k)
  | (none, k) =>
    match k.child? pid with
    | none => (.error 9, k)
    | some c =>
      match c.input with
      | none => (.error 9, k)
      | some i =>
        if !i.childOpen then (.error 32, k)
        else
          let room := c.habits.capacity - i.buffer.length
          if room = 0 then (.error 11, k)
          else
            let part := data.take room
            (.ok part.length, k.mapChild pid fun c =>
              { c with input := c.input.map fun i => { i with buffer := i.buffer ++ part } })

/-- The parent closes its end of a child's input. -/
def closeInput (k : Kernel) (pid : Int) : Kernel :=
  k.mapChild pid fun c => { c with input := c.input.map fun i => { i with parentOpen := false } }

/-- What is known of a child that was asked for. -/
inductive Wait
  | running
  | ended (raw : Int)
  | failed (code : Int)
  deriving DecidableEq, Repr

/-- Collect a dead child. -/
def waitpid (k : Kernel) (pid : Int) : Wait × Kernel :=
  match k.fault .waitpid with
  | (some e, k) => (.failed e, k)
  | (none, k) =>
    match k.child? pid with
    | none => (.failed 10, k)
    | some c =>
      match c.life with
      | .running => (.running, k)
      | .zombie raw => (.ended raw, k.mapChild pid fun c => { c with life := .reaped })
      | .reaped => (.failed 10, k)

/-- A negative target addresses a process group by its leader. -/
def kill (k : Kernel) (target sig : Int) : Option Int × Kernel :=
  match k.fault .kill with
  | (some e, k) => (some e, k)
  | (none, k) =>
    match k.child? target.natAbs with
    | none => (some 3, k)
    | some c =>
      if c.life = .reaped ∨ (target < 0 ∧ c.leader = false) then (some 3, k)
      else if !c.isRunning || (sig != Signal.kill && c.habits.ignored.contains sig) then (none, k)
      else if sig = Signal.kill ∨ c.habits.delay = 0 then
        (none, k.mapChild c.pid fun c => c.die sig [])
      else
        (none, k.schedule (k.now + c.habits.delay) (.child c.pid (.exit sig [])))

/-- Whether a descriptor for the death of a child can be had. -/
def deathFd (k : Kernel) (pid : Int) : Bool :=
  k.deathFds && match k.child? pid with
    | none => false
    | some c => c.life != .reaped

/-- Make a pipe non-blocking: ask for its flags, then set them if need be. -/
def setNonblocking (k : Kernel) : Option Int × Kernel :=
  match k.fault .fcntl with
  | (some e, k) =>
    if e = -1 then (none, k)
    else if e = 0 then
      match k.fault .fcntl with
      | (some e, k) => (if e = 0 ∨ e = -1 then none else some e, k)
      | (none, k) => (none, k)
    else (some e, k)
  | (none, k) => (none, k)

/-- Which of the three standard streams of a new child are pipes. -/
structure Pipes where
  input : Bool
  out : Bool
  err : Bool
  deriving DecidableEq, Repr

/-- A new child's habits, and what it will do, in nanoseconds after its start. -/
structure Plan where
  habits : Habits
  events : List (Nat × Event)
  deriving DecidableEq, Repr

/-- A child is started, and its plan is put on the agenda. -/
def spawn (k : Kernel) (pipes : Pipes) (leader : Bool) (plan : Plan) : Int × Kernel :=
  let pid := k.nextPid
  let output : Output := ⟨[], true⟩
  let c : Child :=
    { pid := pid
      life := .running
      leader := leader
      habits := plan.habits
      input := if pipes.input then some ⟨[], true, true⟩ else none
      out := if pipes.out then some output else none
      err := if pipes.err then some output else none
      consumed := [] }
  let k := { k with nextPid := pid + 1 }.addChild c
  (pid, plan.events.foldl
    (fun k e => k.schedule (k.now + e.1) (e.2.retarget pid)) k)

def advance (k : Kernel) (ns : Nat) : Kernel := { k with now := k.now + ns }

/-- What a child has read since this was last asked. -/
def takeConsumed (k : Kernel) (pid : Int) : Option Bytes × Kernel :=
  match k.child? pid with
  | none => (none, k)
  | some c => (some c.consumed, k.mapChild pid fun c => { c with consumed := [] })

end Kernel

end Overseer
