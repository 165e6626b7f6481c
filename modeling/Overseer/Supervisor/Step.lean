import Overseer.Supervisor.Calls

/-!
# One step of a machine

A step looks at the control and does the next thing.  Whatever may run a callback is cut there: the
caller is put on the stack as a frame, and takes up its work when the value comes back.  So a
callback may do anything, to any depth, and every state in between is a state of the machine.

    pass:      collect, ask the kernel, collect; then the ready watches one by one
    drain:     one read for each step, until the end, an error, or nothing more to read
    deliver:   the events of a handle one by one, each to all its subscribers
    wait:      the loop is pumped until the child is reaped or the deadline is raised

    run n s = some t  only if t is idle;  none when n steps do not suffice
-/

namespace Overseer.Machine

open Supervisor
open Kernel (Stream)
open Os (Failure)

/-! ## Passes -/

def collect (s : Machine) : Machine :=
  let (loop, asked, k) := s.loop.collect s.kernel
  Machine.recordAll { s with loop := loop, kernel := k } (asked.map fun a => .asked a.1 a.2)

/-- The kernel's request to stop reaches the loop it is meant for. -/
def stopFromKernel (s : Machine) : Machine :=
  if s.home then s.quit else { s with strayQuit := true }

/-- A pass up to its first callback. -/
def pass (s : Machine) (mayBlock : Bool) : Machine :=
  let s := s.collect
  let timeout := s.loop.timeout mayBlock s.kernel.now
  let requests := s.loop.requests
  let s := { s with loop := s.loop.forgetFired }
  if requests.isEmpty && timeout.isNone then s.yield (.passed .stalled)
  else
    let ms := timeout.map Loop.timeoutMs
    let (polled, k) := s.kernel.poll (requests.map Prod.snd) ms
    let s := (s.withKernel k).record (.polled requests ms polled)
    match polled with
    | .failed _ => s.yield (.passed .empty)
    | .deadlock => s.stopFromKernel.yield (.passed .empty)
    | .ready revents =>
      let s := Machine.collect { s with loop := s.loop.record ((requests.map Prod.fst).zip revents) }
      match s.loop.readyIds s.kernel.now with
      | [] => s.yield (.passed .empty)
      | ids => s.go (.dispatch ids s.kernel.now false)

/-- The next ready watch of a pass, or the end of the pass. -/
def dispatch (s : Machine) (rest : List Nat) (now : Nat) (ran : Bool) : Machine :=
  match rest with
  | [] => s.yield (.passed (if ran then .dispatched else .empty))
  | id :: rest =>
    match s.loop.take id now with
    | none => s.go (.dispatch rest now ran)
    | some (job, loop) =>
      let s := Machine.record { s with loop := loop } (.started s.kernel.now id job.payload)
      let s := s.push (.dispatch rest now)
      let s := if job.once then s else
        s.push (.settle id (match job.callback with
          | .script x => .script x.next
          | cb => cb))
      s.go (.invoke id job.callback job.payload)

/-- A callback has returned: its watch gets it back, or is forgotten. -/
def settle (s : Machine) (id : Nat) (cb : Callback) (again : Bool) : Machine :=
  let s := s.record (.settled s.kernel.now id again)
  let s := if again then { s with loop := s.loop.restore id s.kernel.now cb }
    else { s with loop := s.loop.erase id }
  s.yield .unit

/-! ## Callbacks -/

/-- Run one call of a script; in the end phase it does nothing. -/
def callScript (s : Machine) (x : Script) : Machine :=
  if s.ending then s.yield (.again false)
  else
    match x.acts with
    | [] => s.yield (.again x.again)
    | op :: rest => (s.push (.acts x.tag rest x.again)).go (.perform op)

def actDone (s : Machine) (tag : String) (rest : List Op) (again : Bool) (a : Answer) : Machine :=
  let s := s.record (.acted tag a)
  match rest with
  | [] => s.yield (.again again)
  | op :: rest => (s.push (.acts tag rest again)).go (.perform op)

def invoke (s : Machine) (id : Nat) (cb : Callback) (payload : Loop.Payload) : Machine :=
  match cb with
  | .script x => (s.record (.called x.tag payload)).callScript x
  | .stream h st generation => s.go (.drain h st generation)
  | .raise => { s with raised := id :: s.raised }.yield (.again false)
  | .detached =>
    match payload with
    | .child pid status => (s.note (.detachedReaped pid status)).yield (.again false)
    | _ => s.yield (.again false)
  | .reap h generation =>
    match payload with
    | .child pid status =>
      if (s.handle h).generation ≠ generation then (s.note (.staleExit pid)).yield (.again false)
      else (s.push (.reapOut h generation pid status)).go (.drain h .out generation)
    | _ => s.yield (.again false)

/-- Both streams are drained: the child of this generation is reaped, if it still runs. -/
def finishReap (s : Machine) (h generation : Nat) (pid : Int) (status : ExitStatus) : Machine :=
  let x := s.handle h
  if x.generation ≠ generation ∨ x.state ≠ .running then s.yield (.again false)
  else
    let s := s.mapHandle h fun x =>
      { x with state := .reaped, status := some status, childWatch := none }
    (s.note (.reaped pid status)).go (.emit h (.reaped status))

/-! ## Streams and events -/

/-- One read of a captured stream. -/
def drain (s : Machine) (h : Nat) (st : Stream) (generation : Nat) : Machine :=
  let x := s.handle h
  if x.generation ≠ generation then s.yield (.again false)
  else
    match x.pipe st with
    | none => s.yield (.again false)
    | some p =>
      let (r, k) := s.kernel.read p.pid st s.config.chunk
      let s := (s.withKernel k).record (.read h generation st r)
      match r with
      | .ok [] => ((s.note (.eof st)).releaseStream h st).yield (.again false)
      | .ok bytes => (s.push (.drained h st generation)).go (.emit h (.chunk st bytes))
      | .error e =>
        if e = Failure.interrupted then s.go (.drain h st generation)
        else if e = Failure.wouldBlock then s.yield (.again true)
        else
          let s := (s.note (.readFailed st (.code e))).releaseStream h st
          (s.push .drainFailed).go (.emit h (.ioError st (.code e)))

/-- Put an event into the outbox; the outermost call delivers it. -/
def emit (s : Machine) (h : Nat) (e : Event) : Machine :=
  let x := s.handle h
  let s := s.record (.emitted h x.generation e)
  if x.emitting then
    (s.mapHandle h fun x => { x with outbox := x.outbox ++ [e] }).yield .unit
  else
    (s.mapHandle h fun x => { x with outbox := x.outbox ++ [e], emitting := true }).go (.deliver h)

/-- Deliver the oldest event of the outbox; the subscribers are put aside meanwhile. -/
def deliver (s : Machine) (h : Nat) : Machine :=
  let x := s.handle h
  match x.outbox with
  | [] => (s.mapHandle h fun x => { x with emitting := false }).yield .unit
  | e :: rest =>
    let s := s.mapHandle h fun x => { x with outbox := rest }
    match x.subscribers with
    | [] =>
      ((s.mapHandle h fun x => { x with queue := x.queue ++ [e] }).record (.queued h e)).go (.deliver h)
    | subs =>
      let s := s.record (.delivering h e subs.length)
      (s.mapHandle h fun x => { x with subscribers := [] }).go (.tell h e [] subs)

/-- Tell the next subscriber; those who came meanwhile stand behind the old ones. -/
def tell (s : Machine) (h : Nat) (e : Event) (done rest : List Subscriber) : Machine :=
  match rest with
  | [] =>
    (s.mapHandle h fun x => { x with subscribers := done ++ x.subscribers }).go (.deliver h)
  | .collector :: rest =>
    Machine.go { s with captured := s.captured.add e } (.tell h e (done ++ [.collector]) rest)
  | .script x :: rest =>
    let s := s.push (.told h e (done ++ [.script x.next]) rest)
    (s.record (.told x.tag e)).callScript x

/-! ## Writing -/

def startWrite (s : Machine) (w : Writing) : Machine :=
  match (s.handle w.h).writable with
  | .error e => s.yield (.wrote (.error e))
  | .ok pid => s.go (.write w pid)

/-- One write of what is left. -/
def write (s : Machine) (w : Writing) (pid : Int) : Machine :=
  if w.rest.isEmpty then s.yield (.wrote (.ok w.written))
  else
    let (r, k) := s.kernel.write pid w.rest
    let s := (s.withKernel k).record (.wrote w.h (s.handle w.h).generation pid w.rest r)
    match r with
    | .ok n => s.go (.write { w with rest := w.rest.drop n, written := w.written + n } pid)
    | .error e =>
      if e = Failure.interrupted then s.go (.write w pid)
      else if e = Failure.wouldBlock then
        let (id, s) := s.addWatch Loop.Priority.normal
          (.io (.input pid) .writable .empty (some .raise))
        s.go (.awaitWritable w id)
      else (s.note (.writeFailed (.code e))).yield (.wrote (.error (.io (.code e))))

/-- Pump the loop until there is room, unless there is a reason to stop. -/
def awaitWritable (s : Machine) (w : Writing) (watch : Nat) : Machine :=
  if s.isRaised watch then (s.lower watch).go (.startWrite w)
  else
    match (s.handle w.h).writable with
    | .error e => (s.removeWatch watch).yield (.wrote (.error e))
    | .ok _ =>
      if w.deadline.any s.isRaised then
        ((s.note (.writeTimedOut w.written)).removeWatch watch).yield
          (.wrote (.error (.timeout w.written)))
      else (s.push (.writing w watch)).go (.pass true)

/-! ## Waiting and disposing -/

def wait (s : Machine) (h timeout : Nat) : Machine :=
  let x := s.handle h
  match x.state with
  | .reaped =>
    s.yield (.waited (match x.status with
      | some st => .ok st
      | none => .error .notRunning))
  | .running =>
    let (id, s) := s.addTimer timeout Loop.Priority.normal .raise
    s.go (.awaitExit h id)
  | _ => s.yield (.waited (.error .notRunning))

/-- The end of a wait: its deadline is forgotten. -/
def endWait (s : Machine) (deadline : Nat) (r : Except WaitError ExitStatus) : Machine :=
  ((s.removeWatch deadline).lower deadline).yield (.waited r)

def awaitExit (s : Machine) (h deadline : Nat) : Machine :=
  let x := s.handle h
  match x.state with
  | .reaped =>
    s.endWait deadline (match x.status with
      | some st => .ok st
      | none => .error .notRunning)
  | .running =>
    if s.isRaised deadline then s.endWait deadline (.error .timeout)
    else (s.push (.waiting h deadline)).go (.pass true)
  | _ => s.endWait deadline (.error .notRunning)

/-- The polite signal, and some time to heed it. -/
def dispose (s : Machine) (h : Nat) : Machine :=
  if (s.handle h).isRunning then
    let (r, s) := s.kill h Signal.term
    let s := match r with
      | .ok _ => s
      | .error e => s.note (.termNotSent e)
    (s.push (.grace h)).go (.wait h s.config.grace)
  else (s.close h).yield .unit

/-- How long a killed child is waited for, in nanoseconds. -/
def killWait : Nat := 200000000

/-- The time is over: a child that still runs is killed. -/
def graceOver (s : Machine) (h : Nat) (r : Except WaitError ExitStatus) : Machine :=
  match r with
  | .ok _ => (s.close h).yield .unit
  | .error _ =>
    let x := s.handle h
    if x.isRunning then
      let s := s.note (.escalating (x.pid.getD 0) s.config.grace)
      let (r, s) := s.kill h Signal.kill
      let s := match r with
        | .ok _ => s
        | .error e => s.note (.killFailed e)
      (s.push (.killed h)).go (.wait h killWait)
    else (s.close h).yield .unit

/-! ## Isolated runs

The one handle of such a machine is the first. -/

def startRun (s : Machine) (spec : RunSpec) : Machine :=
  let started := s.kernel.now
  let (r, execution, s) := s.spawn 0 spec.command spec.plan spec.execError
  match r with
  | .error e => s.yieldAnswer (.report s.kernel.now (.error (.spawn e)) execution)
  | .ok _ =>
    let run : Running := ⟨spec, started, execution⟩
    match spec.payload with
    | none => s.go (.finishInput run false)
    | some payload =>
      let (id, s) := s.addTimer spec.timeout Loop.Priority.normal .raise
      ((s.push (.runWritten run payload.length)).push (.writeDeadline id)).go
        (.startWrite ⟨0, payload, 0, some id⟩)

def trouble (s : Machine) (t : Run.Trouble) : Machine :=
  { s with captured := { s.captured with troubles := s.captured.troubles ++ [t] } }

/-- The payload is written, or is given up; only some failures end the run. -/
def runWritten (s : Machine) (run : Running) (total : Nat) (r : Except WriteError Nat) : Machine :=
  match r with
  | .ok _ => s.go (.finishInput run false)
  | .error .notRunning => s.go (.finishInput run false)
  | .error (.timeout n) => (s.trouble (.undelivered n total)).go (.finishInput run true)
  | .error (.io (.code e)) =>
    if e = Failure.brokenPipe then
      (s.trouble (.brokenInput (.code e))).go (.finishInput run false)
    else (s.push (.runAborted run (.io (.code e)))).go (.dispose 0)
  | .error e => (s.push (.runAborted run e)).go (.dispose 0)

/-- The input ends, and what is left of the time is for the child. -/
def finishInput (s : Machine) (run : Running) (timedOut : Bool) : Machine :=
  let s := s.closeStdin 0
  if timedOut then s.go (.finishWait run (.error .timeout))
  else
    let elapsed := s.kernel.now - run.started
    (s.push (.runWaited run)).go (.wait 0 (run.spec.timeout - elapsed))

def finishWait (s : Machine) (run : Running) (waited : Except WaitError ExitStatus) : Machine :=
  let s := if waited matches .error .timeout then
      s.note (.deadlineExceeded run.spec.command run.spec.timeout)
    else s
  (s.push (.runDisposed run waited)).go (.dispose 0)

def reportOf (s : Machine) (run : Running) (waited : Except WaitError ExitStatus) : Run.Report :=
  { command := run.spec.command.display
    outcome := Run.classify waited s.captured.troubles
    pid := (s.handle 0).pid
    status := waited.toOption
    out := s.captured.out
    err := s.captured.err
    ioErrors := s.captured.troubles.map Run.Trouble.text
    duration := s.kernel.now - run.started }

/-! ## Operations of the user -/

/-- Answer an operation upon a handle. -/
def reply (s : Machine) (h : Nat) (a : Answer) (execution : Option Execution) : Machine :=
  s.yieldAnswer (.ofHandle a (s.handle h).view execution)

/-- A handle in use by a call that waits is let go of when that call ends. -/
def isHeld (s : Machine) (h : Nat) : Bool :=
  s.stack.any fun f =>
    match f with
    | .reply g => g == h
    | _ => false

/-- Put a new watch under a tag. -/
def bind (tag : String) (r : Nat × Machine) : Machine :=
  { r.2 with tags := Command.upsert tag r.1 r.2.tags }.yieldAnswer (.watch r.1)

def withTag (s : Machine) (tag : String) (f : Nat → Machine) : Machine :=
  match Command.look? tag s.tags with
  | none => s.yieldAnswer .nothing
  | some id => f id

/-- The value of an operation upon a handle that runs callbacks goes through a frame. -/
def onHandle (s : Machine) (name : String) (c : Nat → Control) : Machine :=
  let (h, s) := s.resolve name
  (s.push (.reply h)).go (c h)

def perform (s : Machine) (op : Op) : Machine :=
  match op with
  | .idle priority x => bind x.tag (s.addWatch priority (.idle (some (.script x))))
  | .timer interval priority x => bind x.tag (s.addTimer interval priority (.script x))
  | .io fd interest x =>
    bind x.tag (s.addWatch Loop.Priority.normal
      (.io (.named fd) interest .empty (some (.script x))))
  | .childWatch pid priority x => bind x.tag (s.watchChild pid priority (.script x))
  | .remove tag =>
    s.withTag tag fun id => (s.removeWatch id).yieldAnswer (.flag (s.loop.contains id))
  | .contains tag => s.withTag tag fun id => s.yieldAnswer (.flag (s.loop.contains id))
  | .idOf tag => s.withTag tag fun id => s.yieldAnswer (.number id)
  | .size => s.yieldAnswer (.size s.loop.watches.length)
  | .inspectLoop => s.yieldAnswer (.text s.describeLoop)
  | .inspectSupervisor => s.yieldAnswer (.text s.describeSupervisor)
  | .iterate block => (s.push .iterate).go (.pass block)
  | .run => { s with loop := { s.loop with quit := false } }.go .keepRunning
  | .quit => s.quit.yieldAnswer .nothing
  | .spawn name c plan execError =>
    let (h, s) := s.resolve name
    let (r, execution, s) := s.spawn h c plan execError
    s.reply h (.spawned r) execution
  | .write name data => s.onHandle name fun h => .startWrite ⟨h, data, 0, none⟩
  | .writeTimeout name data timeout =>
    let (h, s) := s.resolve name
    let (id, s) := s.addTimer timeout Loop.Priority.normal .raise
    ((s.push (.reply h)).push (.writeDeadline id)).go (.startWrite ⟨h, data, 0, some id⟩)
  | .closeStdin name =>
    let (h, s) := s.resolve name
    (s.closeStdin h).reply h .nothing none
  | .close name =>
    let (h, s) := s.resolve name
    (s.close h).reply h .nothing none
  | .dispose name => s.onHandle name .dispose
  | .wait name timeout => s.onHandle name fun h => .wait h timeout
  | .kill name sig =>
    let (h, s) := s.resolve name
    let (r, s) := s.kill h sig
    s.reply h (.killed r) none
  | .subscribe name x =>
    let (h, s) := s.resolve name
    (s.mapHandle h fun y => { y with subscribers := y.subscribers ++ [.script x] }).reply h .nothing
      none
  | .drain name =>
    let (h, s) := s.resolve name
    (s.mapHandle h fun y => { y with queue := [] }).reply h (.events (s.handle h).queue) none
  | .isRunning name =>
    let (h, s) := s.resolve name
    s.reply h (.flag (s.handle h).isRunning) none
  | .command name =>
    let (h, s) := s.resolve name
    s.reply h (.command (s.handle h).command) none
  | .inspect name =>
    let (h, s) := s.resolve name
    s.reply h (.text (s.describeHandle h)) none
  | .drop name =>
    match Command.look? name s.names with
    | none => s.yieldAnswer (.flag false)
    | some h =>
      let s := { s with names := s.names.filter fun r => r.1 != name }
      if s.isHeld h then
        (s.mapHandle h fun y => { y with orphan := true }).yieldAnswer (.flag true)
      else (s.push (.answer (.flag true))).go (.dispose h)
  | .event e => (s.withKernel (s.kernel.apply e)).yieldAnswer .nothing
  | .schedule time e => (s.withKernel (s.kernel.schedule time e)).yieldAnswer .nothing
  | .advance ns => (s.withKernel (s.kernel.advance ns)).yieldAnswer .nothing
  | .consumed pid =>
    let (b, k) := s.kernel.takeConsumed pid
    (s.withKernel k).yieldAnswer (.bytes b)
  | .isolated spec => s.go (.suspended spec)

/-- Run on until the loop is told to stop. -/
def keepRunning (s : Machine) : Machine :=
  if s.loop.quit then
    { s with loop := { s.loop with quit := false } }.yieldAnswer .nothing
  else (s.push .running).go (.pass true)

/-- A pass of a running loop has ended. -/
def ranOn (s : Machine) : Pass → Machine
  | .stalled => { s with loop := { s.loop with quit := false } }.yieldAnswer .nothing
  | _ => s.go .keepRunning

/-- The last call that holds a dropped handle lets go of it. -/
def answerFor (s : Machine) (h : Nat) (a : Answer) : Machine :=
  let a := Answer.ofHandle a (s.handle h).view none
  if (s.handle h).orphan && !s.isHeld h then
    ((s.mapHandle h fun y => { y with orphan := false }).push (.answer a)).go (.dispose h)
  else s.yieldAnswer a

/-! ## The machine -/

/-- Give a value to the call that waits for it; a frame that expects another kind of value keeps
waiting. -/
def resume (s : Machine) (f : Frame) (v : Value) : Machine :=
  match f, v with
  | .acts tag rest again, .answer a => s.actDone tag rest again a
  | .settle id cb, .again b => s.settle id cb b
  | .dispatch rest now, _ => s.go (.dispatch rest now true)
  | .iterate, .passed p => s.yieldAnswer (.flag (p == .dispatched))
  | .running, .passed p => s.ranOn p
  | .drained h st generation, .unit => s.go (.drain h st generation)
  | .drainFailed, .unit => s.yield (.again false)
  | .reapOut h generation pid status, .again _ =>
    (s.push (.reapErr h generation pid status)).go (.drain h .err generation)
  | .reapErr h generation pid status, .again _ => s.finishReap h generation pid status
  | .told h e done rest, .again _ => s.go (.tell h e done rest)
  | .writing w watch, .passed _ => s.go (.awaitWritable w watch)
  | .writeDeadline deadline, .wrote r =>
    ((s.removeWatch deadline).lower deadline).yield (.wrote r)
  | .waiting h deadline, .passed _ => s.go (.awaitExit h deadline)
  | .grace h, .waited r => s.graceOver h r
  | .killed h, .waited _ => (s.close h).yield .unit
  | .reply h, .wrote r => s.answerFor h (.wrote r)
  | .reply h, .waited r => s.answerFor h (.waited r)
  | .reply h, .unit => s.answerFor h .nothing
  | .answer a, .unit => s.yieldAnswer a
  | .runWritten run total, .wrote r => s.runWritten run total r
  | .runAborted run e, .unit => s.yieldAnswer (.report s.kernel.now (.error (.stdin e)) run.execution)
  | .runWaited run, .waited r => s.finishWait run r
  | .runDisposed run waited, .unit =>
    s.yieldAnswer (.report s.kernel.now (.ok (s.reportOf run waited)) run.execution)
  | _, _ => s.push f

def step (s : Machine) : Machine :=
  match s.control with
  | .value v =>
    match s.stack with
    | [] => s
    | f :: rest => { s with stack := rest }.resume f v
  | .perform op => s.perform op
  | .pass mayBlock => s.pass mayBlock
  | .dispatch rest now ran => s.dispatch rest now ran
  | .invoke id cb payload => s.invoke id cb payload
  | .keepRunning => s.keepRunning
  | .drain h st generation => s.drain h st generation
  | .emit h e => s.emit h e
  | .deliver h => s.deliver h
  | .tell h e done rest => s.tell h e done rest
  | .startWrite w => s.startWrite w
  | .write w pid => s.write w pid
  | .awaitWritable w watch => s.awaitWritable w watch
  | .wait h timeout => s.wait h timeout
  | .awaitExit h deadline => s.awaitExit h deadline
  | .dispose h => s.dispose h
  | .isolated spec => s.startRun spec
  | .finishInput run timedOut => s.finishInput run timedOut
  | .finishWait run waited => s.finishWait run waited
  | .suspended _ => s

/-- Begin an operation on a machine at rest. -/
def start (s : Machine) (op : Op) : Machine := s.go (.perform op)

end Overseer.Machine
