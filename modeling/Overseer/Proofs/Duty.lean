import Overseer.Proofs.Effect
import Overseer.Proofs.Outline

/-!
# Duties of the calls under way

What a machine has still to do for its watches and children stands in its control and its frames.
A stage is a machine with these duties, the innermost first, and with the event that is to be put
into an outbox next.

    restore id cb  :  the watch id gets its callback back, or is forgotten
    ring id        :  the mark of the deadline id is to be set
    clear id       :  the watch id of a call that waits is to be forgotten
    drain h st g   :  the stream st of generation g of handle h is to be read on
    reap x left    :  the exit x is to be handed over, after the streams left
    verdict b      :  a callback has returned b
    hear           :  somebody waits for a callback to return

A deed is one thing done in a step, with what it does to the duties:

    mild                               nothing that a duty is about changes
    turned                             only the duties change
    stirred                            a watch is registered, lent out, given back or forgotten
    adopted, closed, reaped            a handle enters another state
    read, finished, emitted, handed    a stream is read, an event passes on
-/

namespace Overseer

open Supervisor
open Kernel (Stream)
open Os (Failure)
open Relation (ReflTransGen)

namespace Supervisor

inductive Duty
  | restore (id : Nat) (callback : Callback)
  | ring (id : Nat)
  | clear (id : Nat)
  | drain (h : Nat) (stream : Stream) (generation : Nat)
  | reap (x : Reaping) (left : List Stream)
  | verdict (again : Bool)
  | hear
  | commence

/-- Duties to which a callback that returns gives way. -/
def Duty.isHearing : Duty → Bool
  | reap .. => true
  | hear => true
  | _ => false

/-- The watches that a duty may forget or restore. -/
def Duty.held : Duty → List Nat
  | restore id _ => [id]
  | clear id => [id]
  | _ => []

def Duty.reapings : Duty → List Reaping
  | reap x _ => [x]
  | _ => []

/-- The callback after one call. -/
def Callback.next : Callback → Callback
  | script x => script x.next
  | cb => cb

/-- What is to be done by a callback that is called for the watch `id`. -/
def Callback.duties (id : Nat) (payload : Loop.Payload) : Callback → List Duty
  | raise => [.ring id]
  | stream h st g => [.drain h st g]
  | reap h g =>
    match payload with
    | .child pid status => [.reap ⟨h, g, pid, status⟩ [.out, .err]]
    | _ => []
  | _ => []

def Control.duties : Control → List Duty
  | value (.again b) => [.verdict b]
  | invoke id cb payload => cb.duties id payload
  | drain h st g => [.drain h st g]
  | awaitWritable _ watch => [.clear watch]
  | awaitExit _ deadline => [.clear deadline]
  | isolated _ => [.commence]
  | _ => []

def Frame.duties : Frame → List Duty
  | settle id cb => [.restore id cb]
  | dispatch .. => [.hear]
  | told .. => [.hear]
  | drained h st g => [.drain h st g]
  | drainFailed => [.verdict false]
  | reapOut h g pid st => [.reap ⟨h, g, pid, st⟩ [.err]]
  | reapErr h g pid st => [.reap ⟨h, g, pid, st⟩ []]
  | writing _ watch => [.clear watch]
  | writeDeadline deadline => [.clear deadline]
  | waiting _ deadline => [.clear deadline]
  | _ => []

/-- The event that is put into the outbox of a handle next. -/
def Control.due : Control → Option (Nat × Event)
  | emit h e => some (h, e)
  | _ => none

/-- After this answer of a read the stream is let go of: it has ended, or it has failed. -/
def readEnds : Except Int Bytes → Bool
  | .ok bytes => bytes.isEmpty
  | .error e => e != Failure.interrupted && e != Failure.wouldBlock

/-- What the subscribers are told of this answer of a read. -/
def readSays (st : Stream) : Except Int Bytes → Option Event
  | .ok bytes => if bytes.isEmpty then none else some (.chunk st bytes)
  | .error e =>
    if e = Failure.interrupted ∨ e = Failure.wouldBlock then none else some (.ioError st (.code e))

/-- What is left to do after this answer of a read that does not end the stream. -/
def readLeaves (h : Nat) (st : Stream) (g : Nat) : Except Int Bytes → Duty
  | .ok _ => .drain h st g
  | .error e => if e = Failure.interrupted then .drain h st g else .verdict true

/-- Entries that tell of no child, stream, event or watch. -/
def Entry.isMere : Entry → Bool
  | noted .. => true
  | called .. => true
  | told .. => true
  | acted .. => true
  | executed .. => true
  | polled .. => true
  | wrote .. => true
  | added .. => true
  | quit => true
  | _ => false

end Supervisor

/-- A machine in the middle of a step, with its duties and the event that is due. -/
structure Stage where
  machine : Machine
  duties : List Duty
  due : Option (Nat × Event)

def Stage.scene (σ : Stage) : Scene :=
  ⟨σ.machine, σ.duties.flatMap Duty.held, σ.duties.flatMap Duty.reapings⟩

namespace Machine

/-- The duties of the calls that wait. -/
def below (s : Machine) : List Duty := s.stack.flatMap Frame.duties

/-- The stage between two steps. -/
def stage (s : Machine) : Stage := ⟨s, s.control.duties ++ s.below, s.control.due⟩

/-- The next step registers a watch of the user. -/
def registers (s : Machine) : Bool :=
  match s.control with
  | .perform (.idle ..) => true
  | .perform (.timer ..) => true
  | .perform (.io ..) => true
  | .perform (.childWatch ..) => true
  | _ => false

/-- Put a new watch under a tag. -/
def tag (s : Machine) (name : String) (id : Nat) : Machine :=
  { s with tags := Command.upsert name id s.tags }

/-- Nothing has changed that a duty is about, and the journal tells of nothing but mere entries. -/
structure Calm (s t : Machine) : Prop where
  watches : t.loop.watches = s.loop.watches
  lastId : t.loop.lastId = s.loop.lastId
  life : ∀ h, (t.handle h).life = (s.handle h).life
  outbox : ∀ h, (t.handle h).outbox = (s.handle h).outbox
  size : s.handles.length ≤ t.handles.length
  names : ∀ r ∈ t.names, r ∈ s.names ∨ r.2 < t.handles.length
  tags : t.tags = s.tags
  config : t.config = s.config
  raised : ∀ id ∈ t.raised, id ∈ s.raised
  journal : ∃ es, t.journal = es ++ s.journal ∧ ∀ e ∈ es, e.isMere = true

/-- What changes nothing that a duty is about. -/
inductive Mild (o : Machine) : Stage → Machine → Prop
  | calm {σ : Stage} {t : Machine} (ht : Calm σ.machine t) : Mild o σ t
  | signalled {σ : Stage} (h : Nat) (sig : Int) (r : Option Int) (ho : h ∈ o.signalling)
      (hs : SameChildren o σ.machine) (hrs : σ.duties.flatMap Duty.reapings = o.reapings)
      (hrun : (σ.machine.handle h).state = .running) :
      Mild o σ (σ.machine.record (.signalled (σ.machine.handle h).target sig r))
  | collected {σ : Stage} : Mild o σ σ.machine.collect
  | retouched {σ : Stage} (l : Loop Callback) (hl : Loop.Alike σ.machine.loop l)
      (hlook : ∀ id, l.look id = σ.machine.loop.look id) : Mild o σ { σ.machine with loop := l }
  | inputClosed {σ : Stage} (h : Nat) : Mild o σ (σ.machine.closeStdin h)

/-- What changes the duties alone. -/
inductive Turn (s : Machine) : List Duty → List Duty → Prop
  | judged {D : List Duty} (b : Bool) : Turn s D (.verdict b :: D)
  | hark {D : List Duty} : Turn s D (.hear :: D)
  | heeded {D : List Duty} {d : Duty} (b : Bool) (hd : d.isHearing = true) :
      Turn s (.verdict b :: d :: D) (d :: D)
  | heard {D : List Duty} : Turn s (.hear :: D) D
  | muted (b : Bool) : Turn s [.verdict b] []
  | next {D : List Duty} (x : Reaping) (st : Stream) (left : List Stream) :
      Turn s (.reap x (st :: left) :: D) (.drain x.h st x.g :: .reap x left :: D)
  | shed {D : List Duty} (x : Reaping) (left : List Stream)
      (hstale : ¬ ((s.handle x.h).state = .running ∧ (s.handle x.h).generation = x.g)) :
      Turn s (.reap x left :: D) D
  | passed {D : List Duty} {h : Nat} {st : Stream} {g : Nat}
      (hgone : (s.handle h).generation ≠ g ∨ (s.handle h).pipe st = none) :
      Turn s (.drain h st g :: D) (.verdict false :: D)
  | excused {D : List Duty} {id : Nat} (hid : id ∈ s.raised) : Turn s (.clear id :: D) D
  | begun {D : List Duty} : Turn s (.commence :: D) D

/-- What becomes of one watch. -/
inductive Stir (o : Machine) : Machine → List Duty → Machine → List Duty → Prop
  | lent {s : Machine} {D : List Duty} (time : Nat) (w : Loop.Watch Callback) (cb : Callback)
      (payload : Loop.Payload) (l : Loop Callback) (hw : w ∈ s.loop.watches) (hn : w.ward? = none)
      (hcb : w.source.outline.slot = some cb) (hp : ∀ pid st, payload ≠ .child pid st)
      (hl : Loop.Alike s.loop l)
      (hlook : ∀ id, l.look id =
        if id = w.id then (s.loop.look id).map Loop.Outline.vacate else s.loop.look id) :
      Stir o s D (Machine.record { s with loop := l } (.started time w.id payload))
        (cb.duties w.id payload ++ .restore w.id cb.next :: D)
  | taken {s : Machine} {D : List Duty} (time : Nat) (w : Loop.Watch Callback) (pid : Int) (fd : Bool)
      (st : ExitStatus) (cb : Callback) (hw : s.loop.find? w.id = some w)
      (hs : w.source = .child pid fd (some st) cb) :
      Stir o s D
        (Machine.record { s with loop := s.loop.erase w.id } (.started time w.id (.child pid st)))
        (cb.duties w.id (.child pid st) ++ D)
  | restored {s : Machine} {D : List Duty} (time now id : Nat) (cb : Callback) :
      Stir o s (.verdict true :: .restore id cb :: D)
        (Machine.record { s with loop := s.loop.restore id now cb } (.settled time id true)) D
  | ended {s : Machine} {D : List Duty} (time id : Nat) (cb : Callback) :
      Stir o s (.verdict false :: .restore id cb :: D)
        (Machine.record { s with loop := s.loop.erase id } (.settled time id false)) D
  | rung {s : Machine} {D : List Duty} (id : Nat) :
      Stir o s (.ring id :: D) { s with raised := id :: s.raised } (.verdict false :: D)
  | engaged {s : Machine} {D : List Duty} (priority : Loop.Priority) (src : Loop.Source Callback)
      (hsrc : ∀ pid fd st cb, src ≠ .child pid fd st cb) (hcb : src.outline.slot = some .raise) :
      Stir o s D (s.addWatch priority src).2 (.clear (s.loop.lastId + 1) :: D)
  | cleared {s : Machine} {D : List Duty} (id : Nat) : Stir o s (.clear id :: D) (s.removeWatch id) D
  | registered {s : Machine} {D : List Duty} (name : String) (priority : Loop.Priority)
      (src : Loop.Source Callback) (x : Script) (hsrc : ∀ pid fd st cb, src ≠ .child pid fd st cb)
      (hcb : src.outline.slot = some (.script x)) (ho : o.registers = true)
      (hs : s.loop.lastId = o.loop.lastId) :
      Stir o s D ((s.addWatch priority src).2.tag name (s.loop.lastId + 1)) D
  | watched {s : Machine} {D : List Duty} (name : String) (pid : Int) (priority : Loop.Priority)
      (x : Script) (ho : o.control = .perform (.childWatch pid priority x))
      (hs : s.loop.lastId = o.loop.lastId) :
      Stir o s D ((s.watchChild pid priority (.script x)).2.tag name (s.loop.lastId + 1)) D
  | dismissed {s : Machine} {D : List Duty} (id : Nat) (hid : id ∈ s.tags.map (·.2)) :
      Stir o s D (s.removeWatch id) D

/-- What changes a watch, the state of a handle, a stream or the way of an event. -/
inductive Loud (o : Machine) : Stage → Stage → Prop
  | stirred {s t : Machine} {D D' : List Duty} {d : Option (Nat × Event)} (h : Stir o s D t D') :
      Loud o ⟨s, D, d⟩ ⟨t, D', d⟩
  | adopted {s : Machine} {D : List Duty} (h : Nat) (c : Command) (e : Execution) (pid : Int)
      (k : Kernel) (hname : h ∈ s.names.map (·.2) ∨ (h = 0 ∧ .commence ∈ D))
      (hstate : (s.handle h).state = .notStarted ∨ (s.handle h).state = .closed)
      (ho : o.spawning? = some c) (he : e.newGroup = c.flags.contains Command.Flags.newGroup)
      (hk : pid = o.kernel.nextPid) (hs : SameChildren o s) :
      Loud o ⟨s, D, none⟩ ⟨((s.record (.executed e)).withKernel k).adopt h c e pid, D, none⟩
  | closed {s : Machine} {D : List Duty} (h : Nat)
      (ho : (s.handle h).state = .running → h ∈ o.closing) (hs : SameChildren o s)
      (hl : s.loop.lastId = o.loop.lastId) (hrs : D.flatMap Duty.reapings = o.reapings) :
      Loud o ⟨s, D, none⟩ ⟨s.close h, D, none⟩
  | reaped {s : Machine} {D : List Duty} (x : Reaping) (hg : (s.handle x.h).generation = x.g)
      (hrun : (s.handle x.h).state = .running)
      (hs : SameChildren o s) :
      Loud o ⟨s, .reap x [] :: D, none⟩
        ⟨s.mapHandle x.h fun y => { y with state := .reaped, status := some x.status, childWatch := none },
          D, some (x.h, .reaped x.status)⟩
  | read {s : Machine} {D : List Duty} (h : Nat) (st : Stream) (p : Pipe) (r : Except Int Bytes)
      (hp : (s.handle h).pipe st = some p) (hr : readEnds r = false)
      (hk : r = (o.kernel.read p.pid st o.config.chunk).1) (hc : s.config = o.config)
      (hs : SameChildren o s) :
      Loud o ⟨s, .drain h st (s.handle h).generation :: D, none⟩
        ⟨s.record (.read h (s.handle h).generation st r),
          readLeaves h st (s.handle h).generation r :: D, (readSays st r).map (h, ·)⟩
  | finished {s : Machine} {D : List Duty} (h : Nat) (st : Stream) (p : Pipe) (r : Except Int Bytes)
      (n : Notice) (hp : (s.handle h).pipe st = some p) (hr : readEnds r = true)
      (hk : r = (o.kernel.read p.pid st o.config.chunk).1) (hs : SameChildren o s) :
      Loud o ⟨s, .drain h st (s.handle h).generation :: D, none⟩
        ⟨((s.record (.read h (s.handle h).generation st r)).note n).releaseStream h st,
          .verdict false :: D, (readSays st r).map (h, ·)⟩
  | emitted {s : Machine} {D : List Duty} (h : Nat) (e : Event) (f : Handle → Handle)
      (hlife : ∀ x, (f x).life = x.life) (hf : ∀ x, (f x).outbox = x.outbox ++ [e])
      (hs : SameChildren o s) :
      Loud o ⟨s, D, some (h, e)⟩
        ⟨(s.record (.emitted h (s.handle h).generation e)).mapHandle h f, D, none⟩
  | handed {s : Machine} {D : List Duty} (h : Nat) (e : Event) (rest : List Event) (entry : Entry)
      (f : Handle → Handle) (hbox : (s.handle h).outbox = e :: rest)
      (hentry : entry = .queued h e ∨ ∃ n, entry = .delivering h e n)
      (hlife : ∀ x, (f x).life = x.life) (hf : ∀ x, (f x).outbox = rest) :
      Loud o ⟨s, D, none⟩ ⟨(s.mapHandle h f).record entry, D, none⟩

/-- One thing done in a step that starts from `o`. -/
inductive Deed (o : Machine) : Stage → Stage → Prop
  | mild {σ : Stage} {t : Machine} (h : Mild o σ t) : Deed o σ ⟨t, σ.duties, σ.due⟩
  | turned {s : Machine} {D D' : List Duty} {d : Option (Nat × Event)} (h : Turn s D D') :
      Deed o ⟨s, D, d⟩ ⟨s, D', d⟩
  | loud {σ τ : Stage} (h : Loud o σ τ) : Deed o σ τ

/-- A chain of deeds in a step that starts from `o`. -/
abbrev Deeds (o : Machine) : Stage → Stage → Prop := ReflTransGen (Deed o)

end Machine

end Overseer
