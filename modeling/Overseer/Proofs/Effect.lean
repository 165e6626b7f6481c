import Mathlib.Logic.Relation
import Overseer.Proofs.Collecting

/-!
# What a step can do

A step of a machine is a chain of effects.  An effect says what happens to the watches, to the lives
of the handles and to the journal; control, stack, kernel, events and subscribers are left out.

A scene is a machine together with the numbers that the calls under way may still forget (`held`)
and the reaps under way (`reapings`), which a step takes from its control and its stack.

    adopted, closed, signalled, reaped, taken, collected    change what is known of a child
    all other effects                                       leave every ward and every life alone
-/

namespace Overseer

open Supervisor
open Kernel (Stream)
open Relation (ReflTransGen)

namespace Supervisor

/-- The life of a handle, without its events and subscribers. -/
structure Life where
  state : State
  generation : Nat
  pid : Option Int
  target : Int
  status : Option ExitStatus
  stdin : Option Int
  out : Option Pipe
  err : Option Pipe
  childWatch : Option Nat

def Handle.life (x : Handle) : Life :=
  ⟨x.state, x.generation, x.pid, x.target, x.status, x.stdin, x.out, x.err, x.childWatch⟩

/-- A reap under way: the exit of generation `g` of handle `h` is on its way to the handle. -/
structure Reaping where
  h : Nat
  g : Nat
  pid : Int
  status : ExitStatus
  deriving DecidableEq

/-- The reap that a callback begins when it is called for a child. -/
def Callback.reapings (pid : Int) (st : ExitStatus) : Callback → List Reaping
  | .reap h g => [⟨h, g, pid, st⟩]
  | _ => []

def Control.reapings : Control → List Reaping
  | .invoke _ cb (.child pid st) => cb.reapings pid st
  | _ => []

def Frame.reapings : Frame → List Reaping
  | .reapOut h g pid st => [⟨h, g, pid, st⟩]
  | .reapErr h g pid st => [⟨h, g, pid, st⟩]
  | _ => []

/-- The watches that a control may forget. -/
def Control.held : Control → List Nat
  | .awaitWritable _ watch => [watch]
  | .awaitExit _ deadline => [deadline]
  | _ => []

/-- The watches that a call may forget or restore when it goes on. -/
def Frame.held : Frame → List Nat
  | .settle id _ => [id]
  | .writing _ watch => [watch]
  | .writeDeadline deadline => [deadline]
  | .waiting _ deadline => [deadline]
  | _ => []

end Supervisor

namespace Machine

def held (s : Machine) : List Nat := s.control.held ++ s.stack.flatMap Frame.held

def reapings (s : Machine) : List Reaping := s.control.reapings ++ s.stack.flatMap Frame.reapings

/-- The handle to which the next step sends a signal, if it runs, and the signal. -/
def sends? (s : Machine) : Option (Nat × Int) :=
  match s.control, s.stack with
  | .perform (.kill name sig), _ => some ((s.resolve name).1, sig)
  | .dispose h, _ => some (h, Signal.term)
  | .value (.waited (.error _)), .grace h :: _ => some (h, Signal.kill)
  | _, _ => none

def signalling (s : Machine) : List Nat := s.sends?.toList.map (·.1)

/-- The handles that the next step closes although they may run. -/
def closing (s : Machine) : List Nat :=
  match s.control, s.stack with
  | .perform (.close name), _ => [(s.resolve name).1]
  | .value (.waited (.ok _)), .grace h :: _ => [h]
  | .value (.waited _), .killed h :: _ => [h]
  | _, _ => []

/-- The command that the next step may start. -/
def spawning? (s : Machine) : Option Command :=
  match s.control with
  | .perform (.spawn _ c _ _) => some c
  | .isolated spec => some spec.command
  | _ => none

/-- The same watches, and every handle with the same life. -/
structure SameChildren (s t : Machine) : Prop where
  watches : t.loop.watches = s.loop.watches
  life : ∀ h, (t.handle h).life = (s.handle h).life

/-- Nothing has changed that an effect speaks of. -/
structure Still (s t : Machine) : Prop extends SameChildren s t where
  lastId : t.loop.lastId = s.loop.lastId
  tags : t.tags = s.tags
  journal : t.journal = s.journal

end Machine

/-- A machine in the middle of a step. -/
structure Scene where
  machine : Machine
  held : List Nat
  reapings : List Reaping

namespace Machine

/-- The scene between two steps. -/
def scene (s : Machine) : Scene := ⟨s, s.held, s.reapings⟩

/-- One thing done in a step that starts from `o`. -/
inductive Effect (o : Machine) : Scene → Scene → Prop
  | still {s t : Machine} {held : List Nat} {rs : List Reaping} (ht : Still s t) :
      Effect o ⟨s, held, rs⟩ ⟨t, held, rs⟩
  | recorded {s : Machine} {held : List Nat} {rs : List Reaping} (e : Entry)
      (he : e.isPlain = true) : Effect o ⟨s, held, rs⟩ ⟨s.record e, held, rs⟩
  | signalled {s : Machine} {held : List Nat} {rs : List Reaping} (h : Nat) (sig : Int)
      (r : Option Int) (ho : h ∈ o.signalling) (hs : SameChildren o s) (hrs : rs = o.reapings)
      (hrun : (s.handle h).state = .running) :
      Effect o ⟨s, held, rs⟩ ⟨s.record (.signalled (s.handle h).target sig r), held, rs⟩
  | added {s : Machine} {held : List Nat} {rs : List Reaping} (priority : Loop.Priority)
      (src : Loop.Source Callback) (hsrc : ∀ pid fd st cb, src ≠ .child pid fd st cb) :
      Effect o ⟨s, held, rs⟩ ⟨(s.addWatch priority src).2, (s.loop.lastId + 1) :: held, rs⟩
  | watched {s : Machine} {held : List Nat} {rs : List Reaping} (pid : Int)
      (priority : Loop.Priority) (x : Script)
      (ho : o.control = .perform (.childWatch pid priority x)) :
      Effect o ⟨s, held, rs⟩
        ⟨(s.watchChild pid priority (.script x)).2, (s.loop.lastId + 1) :: held, rs⟩
  | tagged {s : Machine} {held : List Nat} {rs : List Reaping} (tag : String) (id : Nat)
      (hid : id ∈ held) :
      Effect o ⟨s, held, rs⟩ ⟨{ s with tags := Command.upsert tag id s.tags }, held, rs⟩
  | forgotten {s : Machine} {held : List Nat} {rs : List Reaping} (id : Nat)
      (hid : id ∈ held ∨ id ∈ s.tags.map (·.2)) :
      Effect o ⟨s, held, rs⟩ ⟨{ s with loop := s.loop.erase id }, held, rs⟩
  | released {s : Machine} {held : List Nat} {rs : List Reaping} (h : Nat) (st : Stream) :
      Effect o ⟨s, held, rs⟩ ⟨s.releaseStream h st, held, rs⟩
  | inputClosed {s : Machine} {held : List Nat} {rs : List Reaping} (h : Nat) :
      Effect o ⟨s, held, rs⟩ ⟨s.closeStdin h, held, rs⟩
  | lent {s : Machine} {held : List Nat} {rs : List Reaping} (w : Loop.Watch Callback)
      (hw : w ∈ s.loop.watches) (hn : w.ward? = none) :
      Effect o ⟨s, held, rs⟩ ⟨s, w.id :: held, rs⟩
  | retouched {s : Machine} {held : List Nat} {rs : List Reaping} (l : Loop Callback)
      (hl : Loop.Alike s.loop l) : Effect o ⟨s, held, rs⟩ ⟨{ s with loop := l }, held, rs⟩
  | collected {s : Machine} {held : List Nat} {rs : List Reaping} :
      Effect o ⟨s, held, rs⟩ ⟨s.collect, held, rs⟩
  | taken {s : Machine} {held : List Nat} {rs : List Reaping} (time : Nat) (w : Loop.Watch Callback)
      (pid : Int) (fd : Bool) (st : ExitStatus) (cb : Callback)
      (hw : s.loop.find? w.id = some w) (hs : w.source = .child pid fd (some st) cb) :
      Effect o ⟨s, held, rs⟩
        ⟨Machine.record { s with loop := s.loop.erase w.id } (.started time w.id (.child pid st)),
          held, cb.reapings pid st ++ rs⟩
  | adopted {s : Machine} {held : List Nat} {rs : List Reaping} (h : Nat) (c : Command)
      (e : Execution) (pid : Int) (ho : o.spawning? = some c)
      (he : e.newGroup = c.flags.contains Command.Flags.newGroup) (hk : pid = o.kernel.nextPid)
      (hs : SameChildren o s) :
      Effect o ⟨s, held, rs⟩ ⟨s.adopt h c e pid, held, rs⟩
  | closed {s : Machine} {held : List Nat} {rs : List Reaping} (h : Nat)
      (ho : (s.handle h).state = .running → h ∈ o.closing) (hs : SameChildren o s)
      (hrs : rs = o.reapings) : Effect o ⟨s, held, rs⟩ ⟨s.close h, held, rs⟩
  | reaped {s : Machine} {held : List Nat} {rs : List Reaping} (h : Nat) (pid : Int)
      (st : ExitStatus) (hx : ⟨h, (s.handle h).generation, pid, st⟩ ∈ rs)
      (hrun : (s.handle h).state = .running) :
      Effect o ⟨s, held, rs⟩
        ⟨s.mapHandle h fun x => { x with state := .reaped, status := some st, childWatch := none },
          held, rs⟩
  | dropped {s : Machine} {held held' : List Nat} {rs : List Reaping}
      (hsub : ∀ id ∈ held', id ∈ held) : Effect o ⟨s, held, rs⟩ ⟨s, held', rs⟩
  | shed {s : Machine} {held : List Nat} {rs rs' : List Reaping} (hsub : ∀ x ∈ rs', x ∈ rs)
      (hstale : ∀ x ∈ rs, x ∈ rs' ∨
        ¬ ((s.handle x.h).state = .running ∧ (s.handle x.h).generation = x.g)) :
      Effect o ⟨s, held, rs⟩ ⟨s, held, rs'⟩

/-- A chain of effects in a step that starts from `o`. -/
abbrev Effects (o : Machine) : Scene → Scene → Prop := ReflTransGen (Effect o)

end Machine

end Overseer
