import Overseer.Proofs.Clock
import Overseer.Proofs.Deeds
import Overseer.Proofs.Opening
import Overseer.Proofs.SpawnAndClose

/-!
# Edits of the registry

Registry, clock and marks change by chains of edits, and each edit but the quiet ones is told by the
journal.

    added      the user registers a watch, or the supervisor one of normal priority
    taken      the watch at the head of a pass is taken for one call
    restored   the callback that has returned is put back
    ended      the watch of the callback that has returned is forgotten
    removed    a watch is forgotten, if it was there
    collected, forgot, reported, slept   the stages of a pass
    rung       a deadline leaves its mark
    lowered    the mark of a deadline is used
    aside      registry, clock and marks stay as they are

The small actions of the supervisor, among them close, adopt and spawn, are chains of edits.
-/

namespace Overseer

open Supervisor
open Kernel (Stream)
open Relation (ReflTransGen)

namespace Supervisor

def Callback.isScript : Callback → Bool
  | script _ => true
  | _ => false

/-- Entries that tell nothing of the registry. -/
def Entry.isForeign : Entry → Bool
  | started .. => false
  | settled .. => false
  | added .. => false
  | removed .. => false
  | _ => true

/-- Entries that tell nothing of the registry, and ask about no child. -/
def Entry.isApart : Entry → Bool
  | asked .. => false
  | e => e.isForeign

theorem Entry.isForeign_of_isApart {e : Entry} (h : e.isApart = true) : e.isForeign = true := by
  cases e <;> first | rfl | exact h

end Supervisor

/-- Registered just now: a timer is due after its interval, and nothing has been reported of a descriptor. -/
def Loop.Source.Newborn {κ : Type} (now : Nat) : Loop.Source κ → Prop
  | io _ _ fired _ => fired = .empty
  | timer interval deadline _ => deadline = now + interval
  | _ => True

namespace Machine

/-- The step from this machine may take time. -/
def sleeps (s : Machine) : Bool :=
  match s.control with
  | .pass _ => true
  | .perform (.advance _) => true
  | _ => false

/-- The watches that the next step may remove. -/
def drops (s : Machine) : List Nat :=
  match s.control, s.stack with
  | .perform (.remove tag), _ => (Command.look? tag s.tags).toList
  | .perform (.close name), _ => (s.handle (s.resolve name).1).watches
  | .drain h st _, _ => ((s.handle h).pipe st).toList.map (·.watch)
  | .awaitWritable _ watch, _ => [watch]
  | .awaitExit _ deadline, _ => [deadline]
  | .dispose h, _ => (s.handle h).watches
  | .value (.wrote _), .writeDeadline deadline :: _ => [deadline]
  | .value (.waited _), .grace h :: _ => (s.handle h).watches
  | .value (.waited _), .killed h :: _ => (s.handle h).watches
  | _, _ => []

/-- The deadlines whose marks the next step may use up. -/
def lowers (s : Machine) : List Nat :=
  match s.control, s.stack with
  | .awaitWritable _ watch, _ => [watch]
  | .awaitExit _ deadline, _ => [deadline]
  | .value (.wrote _), .writeDeadline deadline :: _ => [deadline]
  | _, _ => []

/-- Registry, clock and marks are the same, and the journal tells of nothing that concerns them. -/
structure Apart (s t : Machine) : Prop where
  watches : t.loop.watches = s.loop.watches
  lastId : t.loop.lastId = s.loop.lastId
  now : t.kernel.now = s.kernel.now
  raised : t.raised = s.raised
  journal : ∃ es, t.journal = es ++ s.journal ∧ ∀ e ∈ es, e.isApart = true

/-- Such a watch may be registered in a step from `o`. -/
def Admits (o : Machine) (priority : Loop.Priority) (src : Loop.Source Callback) : Prop :=
  ∃ cb, src.outline.slot = some cb ∧
    ((cb.isScript = true ∧ o.registers = true) ∨ (cb.isScript = false ∧ priority = Loop.Priority.normal))

/-- In the step from `o` the callback of the watch `id` has returned. -/
structure TakesBack (o : Machine) (id : Nat) (cb : Callback) (again : Bool) : Prop where
  control : o.control = .value (.again again)
  stack : ∃ K, o.stack = .settle id cb :: K

/-- One change of the registry, the clock or the marks in a step that starts from `o`. -/
inductive Edit (o : Machine) : Machine → Machine → Prop
  | aside {s t : Machine} (h : Apart s t) : Edit o s t
  | added {s : Machine} (priority : Loop.Priority) (src : Loop.Source Callback)
      (ha : Admits o priority src) (ht : src.Newborn s.kernel.now) : Edit o s (s.addWatch priority src).2
  | taken {s : Machine} (id now : Nat) (rest : List Nat) (ran : Bool) (job : Loop.Job Callback)
      (l : Loop Callback) (ho : o.control = .dispatch (id :: rest) now ran)
      (hl : s.loop.take id now = some (job, l)) :
      Edit o s (Machine.record { s with loop := l } (.started s.kernel.now id job.payload))
  | restored {s : Machine} (id : Nat) (cb : Callback) (ho : o.TakesBack id cb true) :
      Edit o s (Machine.record { s with loop := s.loop.restore id s.kernel.now cb }
        (.settled s.kernel.now id true))
  | ended {s : Machine} (id : Nat) (cb : Callback) (ho : o.TakesBack id cb false) :
      Edit o s (Machine.record { s with loop := s.loop.erase id } (.settled s.kernel.now id false))
  | removed {s : Machine} (id : Nat) (ho : id ∈ o.drops) : Edit o s (s.removeWatch id)
  | collected {s : Machine} (ho : ∃ b, o.control = .pass b) : Edit o s s.collect
  | forgot {s : Machine} (ho : ∃ b, o.control = .pass b) : Edit o s { s with loop := s.loop.forgetFired }
  | reported {s : Machine} (rs : List (Nat × UInt16)) (ho : ∃ b, o.control = .pass b) :
      Edit o s { s with loop := s.loop.record rs }
  | slept {s : Machine} (k : Kernel) (ho : o.sleeps = true) (hk : s.kernel.now ≤ k.now) :
      Edit o s (s.withKernel k)
  | rung {s : Machine} (id : Nat) (payload : Loop.Payload) (ho : o.control = .invoke id .raise payload) :
      Edit o s { s with raised := id :: s.raised }
  | lowered {s : Machine} (id : Nat) (ho : id ∈ o.lowers) : Edit o s (s.lower id)

/-- A chain of edits in a step that starts from `o`. -/
abbrev Edits (o : Machine) : Machine → Machine → Prop := ReflTransGen (Edit o)

variable {o s t u : Machine}

theorem TakesBack.mem {id : Nat} {cb : Callback} {again : Bool} (h : o.TakesBack id cb again) :
    .settle id cb ∈ o.stack := by
  obtain ⟨-, K, hst⟩ := h
  rw [hst]
  exact List.mem_cons_self

/-! ## What stays apart -/

theorem Apart.refl (s : Machine) : Apart s s := ⟨rfl, rfl, rfl, rfl, [], rfl, by simp⟩

theorem Apart.trans (h : Apart s t) (h' : Apart t u) : Apart s u := by
  obtain ⟨es, he, hf⟩ := h.journal
  obtain ⟨es', he', hf'⟩ := h'.journal
  refine ⟨h'.watches.trans h.watches, h'.lastId.trans h.lastId, h'.now.trans h.now,
    h'.raised.trans h.raised, es' ++ es, ?_, fun e hm => ?_⟩
  · rw [he', he, List.append_assoc]
  · rcases List.mem_append.1 hm with hm | hm
    · exact hf' e hm
    · exact hf e hm

theorem apart_of_eq (hl : t.loop.watches = s.loop.watches) (hi : t.loop.lastId = s.loop.lastId)
    (hk : t.kernel.now = s.kernel.now) (hr : t.raised = s.raised) (hj : t.journal = s.journal) :
    Apart s t :=
  ⟨hl, hi, hk, hr, [], hj, by simp⟩

theorem apart_go (s : Machine) (c : Control) : Apart s (s.go c) := apart_of_eq rfl rfl rfl rfl rfl

theorem apart_yield (s : Machine) (v : Value) : Apart s (s.yield v) := apart_of_eq rfl rfl rfl rfl rfl

theorem apart_push (s : Machine) (f : Frame) : Apart s (s.push f) := apart_of_eq rfl rfl rfl rfl rfl

theorem apart_mapHandle (s : Machine) (h : Nat) (f : Handle → Handle) : Apart s (s.mapHandle h f) :=
  apart_of_eq rfl rfl rfl rfl rfl

theorem apart_setQuit (s : Machine) (b : Bool) : Apart s { s with loop := { s.loop with quit := b } } :=
  apart_of_eq rfl rfl rfl rfl rfl

theorem apart_withKernel (s : Machine) {k : Kernel} (hk : k.now = s.kernel.now) :
    Apart s (s.withKernel k) :=
  apart_of_eq rfl rfl hk rfl rfl

theorem apart_record (s : Machine) {e : Entry} (he : e.isApart = true) : Apart s (s.record e) :=
  ⟨rfl, rfl, rfl, rfl, [e], rfl, by simpa using he⟩

theorem apart_note (s : Machine) (n : Notice) : Apart s (s.note n) := by
  unfold note
  split
  · exact apart_record s rfl
  · exact .refl s

theorem apart_quit (s : Machine) : Apart s s.quit := (apart_setQuit s true).trans (apart_record _ rfl)

theorem apart_stopFromKernel (s : Machine) : Apart s s.stopFromKernel := by
  unfold stopFromKernel
  split
  · exact apart_quit s
  · exact apart_of_eq rfl rfl rfl rfl rfl

theorem apart_resolve (s : Machine) (name : String) : Apart s (s.resolve name).2 := by
  unfold resolve
  split
  · exact .refl s
  · exact apart_of_eq rfl rfl rfl rfl rfl

theorem apart_closeStdin (s : Machine) (h : Nat) : Apart s (s.closeStdin h) := by
  unfold closeStdin
  split
  · exact .refl s
  · exact apart_of_eq rfl rfl rfl rfl rfl

theorem apart_setNonblocking (s : Machine) (pid : Int) (n : Nat) : Apart s (s.setNonblocking pid n) := by
  induction n generalizing s with
  | zero => exact .refl s
  | succ n ih =>
    have hk : Apart s (s.withKernel s.kernel.setNonblocking.2) := apart_withKernel s (by simp)
    unfold setNonblocking
    dsimp only
    split
    · exact hk.trans (ih _)
    · exact (hk.trans (apart_note _ _)).trans (ih _)

theorem apart_kill (s : Machine) (h : Nat) (sig : Int) : Apart s (s.kill h sig).2 := by
  unfold kill
  dsimp only
  split
  · exact .refl s
  · split
    · exact .refl s
    · have hk : ∀ r, Apart s ((s.withKernel (s.kernel.kill (s.handle h).target sig).2).record
          (.signalled (s.handle h).target sig r)) := fun r =>
        (apart_withKernel s (by simp)).trans (apart_record _ rfl)
      split
      · exact hk _
      · split
        · exact hk _
        · split
          · exact hk _
          · exact hk _

/-! ## Chains -/

/-- What uses a mark up may forget its deadline too. -/
theorem mem_drops_of_lowers {id : Nat} (h : id ∈ s.lowers) : id ∈ s.drops := by
  unfold lowers at h
  split at h
  · next hc => rwa [drops, hc]
  · next hc => rwa [drops, hc]
  · next hc hs => rwa [drops, hc, hs]
  · cases h

namespace Edits

theorem aside (hc : Edits o s t) (h : Apart t u) : Edits o s u := hc.tail (.aside h)

theorem go (hc : Edits o s t) (c : Control) : Edits o s (t.go c) := hc.aside (apart_go t c)

theorem yield (hc : Edits o s t) (v : Value) : Edits o s (t.yield v) := hc.aside (apart_yield t v)

theorem push (hc : Edits o s t) (f : Frame) : Edits o s (t.push f) := hc.aside (apart_push t f)

theorem note (hc : Edits o s t) (n : Notice) : Edits o s (t.note n) := hc.aside (apart_note t n)

theorem record (hc : Edits o s t) {e : Entry} (he : e.isApart = true) : Edits o s (t.record e) :=
  hc.aside (apart_record t he)

theorem mapHandle (hc : Edits o s t) (h : Nat) (f : Handle → Handle) : Edits o s (t.mapHandle h f) :=
  hc.aside (apart_mapHandle t h f)

theorem resolve (hc : Edits o s t) (name : String) : Edits o s (t.resolve name).2 :=
  hc.aside (apart_resolve t name)

theorem lower (hc : Edits o s t) {id : Nat} (ho : id ∈ o.lowers) : Edits o s (t.lower id) := hc.tail (.lowered id ho)

theorem kernel (hc : Edits o s t) {k : Kernel} (hk : k.now = t.kernel.now) : Edits o s (t.withKernel k) :=
  hc.aside (apart_withKernel t hk)

theorem removeWatch (hc : Edits o s t) {id : Nat} (ho : id ∈ o.drops) : Edits o s (t.removeWatch id) :=
  hc.tail (.removed id ho)

theorem removeWatches (hc : Edits o s t) {ids : List Nat} (ho : ∀ id ∈ ids, id ∈ o.drops) :
    Edits o s (ids.foldl Machine.removeWatch t) := by
  induction ids generalizing t with
  | nil => exact hc
  | cons id ids ih =>
    exact ih (hc.removeWatch (ho id List.mem_cons_self)) fun i hi => ho i (List.mem_cons_of_mem _ hi)

/-- The supervisor registers a watch of its own. -/
theorem engage (hc : Edits o s t) {src : Loop.Source Callback} {cb : Callback}
    (hcb : src.outline.slot = some cb) (hs : cb.isScript = false) (ht : src.Newborn t.kernel.now) :
    Edits o s (t.addWatch Loop.Priority.normal src).2 :=
  hc.tail (.added _ _ ⟨cb, hcb, .inr ⟨hs, rfl⟩⟩ ht)

theorem addTimer (hc : Edits o s t) (interval : Nat) :
    Edits o s (t.addTimer interval Loop.Priority.normal .raise).2 :=
  hc.engage rfl rfl rfl

theorem watchChild (hc : Edits o s t) (pid : Int) {cb : Callback} (hs : cb.isScript = false) :
    Edits o s (t.watchChild pid Loop.Priority.normal cb).2 :=
  hc.engage rfl hs trivial

theorem releaseStream (hc : Edits o s t) {h : Nat} {st : Stream}
    (ho : ∀ p, (t.handle h).pipe st = some p → p.watch ∈ o.drops) : Edits o s (t.releaseStream h st) := by
  unfold Machine.releaseStream
  split
  · exact hc
  · next p hp => exact (hc.mapHandle h _).removeWatch (ho p hp)

theorem watchStream (hc : Edits o s t) (h g : Nat) (pid : Int) (st : Stream) (mode : Stdio) :
    Edits o s (t.watchStream h g pid st mode).2 := by
  unfold Machine.watchStream
  split
  · exact hc.engage rfl rfl rfl
  · exact hc

theorem close (hc : Edits o s t) {h : Nat} (ho : ∀ id ∈ (t.handle h).watches, id ∈ o.drops) :
    Edits o s (t.close h) := by
  unfold Machine.close
  dsimp only
  split
  · exact hc
  · have hw := fun f => ((hc.aside (apart_closeStdin t h)).mapHandle h f).removeWatches ho
    split
    · exact (hw _).watchChild _ rfl
    · exact hw _

theorem adopt (hc : Edits o s t) (h : Nat) (c : Command) (e : Execution) (pid : Int) :
    Edits o s (t.adopt h c e pid) := by
  unfold Machine.adopt
  dsimp only
  have hborn := fun n f g => ((hc.aside (apart_setNonblocking t pid n)).mapHandle h f).record
    (show Entry.isApart (.spawned h g pid) = true from rfl)
  have hwired := fun n f g => ((hborn n f g).watchStream h g pid .out e.out).watchStream h g pid .err e.err
  exact (((hwired _ _ _).watchChild pid rfl).note _).mapHandle h _

theorem spawn (hc : Edits o s t) (h : Nat) (c : Command) (plan : Kernel.Plan) (execError : Option Int) :
    Edits o s (t.spawn h c plan execError).2.2 := by
  unfold Machine.spawn
  split
  · exact hc
  · dsimp only
    split
    · exact hc
    · split
      · exact hc.note _
      · split
        · exact (hc.record rfl).note _
        · exact ((hc.record rfl).kernel (by simp [Machine.record])).adopt h c _ _

end Edits

end Machine

end Overseer
