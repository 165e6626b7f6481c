import Overseer.Proofs.OutputDeeds
import Overseer.Proofs.Spawning

/-!
# Changes that emit nothing and read nothing

The voice of a handle is its outbox with those who hear it; its stance is what anyone may ask for.  What
neither reads a stream nor passes an event on keeps every voice, and what is captured.

    hush   voices and captures are the same, and nothing is read
    mute   hush, and stances are the same

Starting a child and closing a handle are hush, the other small changes are mute.
-/

namespace Overseer

open Supervisor
open Kernel (Stream)

namespace Supervisor

/-- What anyone may ask of a handle: its state, its generation and the end of its child. -/
def Handle.stance (x : Handle) : State × Nat × Option ExitStatus := (x.state, x.generation, x.status)

/-- The events that a handle has still to tell, whether it is telling them, and whom. -/
def Handle.voice (x : Handle) : List Event × Bool × List Subscriber := (x.outbox, x.emitting, x.subscribers)

def Entry.isRead : Entry → Bool
  | read .. => true
  | _ => false

end Supervisor

namespace Machine

/-- Voices and captures are the same, and nothing is read. -/
structure Hush (s t : Machine) : Prop where
  size : t.handles.length = s.handles.length
  voice : ∀ h, (t.handle h).voice = (s.handle h).voice
  captured : t.captured = s.captured
  journal : ∃ es, t.journal = es ++ s.journal ∧ ∀ e ∈ es, e.isRead = false

/-- Stances are the same as well. -/
structure Mute (s t : Machine) : Prop extends Hush s t where
  stance : ∀ h, (t.handle h).stance = (s.handle h).stance

variable {o s t u : Machine} {c : Control}

/-! ## Hush -/

theorem Hush.refl (s : Machine) : Hush s s := ⟨rfl, fun _ => rfl, rfl, [], rfl, by simp⟩

theorem Hush.trans (h : Hush s t) (h' : Hush t u) : Hush s u := by
  obtain ⟨es, he, hr⟩ := h.journal
  obtain ⟨es', he', hr'⟩ := h'.journal
  refine ⟨h'.size.trans h.size, fun i => (h'.voice i).trans (h.voice i), h'.captured.trans h.captured, es' ++ es, ?_,
    fun e hm => ?_⟩
  · rw [he', he, List.append_assoc]
  · rcases List.mem_append.1 hm with hm | hm
    · exact hr' e hm
    · exact hr e hm

theorem hush_mapHandle (s : Machine) (h : Nat) {f : Handle → Handle} (hv : ∀ x, (f x).voice = x.voice) :
    Hush s (s.mapHandle h f) := by
  refine ⟨List.length_modify _ _ _, fun i => ?_, rfl, [], rfl, by simp⟩
  rw [handle_mapHandle]
  split
  · next hi => rw [hv, hi.1]
  · rfl

/-! ## Mute -/

theorem Mute.refl (s : Machine) : Mute s s := ⟨.refl s, fun _ => rfl⟩

theorem Mute.trans (h : Mute s t) (h' : Mute t u) : Mute s u :=
  ⟨h.toHush.trans h'.toHush, fun i => (h'.stance i).trans (h.stance i)⟩

theorem mute_of_handles (hh : t.handles = s.handles) (hc : t.captured = s.captured)
    (hj : ∃ es, t.journal = es ++ s.journal ∧ ∀ e ∈ es, e.isRead = false) : Mute s t := by
  have hsame : ∀ h, t.handle h = s.handle h := fun h => by rw [handle, handle, hh]
  exact ⟨⟨by rw [hh], fun h => by rw [hsame], hc, hj⟩, fun h => by rw [hsame]⟩

theorem mute_of_eq (hh : t.handles = s.handles) (hc : t.captured = s.captured) (hj : t.journal = s.journal) :
    Mute s t :=
  mute_of_handles hh hc ⟨[], hj, by simp⟩

theorem mute_record (s : Machine) {e : Entry} (he : e.isRead = false) : Mute s (s.record e) :=
  mute_of_handles rfl rfl ⟨[e], rfl, by simpa using he⟩

theorem mute_mapHandle (s : Machine) (h : Nat) {f : Handle → Handle} (hv : ∀ x, (f x).voice = x.voice)
    (hs : ∀ x, (f x).stance = x.stance) : Mute s (s.mapHandle h f) := by
  refine ⟨hush_mapHandle s h hv, fun i => ?_⟩
  rw [handle_mapHandle]
  split
  · next hi => rw [hs, hi.1]
  · rfl

namespace Mute

theorem go (hm : Mute o t) (c : Control) : Mute o (t.go c) := hm.trans (mute_of_eq rfl rfl rfl)

theorem yield (hm : Mute o t) (v : Value) : Mute o (t.yield v) := hm.trans (mute_of_eq rfl rfl rfl)

theorem push (hm : Mute o t) (f : Frame) : Mute o (t.push f) := hm.trans (mute_of_eq rfl rfl rfl)

theorem kernel (hm : Mute o t) (k : Kernel) : Mute o (t.withKernel k) := hm.trans (mute_of_eq rfl rfl rfl)

theorem loop (hm : Mute o t) (l : Loop Callback) : Mute o { t with loop := l } := hm.trans (mute_of_eq rfl rfl rfl)

theorem lower (hm : Mute o t) (id : Nat) : Mute o (t.lower id) := hm.trans (mute_of_eq rfl rfl rfl)

theorem record (hm : Mute o t) {e : Entry} (he : e.isRead = false) : Mute o (t.record e) :=
  hm.trans (mute_record t he)

theorem note (hm : Mute o t) (n : Notice) : Mute o (t.note n) := by
  unfold Machine.note
  split
  · exact hm.record rfl
  · exact hm

theorem addWatch (hm : Mute o t) (priority : Loop.Priority) (src : Loop.Source Callback) :
    Mute o (t.addWatch priority src).2 :=
  hm.trans (mute_of_handles rfl rfl ⟨[.added t.kernel.now (t.loop.lastId + 1)], rfl, by simp [Entry.isRead]⟩)

theorem removeWatch (hm : Mute o t) (id : Nat) : Mute o (t.removeWatch id) := (hm.loop _).record rfl

theorem removeWatches (hm : Mute o t) (ids : List Nat) : Mute o (ids.foldl Machine.removeWatch t) := by
  induction ids generalizing t with
  | nil => exact hm
  | cons id ids ih => exact ih (hm.removeWatch id)

theorem collect (hm : Mute o t) : Mute o t.collect := by
  refine hm.trans (mute_of_handles rfl rfl ⟨questions (t.loop.collect t.kernel).2.1, journal_collect t,
    fun e he => ?_⟩)
  obtain ⟨a, -, rfl⟩ := List.mem_map.1 (List.mem_reverse.1 he)
  rfl

theorem stopFromKernel (hm : Mute o t) : Mute o t.stopFromKernel := by
  unfold Machine.stopFromKernel
  split
  · exact (hm.loop _).record rfl
  · exact hm.trans (mute_of_eq rfl rfl rfl)

theorem closeStdin (hm : Mute o t) (h : Nat) : Mute o (t.closeStdin h) := by
  unfold Machine.closeStdin
  split
  · exact hm
  · refine hm.trans (Mute.kernel (mute_mapHandle t h ?_ ?_) _)
    · exact fun _ => rfl
    · exact fun _ => rfl

theorem releaseStream (hm : Mute o t) (h : Nat) (st : Stream) : Mute o (t.releaseStream h st) := by
  unfold Machine.releaseStream
  split
  · exact hm
  · refine hm.trans (Mute.removeWatch (mute_mapHandle t h ?_ ?_) _)
    · exact fun _ => by cases st <;> rfl
    · exact fun _ => by cases st <;> rfl

theorem kill (hm : Mute o t) (h : Nat) (sig : Int) : Mute o (t.kill h sig).2 := by
  unfold Machine.kill
  dsimp only
  have hsent : ∀ r, Mute o ((t.withKernel (t.kernel.kill (t.handle h).target sig).2).record
      (.signalled (t.handle h).target sig r)) := fun r => (hm.kernel _).record rfl
  split
  · exact hm
  · split
    · exact hm
    · split
      · exact hsent _
      · split
        · exact hsent _
        · split
          · exact hsent _
          · exact hsent _

theorem setNonblocking (hm : Mute o t) (pid : Int) (n : Nat) : Mute o (t.setNonblocking pid n) := by
  induction n generalizing t with
  | zero => exact hm
  | succ n ih =>
    unfold Machine.setNonblocking
    dsimp only
    split
    · exact ih (hm.kernel _)
    · exact ih ((hm.kernel _).note _)

theorem watchStream (hm : Mute o t) (h g : Nat) (pid : Int) (st : Stream) (mode : Stdio) :
    Mute o (t.watchStream h g pid st mode).2 := by
  unfold Machine.watchStream
  split
  · exact hm.addWatch _ _
  · exact hm

end Mute

/-! ## Closing and starting -/

theorem Hush.mapHandle (hm : Hush o t) (h : Nat) {f : Handle → Handle} (hv : ∀ x, (f x).voice = x.voice) :
    Hush o (t.mapHandle h f) :=
  hm.trans (hush_mapHandle t h hv)

theorem Hush.mute (hm : Hush o t) (h : Mute t u) : Hush o u := hm.trans h.toHush

theorem hush_close (s : Machine) (h : Nat) : Hush s (s.close h) := by
  unfold close
  dsimp only
  split
  · exact .refl s
  · have hclosed : Hush s ((s.closeStdin h).mapHandle h fun x =>
        { x with state := .closed, out := none, err := none, childWatch := none }) := by
      refine ((Mute.refl s).closeStdin h).toHush.mapHandle h ?_
      exact fun _ => rfl
    have hfree := fun ids => hclosed.mute ((Mute.refl _).removeWatches ids)
    split
    · exact (hfree _).mute ((Mute.refl _).addWatch _ _)
    · exact hfree _

theorem hush_adopt (s : Machine) (h : Nat) (c : Command) (e : Execution) (pid : Int) :
    Hush s (s.adopt h c e pid) := by
  unfold adopt
  dsimp only
  refine Hush.mapHandle (Hush.mute ?_
    ((((((Mute.refl _).record ?_).watchStream h _ pid .out e.out).watchStream h _ pid
    .err e.err).addWatch _ _).note _)) h ?_
  · refine ((Mute.refl s).setNonblocking pid _).toHush.mapHandle h ?_
    exact fun _ => rfl
  · rfl
  · exact fun _ => rfl

/-- A handle that is closed is neither running nor reaped, and still knows how its child ended. -/
theorem close_spec (s : Machine) (h : Nat) :
    ((s.close h).handle h).state ≠ .running ∧ ((s.close h).handle h).state ≠ .reaped ∧
      ((s.close h).handle h).status = (s.handle h).status ∧
      ((s.close h).handle h).generation = (s.handle h).generation := by
  by_cases hlive : (s.handle h).state = .running ∨ (s.handle h).state = .reaped
  · have hlife := (closed_close s hlive).handle
    have hstate : ((s.close h).handle h).state = .closed := congrArg Life.state hlife
    exact ⟨by simp [hstate], by simp [hstate], congrArg Life.status hlife, congrArg Life.generation hlife⟩
  · rw [close_eq_self s hlive]
    exact ⟨fun h => hlive (.inl h), fun h => hlive (.inr h), rfl, rfl⟩

end Machine

end Overseer
