import Overseer.Proofs.Effect

/-!
# Small changes of a machine

What the small changes leave as it was: the other handles, the life of a handle, the stack.  A chain
of effects is built forward, one for each such change.
-/

namespace Overseer.Machine

open Supervisor
open Kernel (Stream)

variable {o s t : Machine} {σ : Scene} {held : List Nat} {rs : List Reaping}

/-! ## What stays as it is -/

theorem handle_mapHandle (s : Machine) (h i : Nat) (f : Handle → Handle) :
    (s.mapHandle h f).handle i = if i = h ∧ h < s.handles.length then f (s.handle h) else s.handle i := by
  unfold mapHandle handle
  dsimp only
  rw [List.getD_eq_getElem?_getD, List.getD_eq_getElem?_getD, List.getD_eq_getElem?_getD,
    List.getElem?_modify]
  by_cases hi : i = h
  · subst hi
    by_cases hl : i < s.handles.length
    · simp [hl]
    · simp [hl]
  · have : ¬ h = i := fun e => hi e.symm
    simp [hi, this]

/-- A handle that is not there is a fresh one. -/
theorem lt_of_ne_fresh {h : Nat} (hne : s.handle h ≠ .fresh) : h < s.handles.length := by
  by_contra hlt
  refine hne ?_
  unfold handle
  rw [List.getD_eq_getElem?_getD, List.getElem?_eq_none (by omega)]
  rfl

theorem lt_of_running {h : Nat} (hrun : (s.handle h).state = .running) : h < s.handles.length := by
  refine lt_of_ne_fresh fun hf => ?_
  rw [hf] at hrun
  cases hrun

/-- A change that leaves each life alone may be made to any handle. -/
theorem life_mapHandle (s : Machine) (h i : Nat) {f : Handle → Handle}
    (hf : ∀ x, (f x).life = x.life) : ((s.mapHandle h f).handle i).life = (s.handle i).life := by
  rw [handle_mapHandle]
  split
  · next hi => rw [hf, hi.1]
  · rfl

theorem handle_resolve (s : Machine) (name : String) (i : Nat) :
    (s.resolve name).2.handle i = s.handle i := by
  unfold resolve
  split
  · rfl
  · unfold handle
    dsimp only
    rw [List.getD_eq_getElem?_getD, List.getD_eq_getElem?_getD, List.getElem?_append]
    split
    · rfl
    · next hi =>
      rw [List.getElem?_eq_none (by omega : s.handles.length ≤ i)]
      cases i - s.handles.length <;> simp

theorem SameChildren.trans {r : Machine} (h : SameChildren r s) (h' : SameChildren s t) :
    SameChildren r t :=
  ⟨h'.watches.trans h.watches, fun i => (h'.life i).trans (h.life i)⟩

theorem still_withKernel (s : Machine) (k : Kernel) : Still s (s.withKernel k) :=
  ⟨⟨rfl, fun _ => rfl⟩, rfl, rfl, rfl⟩

theorem still_mapHandle (s : Machine) (h : Nat) {f : Handle → Handle}
    (hf : ∀ x, (f x).life = x.life) : Still s (s.mapHandle h f) :=
  ⟨⟨rfl, fun i => life_mapHandle s h i hf⟩, rfl, rfl, rfl⟩

theorem still_resolve (s : Machine) (name : String) : Still s (s.resolve name).2 := by
  have hl := fun i => congrArg Handle.life (handle_resolve s name i)
  unfold resolve at *
  split at *
  · exact ⟨⟨rfl, hl⟩, rfl, rfl, rfl⟩
  · exact ⟨⟨rfl, hl⟩, rfl, rfl, rfl⟩

theorem sameChildren_record (s : Machine) (e : Entry) : SameChildren s (s.record e) :=
  ⟨rfl, fun _ => rfl⟩

theorem sameChildren_note (s : Machine) (n : Notice) : SameChildren s (s.note n) := by
  unfold note
  split
  · exact sameChildren_record s _
  · exact ⟨rfl, fun _ => rfl⟩

/-! ## The stack -/

@[simp] theorem stack_record (s : Machine) (e : Entry) : (s.record e).stack = s.stack := rfl

@[simp] theorem stack_note (s : Machine) (n : Notice) : (s.note n).stack = s.stack := by
  unfold note
  split <;> rfl

@[simp] theorem stack_withKernel (s : Machine) (k : Kernel) : (s.withKernel k).stack = s.stack := rfl

@[simp] theorem stack_mapHandle (s : Machine) (h : Nat) (f : Handle → Handle) :
    (s.mapHandle h f).stack = s.stack := rfl

@[simp] theorem stack_lower (s : Machine) (id : Nat) : (s.lower id).stack = s.stack := rfl

@[simp] theorem stack_push (s : Machine) (f : Frame) : (s.push f).stack = f :: s.stack := rfl

@[simp] theorem stack_go (s : Machine) (c : Control) : (s.go c).stack = s.stack := rfl

@[simp] theorem stack_yield (s : Machine) (v : Value) : (s.yield v).stack = s.stack := rfl

@[simp] theorem stack_yieldAnswer (s : Machine) (a : Answer) : (s.yieldAnswer a).stack = s.stack := rfl

@[simp] theorem stack_addWatch (s : Machine) (priority : Loop.Priority) (src : Loop.Source Callback) :
    (s.addWatch priority src).2.stack = s.stack := rfl

@[simp] theorem stack_watchChild (s : Machine) (pid : Int) (priority : Loop.Priority)
    (cb : Callback) : (s.watchChild pid priority cb).2.stack = s.stack := rfl

@[simp] theorem stack_addTimer (s : Machine) (interval : Nat) (priority : Loop.Priority)
    (cb : Callback) : (s.addTimer interval priority cb).2.stack = s.stack := rfl

@[simp] theorem stack_removeWatch (s : Machine) (id : Nat) : (s.removeWatch id).stack = s.stack := rfl

@[simp] theorem stack_quit (s : Machine) : s.quit.stack = s.stack := rfl

@[simp] theorem stack_stopFromKernel (s : Machine) : s.stopFromKernel.stack = s.stack := by
  unfold stopFromKernel
  split <;> rfl

@[simp] theorem stack_collect (s : Machine) : s.collect.stack = s.stack := rfl

@[simp] theorem stack_resolve (s : Machine) (name : String) : (s.resolve name).2.stack = s.stack := by
  unfold resolve
  split <;> rfl

@[simp] theorem stack_releaseStream (s : Machine) (h : Nat) (st : Stream) :
    (s.releaseStream h st).stack = s.stack := by
  unfold releaseStream
  split <;> rfl

@[simp] theorem stack_closeStdin (s : Machine) (h : Nat) : (s.closeStdin h).stack = s.stack := by
  unfold closeStdin
  split <;> rfl

@[simp] theorem stack_kill (s : Machine) (h : Nat) (sig : Int) : (s.kill h sig).2.stack = s.stack := by
  unfold kill
  dsimp only
  split
  · rfl
  · split
    · rfl
    · split
      · rfl
      · split
        · rfl
        · split <;> rfl

theorem stack_removeWatches (s : Machine) (ids : List Nat) :
    (ids.foldl removeWatch s).stack = s.stack := by
  induction ids generalizing s with
  | nil => rfl
  | cons id r ih => rw [List.foldl_cons, ih, stack_removeWatch]

@[simp] theorem stack_close (s : Machine) (h : Nat) : (s.close h).stack = s.stack := by
  unfold close
  dsimp only
  split
  · rfl
  · split
    · rw [stack_watchChild, stack_removeWatches, stack_mapHandle, stack_closeStdin]
    · rw [stack_removeWatches, stack_mapHandle, stack_closeStdin]

@[simp] theorem stack_setNonblocking (s : Machine) (pid : Int) (n : Nat) :
    (s.setNonblocking pid n).stack = s.stack := by
  induction n generalizing s with
  | zero => rfl
  | succ n ih =>
    unfold setNonblocking
    dsimp only
    rw [ih]
    split
    · rfl
    · rw [stack_note, stack_withKernel]

@[simp] theorem stack_watchStream (s : Machine) (h g : Nat) (pid : Int) (st : Stream) (mode : Stdio) :
    (s.watchStream h g pid st mode).2.stack = s.stack := by
  unfold watchStream
  split <;> rfl

@[simp] theorem stack_adopt (s : Machine) (h : Nat) (c : Command) (e : Execution) (pid : Int) :
    (s.adopt h c e pid).stack = s.stack := by
  unfold adopt
  simp only [stack_mapHandle, stack_note, stack_watchChild, stack_watchStream, stack_record,
    stack_setNonblocking]

@[simp] theorem stack_spawn (s : Machine) (h : Nat) (c : Command) (plan : Kernel.Plan)
    (execError : Option Int) : (s.spawn h c plan execError).2.2.stack = s.stack := by
  unfold spawn
  split
  · rfl
  · dsimp only
    split
    · rfl
    · split
      · rw [stack_note]
      · split
        · rw [stack_note, stack_record]
        · dsimp only
          rw [stack_adopt, stack_withKernel, stack_record]

/-! ## Chains -/

namespace Effects

theorem next {τ υ : Scene} (hc : Effects o σ τ) (he : Effect o τ υ) : Effects o σ υ := hc.tail he

theorem still (hc : Effects o σ ⟨s, held, rs⟩) (ht : Still s t) : Effects o σ ⟨t, held, rs⟩ :=
  hc.next (.still ht)

theorem record (hc : Effects o σ ⟨s, held, rs⟩) {e : Entry} (he : e.isPlain = true) :
    Effects o σ ⟨s.record e, held, rs⟩ :=
  hc.next (.recorded e he)

theorem note (hc : Effects o σ ⟨s, held, rs⟩) (n : Notice) : Effects o σ ⟨s.note n, held, rs⟩ := by
  unfold Machine.note
  split
  · exact hc.record rfl
  · exact hc

theorem kernel (hc : Effects o σ ⟨s, held, rs⟩) (k : Kernel) :
    Effects o σ ⟨s.withKernel k, held, rs⟩ :=
  hc.still (still_withKernel s k)

theorem removeWatch (hc : Effects o σ ⟨s, held, rs⟩) {id : Nat}
    (hid : id ∈ held ∨ id ∈ s.tags.map (·.2)) : Effects o σ ⟨s.removeWatch id, held, rs⟩ :=
  Effects.record (hc.next (.forgotten id hid)) rfl

end Effects

end Overseer.Machine
