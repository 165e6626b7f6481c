import Overseer.Proofs.Calls
import Overseer.Proofs.Generations

/-!
# Calls are bound to the child that runs

Both waiting and writing pump the loop, and a callback may close the handle and spawn another child
upon it.  The status that a wait returns, and the child that a write reaches, are those of the
generation that the handle has then; it is that of the call as long as no callback has spawned upon
the handle.

    Waiting h s  =  s is a state of a wait for h, and a status that it returns stands on h
    Feeding h s  =  s is a state of a write to h, and a pid that it writes to is the input of h

Main statement: `calls_bound_to_generation`.
-/

namespace Overseer.Machine

open Supervisor

/-- The states of a wait upon the frames of its caller. -/
inductive Waiting (h : Nat) (s : Machine) : Prop
  | asked (timeout : Nat) : s.control = .wait h timeout → Waiting h s
  | awaiting (deadline : Nat) : s.control = .awaitExit h deadline → Waiting h s
  | done (r : Except WaitError ExitStatus) : s.control = .value (.waited r) →
      (∀ st, r = .ok st → (s.handle h).state = .reaped ∧ (s.handle h).status = some st) → Waiting h s

/-- The states of a write upon the frames of its caller. -/
inductive Feeding (h : Nat) (s : Machine) : Prop
  | started (w : Writing) : s.control = .startWrite w → w.h = h → Feeding h s
  | writing (w : Writing) (pid : Int) : s.control = .write w pid → w.h = h →
      (s.handle h).stdin = some pid → Feeding h s
  | awaiting (w : Writing) (watch : Nat) : s.control = .awaitWritable w watch → w.h = h → Feeding h s
  | done (r : Except WriteError Nat) : s.control = .value (.wrote r) → Feeding h s

/-- The frame of a wait for this handle. -/
def waitFrame (h : Nat) : Frame → Prop
  | .waiting i _ => i = h
  | _ => False

/-- The frame of a write to this handle. -/
def writeFrame (h : Nat) : Frame → Prop
  | .writing w _ => w.h = h
  | _ => False

variable {s : Machine} {log : List Entry} {h : Nat}

/-! ## Waiting -/

theorem waiting_endWait {deadline : Nat} {r : Except WaitError ExitStatus}
    (hr : ∀ st, r = .ok st → (s.handle h).state = .reaped ∧ (s.handle h).status = some st) :
    Waiting h (s.endWait deadline r) :=
  .done r rfl hr

/-- What a wait answers for a child that is reaped. -/
theorem status_of_reaped (hst : (s.handle h).state = .reaped) (st : ExitStatus)
    (hok : (match (s.handle h).status with
      | some st => Except.ok st
      | none => Except.error WaitError.notRunning) = .ok st) :
    (s.handle h).state = .reaped ∧ (s.handle h).status = some st := by
  refine ⟨hst, ?_⟩
  split at hok
  · next st' hs =>
    injection hok with hok
    rw [hs, hok]
  · cases hok

theorem waiting_wait (timeout : Nat) :
    Waiting h (s.wait h timeout) ∧ (s.wait h timeout).stack = s.stack := by
  unfold wait
  dsimp only
  split
  · next hst => exact ⟨.done _ rfl (status_of_reaped hst), rfl⟩
  · exact ⟨.awaiting _ rfl, rfl⟩
  · exact ⟨.done _ rfl fun st hok => (by cases hok), rfl⟩

theorem waiting_awaitExit (deadline : Nat) :
    (Waiting h (s.awaitExit h deadline) ∧ (s.awaitExit h deadline).stack = s.stack) ∨
      ∃ f, waitFrame h f ∧ (s.awaitExit h deadline).stack = f :: s.stack := by
  unfold awaitExit
  dsimp only
  split
  · next hst => exact .inl ⟨waiting_endWait (status_of_reaped hst), rfl⟩
  · split
    · exact .inl ⟨waiting_endWait fun st hok => (by cases hok), rfl⟩
    · exact .inr ⟨.waiting h deadline, rfl, rfl⟩
  · exact .inl ⟨waiting_endWait fun st hok => (by cases hok), rfl⟩

theorem wait_pumps (h : Nat) : Pumper (Waiting h) (waitFrame h) where
  awake s spec hown hctl := by
    rcases hown with ⟨_, hc⟩ | ⟨_, hc⟩ | ⟨_, hc, -⟩ <;> (rw [hctl] at hc; cases hc)
  kernel s k hown := by
    rcases hown with ⟨t, hc⟩ | ⟨d, hc⟩ | ⟨r, hc, hr⟩
    · exact .asked t hc
    · exact .awaiting d hc
    · exact .done r hc hr
  step s hown hr := by
    rcases hown with ⟨t, hc⟩ | ⟨d, hc⟩ | ⟨r, hc, -⟩
    · have hstep : s.step = s.wait h t := by rw [step, hc]
      rw [hstep]
      exact .inl (waiting_wait t)
    · have hstep : s.step = s.awaitExit h d := by rw [step, hc]
      rw [hstep]
      exact waiting_awaitExit d
    · rw [returned, hc] at hr
      simp at hr
  resume s f v hf := by
    cases f with
    | waiting i d =>
      obtain rfl : i = h := hf
      cases v with
      | passed p => exact .inl ⟨.awaiting d rfl, rfl⟩
      | _ => exact .inr rfl
    | _ => cases hf

/-! ## Writing -/

theorem stdin_of_writable {x : Handle} {pid : Int} (hw : x.writable = .ok pid) : x.stdin = some pid := by
  unfold Handle.writable at hw
  split at hw
  · split at hw
    · next p hp =>
      injection hw with hw
      rw [hp, hw]
    · cases hw
  · cases hw

theorem feeding_startWrite {w : Writing} (hw : w.h = h) :
    Feeding h (s.startWrite w) ∧ (s.startWrite w).stack = s.stack := by
  unfold startWrite
  split
  · exact ⟨.done _ rfl, rfl⟩
  · next pid hpid =>
    rw [hw] at hpid
    exact ⟨.writing w pid rfl hw (stdin_of_writable hpid), rfl⟩

theorem feeding_write {w : Writing} {pid : Int} (hw : w.h = h) (hin : (s.handle h).stdin = some pid) :
    Feeding h (s.write w pid) ∧ (s.write w pid).stack = s.stack := by
  unfold write
  split
  · exact ⟨.done _ rfl, rfl⟩
  · dsimp only
    split
    · exact ⟨.writing _ pid rfl hw hin, rfl⟩
    · split
      · exact ⟨.writing _ pid rfl hw hin, rfl⟩
      · split
        · exact ⟨.awaiting _ _ rfl hw, rfl⟩
        · exact ⟨.done _ rfl, by simp⟩

theorem feeding_awaitWritable {w : Writing} {watch : Nat} (hw : w.h = h) :
    (Feeding h (s.awaitWritable w watch) ∧ (s.awaitWritable w watch).stack = s.stack) ∨
      ∃ f, writeFrame h f ∧ (s.awaitWritable w watch).stack = f :: s.stack := by
  unfold awaitWritable
  split
  · exact .inl ⟨.started w rfl hw, rfl⟩
  · split
    · exact .inl ⟨.done _ rfl, rfl⟩
    · split
      · exact .inl ⟨.done _ rfl, by simp⟩
      · exact .inr ⟨.writing w watch, hw, rfl⟩

theorem write_pumps (h : Nat) : Pumper (Feeding h) (writeFrame h) where
  awake s spec hown hctl := by
    rcases hown with ⟨_, hc, -⟩ | ⟨_, _, hc, -⟩ | ⟨_, _, hc, -⟩ | ⟨_, hc⟩ <;>
      (rw [hctl] at hc; cases hc)
  kernel s k hown := by
    rcases hown with ⟨w, hc, hw⟩ | ⟨w, pid, hc, hw, hin⟩ | ⟨w, i, hc, hw⟩ | ⟨r, hc⟩
    · exact .started w hc hw
    · exact .writing w pid hc hw hin
    · exact .awaiting w i hc hw
    · exact .done r hc
  step s hown hr := by
    rcases hown with ⟨w, hc, hw⟩ | ⟨w, pid, hc, hw, hin⟩ | ⟨w, i, hc, hw⟩ | ⟨r, hc⟩
    · have hstep : s.step = s.startWrite w := by rw [step, hc]
      rw [hstep]
      exact .inl (feeding_startWrite hw)
    · have hstep : s.step = s.write w pid := by rw [step, hc]
      rw [hstep]
      exact .inl (feeding_write hw hin)
    · have hstep : s.step = s.awaitWritable w i := by rw [step, hc]
      rw [hstep]
      exact feeding_awaitWritable hw
    · rw [returned, hc] at hr
      simp at hr
  resume s f v hf := by
    cases f with
    | writing w i =>
      have hw : w.h = h := hf
      cases v with
      | passed p => exact .inl ⟨.awaiting w i rfl hw, rfl⟩
      | _ => exact .inr rfl
    | _ => cases hf

/-! ## What is written -/

/-- A step of a write tells of one write at most, and that one goes to the input at hand. -/
theorem wrote_write (w : Writing) (pid : Int) : ∃ es, (s.write w pid).journal = es ++ s.journal ∧
    ∀ i g p data r, .wrote i g p data r ∈ es → i = w.h ∧ g = (s.handle w.h).generation ∧ p = pid := by
  have hone : ∀ r, ∀ i g p data r', Entry.wrote i g p data r' ∈
      [Entry.wrote w.h (s.handle w.h).generation pid w.rest r] →
      i = w.h ∧ g = (s.handle w.h).generation ∧ p = pid := by
    intro r i g p data r' hm
    rw [List.mem_singleton] at hm
    injection hm with hi hg hp
    exact ⟨hi, hg, hp⟩
  unfold write
  split
  · exact ⟨[], rfl, by simp⟩
  · dsimp only
    split
    · exact ⟨[_], rfl, hone _⟩
    · split
      · exact ⟨[_], rfl, hone _⟩
      · split
        · refine ⟨[_, _], rfl, ?_⟩
          intro i g p data r hm
          rcases List.mem_cons.1 hm with hm | hm
          · cases hm
          · exact hone _ i g p data r hm
        · unfold note
          split
          · refine ⟨[_, _], rfl, ?_⟩
            intro i g p data r hm
            rcases List.mem_cons.1 hm with hm | hm
            · cases hm
            · exact hone _ i g p data r hm
          · exact ⟨[_], rfl, hone _⟩

theorem journal_awaitWritable (w : Writing) (watch : Nat) :
    ∃ es, (s.awaitWritable w watch).journal = es ++ s.journal ∧
      ∀ i g p data r, .wrote i g p data r ∉ es := by
  unfold awaitWritable
  split
  · exact ⟨[], rfl, by simp⟩
  · split
    · exact ⟨[_], rfl, by simp⟩
    · split
      · unfold note
        split
        · exact ⟨[_, _], rfl, by simp⟩
        · exact ⟨[_], rfl, by simp⟩
      · exact ⟨[], rfl, by simp⟩

/-- A write that has not returned passes bytes to the input that the handle has, and to no other. -/
theorem Feeding.wrote (hf : Feeding h s) (hr : returned s.stack.length s = false) {i g : Nat} {p : Int}
    {data : Bytes} {r : Except Int Nat} (hm : .wrote i g p data r ∈ s.news) :
    i = h ∧ g = (s.handle h).generation ∧ (s.handle h).stdin = some p := by
  rcases hf with ⟨w, hc, hw⟩ | ⟨w, pid, hc, hw, hin⟩ | ⟨w, watch, hc, hw⟩ | ⟨r', hc⟩
  · have hj : s.step.journal = [] ++ s.journal := by
      rw [step, hc]
      dsimp only
      unfold startWrite
      split <;> rfl
    rw [news_eq hj] at hm
    cases hm
  · obtain ⟨es, hj, hes⟩ := wrote_write (s := s) w pid
    have hstep : s.step.journal = es ++ s.journal := by
      rw [step, hc]
      exact hj
    rw [news_eq hstep] at hm
    obtain ⟨hi, hg, hp⟩ := hes i g p data r hm
    rw [hw] at hi hg
    exact ⟨hi, hg, by rw [hp]; exact hin⟩
  · obtain ⟨es, hj, hes⟩ := journal_awaitWritable (s := s) w watch
    have hstep : s.step.journal = es ++ s.journal := by
      rw [step, hc]
      exact hj
    rw [news_eq hstep] at hm
    exact absurd hm (hes i g p data r)
  · rw [returned, hc] at hr
    simp at hr

/-! ## Main theorem -/

/-- A wait for `h` that began in the first state returns the status in the second one. -/
def Returns (h : Nat) (st : ExitStatus) (x y : Machine × List Entry) : Prop :=
  (∃ timeout, x.1.control = .wait h timeout) ∧ y.1.stack.length = x.1.stack.length ∧
    y.1.control = .value (.waited (.ok st))

/-- A write to `h` that began in the first state makes its next step from the second one, and passes
bytes to the input of the child `p`, which is noted as that of generation `g` of handle `i`. -/
def Passes (h i g : Nat) (p : Int) (x y : Machine × List Entry) : Prop :=
  (∃ w, x.1.control = .startWrite w ∧ w.h = h) ∧ y.1.stack.length = x.1.stack.length ∧
    returned y.1.stack.length y.1 = false ∧ ∃ data r, .wrote i g p data r ∈ y.1.news

theorem told_of_returns {G : Machine → Prop} {x y : Machine × List Entry} {st : ExitStatus}
    (hr : Run G y.1 y.2) (hc : Call G x y) (hret : Returns h st x y) :
    Told h (y.1.handle h).generation st y.2 := by
  obtain ⟨⟨timeout, hx⟩, hstack, hctl⟩ := hret
  rcases (wait_pumps h).call hc (.asked timeout hx) with ⟨hown, -⟩ | ⟨f, -, hsuf⟩
  · rcases hown with ⟨_, hc'⟩ | ⟨_, hc'⟩ | ⟨r, hc', hok⟩
    · rw [hctl] at hc'
      cases hc'
    · rw [hctl] at hc'
      cases hc'
    · rw [hctl] at hc'
      cases hc'
      obtain ⟨hreaped, hst⟩ := hok st rfl
      obtain ⟨st', hst', ht⟩ := ((custody_run hr).handle h).reaped hreaped
      have hst' : (y.1.handle h).status = some st' := hst'
      rw [hst] at hst'
      cases hst'
      exact ht
  · have hle := hsuf.length_le
    rw [hstack, List.length_cons] at hle
    omega

theorem spawned_of_passes {G : Machine → Prop} {x y : Machine × List Entry} {i g : Nat} {p : Int}
    (hr : Run G y.1 y.2) (hc : Call G x y) (hpass : Passes h i g p x y) :
    i = h ∧ g = (y.1.handle h).generation ∧ .spawned h g p ∈ y.2 := by
  obtain ⟨⟨w, hx, hw⟩, hstack, hret, data, r, hm⟩ := hpass
  rcases (write_pumps h).call hc (.started w hx hw) with ⟨hown, -⟩ | ⟨f, -, hsuf⟩
  · obtain ⟨hi, hg, hin⟩ := hown.wrote hret hm
    refine ⟨hi, hg, ?_⟩
    rw [hg]
    exact ((custody_run hr).handle h).stdin p hin
  · have hle := hsuf.length_le
    rw [hstack, List.length_cons] at hle
    omega

/-- As long as no callback has spawned upon the handle, a wait returns the exit status of the
generation of the call, and a write passes bytes to the input of its child only.  Each spawn by a
callback moves both on to the next generation. -/
theorem calls_bound_to_generation {x y : Machine × List Entry} (hr : Run (fun _ => True) x.1 x.2)
    (hc : Call (fun _ => True) x y) (h : Nat) : ∃ es, y.2 = es ++ x.2 ∧
    (births h es = 0 →
      (∀ st, Returns h st x y → Told h (x.1.handle h).generation st y.2) ∧
      ∀ i g p, Passes h i g p x y →
        i = h ∧ g = (x.1.handle h).generation ∧ .spawned h g p ∈ x.2) ∧
    ((x.1.handle h).state = .running →
      (∀ st, Returns h st x y → Told h ((x.1.handle h).generation + births h es) st y.2) ∧
      ∀ i g p, Passes h i g p x y →
        i = h ∧ g = (x.1.handle h).generation + births h es ∧ .spawned h g p ∈ y.2) := by
  have hy := hr.call hc
  obtain ⟨es, hes, hl⟩ := lineage_moves (h := h) hr hc.moves
  refine ⟨es, hes, fun hz => ⟨fun st hret => ?_, fun i g p hpass => ?_⟩, ?_⟩
  · rw [← hl.still hz]
    exact told_of_returns hy hc hret
  · obtain ⟨hi, hg, hsp⟩ := spawned_of_passes hy hc hpass
    refine ⟨hi, by rw [hg, hl.still hz], ?_⟩
    rw [hes] at hsp
    exact (List.mem_append.1 hsp).resolve_left (births_eq_zero.1 hz g p)
  · intro hrun
    obtain ⟨-, hgen⟩ := hl.grown (by rw [hrun]; decide)
    refine ⟨?_, ?_⟩
    · intro st hret
      rw [← hgen]
      exact told_of_returns hy hc hret
    · intro i g p hpass
      obtain ⟨hi, hg, hsp⟩ := spawned_of_passes hy hc hpass
      exact ⟨hi, by rw [hg, hgen], hsp⟩

/-- A wait for a child that ends meanwhile. -/
def attended : Machine × List Entry :=
  carry (carry (.fresh .standard 10000000 [] (.fresh true), [])
    (.spawn "a" (.ofArgs ["/bin/true"]) ⟨.standard, [(1000000, .child 0 (.exit 768 []))]⟩ none) 1)
    (.wait "a" 1000000000) 1

theorem attended_run : Run (fun _ => True) attended.1 attended.2 :=
  Run.carry (Run.carry (Run.init (.fresh .standard 10000000 [] (.fresh true) true)) rfl fun _ _ => trivial)
    (by decide) fun _ _ => trivial

theorem attended_call : Call (fun _ => True) attended (walk 26 attended) :=
  Call.walk (fun _ _ => trivial) (by decide)

theorem wait_bound_in_attended : Run (fun _ => True) attended.1 attended.2 ∧
    Call (fun _ => True) attended (walk 26 attended) ∧
    Returns 0 (.exited 3) attended (walk 26 attended) ∧ Told 0 1 (.exited 3) (walk 26 attended).2 := by
  have hret : Returns 0 (.exited 3) attended (walk 26 attended) := ⟨⟨1000000000, rfl⟩, by decide, rfl⟩
  obtain ⟨es, hes, hbound, -⟩ := calls_bound_to_generation attended_run attended_call 0
  have hnone : births 0 es = 0 := by
    have hsum : births 0 (walk 26 attended).2 = births 0 es + births 0 attended.2 := by
      rw [hes, births_append]
    have hafter : births 0 (walk 26 attended).2 = 1 := by decide
    have hbefore : births 0 attended.2 = 1 := by decide
    omega
  exact ⟨attended_run, attended_call, hret, (hbound hnone).1 _ hret⟩

/-- A wait during which an idle watch of the user closes the handle and spawns another child. -/
def rebound : Machine × List Entry :=
  carry (carry (carry (.fresh .standard 10000000 [] (.fresh true), [])
    (.idle 0 (.mk "k" [false] [[.close "a",
      .spawn "a" (.ofArgs ["/bin/false"]) ⟨.standard, [(1000000, .child 0 (.exit 512 []))]⟩ none]])) 1)
    (.spawn "a" (.ofArgs ["/bin/true"]) ⟨.standard, []⟩ none) 1) (.wait "a" 1000000000) 1

/-- A write that fills the pipe, and during which a timer of the user does the same. -/
def redirected : Machine × List Entry :=
  carry (carry (carry (.fresh .standard 10000000 [] (.fresh true), [])
    (.spawn "a" (.ofArgs ["/bin/true"]) ⟨{ Kernel.Habits.standard with capacity := 2 }, []⟩ none) 1)
    (.timer 1000000 0 (.mk "k" [false] [[.close "a",
      .spawn "a" (.ofArgs ["/bin/false"]) ⟨.standard, []⟩ none]])) 1)
    (.write "a" [97, 98, 99, 100]) 1

theorem rebound_run : Run (fun _ => True) rebound.1 rebound.2 :=
  Run.carry (Run.carry (Run.carry (Run.init (.fresh .standard 10000000 [] (.fresh true) true)) rfl
    fun _ _ => trivial) (by decide) fun _ _ => trivial) (by decide) fun _ _ => trivial

theorem redirected_run : Run (fun _ => True) redirected.1 redirected.2 :=
  Run.carry (Run.carry (Run.carry (Run.init (.fresh .standard 10000000 [] (.fresh true) true)) rfl
    fun _ _ => trivial) (by decide) fun _ _ => trivial) (by decide) fun _ _ => trivial

def bornAs? (h g : Nat) : Entry → Option Int
  | .spawned i k p => if i = h ∧ k = g then some p else none
  | _ => none

def toldOf? (p : Int) : Entry → Option ExitStatus
  | .asked q a => if q = p then Loop.statusOf a else none
  | _ => none

/-- A status that is told of a generation has been told of a pid of that generation. -/
theorem told_pid {g : Nat} {st : ExitStatus} (ht : Told h g st log) :
    ∃ p ∈ log.filterMap (bornAs? h g), st ∈ log.filterMap (toldOf? p) := by
  obtain ⟨newer, older, p, a, rfl, hb, hst⟩ := ht
  refine ⟨p, List.mem_filterMap.2 ⟨.spawned h g p, ?_, by simp [bornAs?]⟩,
    List.mem_filterMap.2 ⟨.asked p a, by simp, by simp [toldOf?, hst]⟩⟩
  exact List.mem_append_right _ (List.mem_cons_of_mem _ hb.1)

/-- The wait for the first child returns what has been told of the second one only, and the write to
the first child reaches the second one. -/
theorem calls_cross_generations : Run (fun _ => True) rebound.1 rebound.2 ∧
    Call (fun _ => True) rebound (walk 38 rebound) ∧ (rebound.1.handle 0).generation = 1 ∧
    Returns 0 (.exited 2) rebound (walk 38 rebound) ∧ ¬ Told 0 1 (.exited 2) (walk 38 rebound).2 ∧
    Run (fun _ => True) redirected.1 redirected.2 ∧
    Call (fun _ => True) redirected (walk 25 redirected) ∧ (redirected.1.handle 0).generation = 1 ∧
    Passes 0 0 2 4002 redirected (walk 25 redirected) := by
  refine ⟨rebound_run, Call.walk (fun _ _ => trivial) (by decide), rfl, ⟨⟨1000000000, rfl⟩, by decide, rfl⟩,
    fun ht => ?_, redirected_run, Call.walk (fun _ _ => trivial) (by decide), rfl,
    ⟨⟨_, rfl, rfl⟩, by decide, by decide, _, _, List.mem_of_getElem? (i := 0) rfl⟩⟩
  obtain ⟨p, hp, hst⟩ := told_pid ht
  revert p
  decide

end Overseer.Machine
