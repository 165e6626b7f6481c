import Overseer.Proofs.MachineChanges

/-!
# The first step of a pass

A pass collects the dead, asks the kernel about the descriptors, writes down what it is told, collects once more,
and chooses what to call; or it ends before that.

    attentive s           =  the dead are collected, and old readiness is forgotten
    polls s b             =  what the kernel answers to the question, and the kernel afterwards
    asking s b k a        =  the kernel, now k, has answered a
    informed s b k rs     =  it has reported rs, and that is written down
    recollected s b k rs  =  after this the dead are collected again

    pass s b  =  attentive, asking, or recollected,  with a value or the numbers of the chosen watches

Main statement: `opening`.
-/

namespace Overseer.Machine

open Supervisor
open Kernel (Polled)

def attentive (s : Machine) : Machine := { s.collect with loop := s.collect.loop.forgetFired }

def polls (s : Machine) (b : Bool) : Polled × Kernel :=
  s.collect.kernel.poll (s.collect.loop.requests.map Prod.snd)
    ((s.collect.loop.timeout b s.collect.kernel.now).map Loop.timeoutMs)

/-- The entry about the question and its answer. -/
def question (s : Machine) (b : Bool) (answer : Polled) : Entry :=
  .polled s.collect.loop.requests ((s.collect.loop.timeout b s.collect.kernel.now).map Loop.timeoutMs) answer

def asking (s : Machine) (b : Bool) (k : Kernel) (answer : Polled) : Machine :=
  (s.attentive.withKernel k).record (s.question b answer)

def informed (s : Machine) (b : Bool) (k : Kernel) (revents : List UInt16) : Machine :=
  { s.asking b k (.ready revents) with
    loop := s.attentive.loop.record ((s.collect.loop.requests.map Prod.fst).zip revents) }

def recollected (s : Machine) (b : Bool) (k : Kernel) (revents : List UInt16) : Machine :=
    (s.informed b k revents).collect

/-- A pass is over at once, or it has chosen what to run. -/
inductive Opening (s : Machine) (b : Bool) : Prop
  | stalled (hr : s.collect.loop.requests = []) (ht : s.collect.loop.timeout b s.collect.kernel.now = none)
      (h : s.pass b = s.attentive.yield (.passed .stalled))
  | failed (k : Kernel) (code : Int) (hk : s.polls b = (.failed code, k))
      (h : s.pass b = (s.asking b k (.failed code)).yield (.passed .empty))
  | deadlock (k : Kernel) (hk : s.polls b = (.deadlock, k))
      (h : s.pass b = (s.asking b k .deadlock).stopFromKernel.yield (.passed .empty))
  | quiet (k : Kernel) (revents : List UInt16) (hk : s.polls b = (.ready revents, k))
      (hids : (s.recollected b k revents).loop.readyIds (s.recollected b k revents).kernel.now = [])
      (h : s.pass b = (s.recollected b k revents).yield (.passed .empty))
  | chosen (k : Kernel) (revents : List UInt16) (ids : List Nat) (hk : s.polls b = (.ready revents, k))
    (hne : ids ≠ [])
      (hids : (s.recollected b k revents).loop.readyIds (s.recollected b k revents).kernel.now = ids)
      (h : s.pass b = (s.recollected b k revents).go (.dispatch ids (s.recollected b k revents).kernel.now false))

theorem pass_stalled {s : Machine} {b : Bool} (hr : s.collect.loop.requests = [])
    (ht : s.collect.loop.timeout b s.collect.kernel.now = none) :
    s.pass b = s.attentive.yield (.passed .stalled) := by
  unfold pass
  dsimp only
  rw [hr, ht]
  rfl

/-- The first step of a pass. -/
theorem opening (s : Machine) (b : Bool) : Opening s b := by
  by_cases hstall : (s.collect.loop.requests.isEmpty &&
      (s.collect.loop.timeout b s.collect.kernel.now).isNone) = true
  · have hempty : s.collect.loop.requests = [] ∧ s.collect.loop.timeout b s.collect.kernel.now = none := by
      simpa using hstall
    exact .stalled hempty.1 hempty.2 (pass_stalled hempty.1 hempty.2)
  · obtain ⟨polled, k, hk⟩ : ∃ polled k, s.polls b = (polled, k) := ⟨_, _, rfl⟩
    have hpoll := hk
    unfold polls at hpoll
    cases polled with
    | failed code =>
      refine .failed k code hk ?_
      unfold pass
      dsimp only
      rw [if_neg hstall, hpoll]
      rfl
    | deadlock =>
      refine .deadlock k hk ?_
      unfold pass
      dsimp only
      rw [if_neg hstall, hpoll]
      rfl
    | ready revents =>
      cases hids : (s.recollected b k revents).loop.readyIds (s.recollected b k revents).kernel.now with
      | nil =>
        refine .quiet k revents hk hids ?_
        unfold pass
        dsimp only
        rw [if_neg hstall, hpoll]
        dsimp only
        split
        · rfl
        · next hne => exact absurd hids hne
      | cons id rest =>
        refine .chosen k revents (id :: rest) hk (by simp) hids ?_
        unfold pass
        dsimp only
        rw [if_neg hstall, hpoll]
        dsimp only
        split
        · next hnil => cases hids.symm.trans hnil
        · rw [← hids]
          rfl

/-! ## What is left as it was -/

/-- The loop, the kernel and the journal may have changed, the handles and the stack have not. -/
structure LoopOnly (s t : Machine) : Prop where
  handles : t.handles = s.handles
  tags : t.tags = s.tags
  stack : t.stack = s.stack

namespace LoopOnly

variable {s t u : Machine}

theorem trans (h : LoopOnly s t) (h' : LoopOnly t u) : LoopOnly s u :=
  ⟨h'.handles.trans h.handles, h'.tags.trans h.tags, h'.stack.trans h.stack⟩

theorem collect (h : LoopOnly s t) : LoopOnly s t.collect := h.trans ⟨rfl, rfl, rfl⟩

theorem kernel (h : LoopOnly s t) (k : Kernel) : LoopOnly s (t.withKernel k) := h.trans ⟨rfl, rfl, rfl⟩

theorem record (h : LoopOnly s t) (e : Entry) : LoopOnly s (Machine.record t e) := h.trans ⟨rfl, rfl, rfl⟩

theorem loop (h : LoopOnly s t) (l : Loop Callback) : LoopOnly s { t with loop := l } := h.trans ⟨rfl, rfl, rfl⟩

theorem yield (h : LoopOnly s t) (v : Value) : LoopOnly s (t.yield v) := h.trans ⟨rfl, rfl, rfl⟩

theorem go (h : LoopOnly s t) (c : Control) : LoopOnly s (t.go c) := h.trans ⟨rfl, rfl, rfl⟩

theorem stopFromKernel (h : LoopOnly s t) : LoopOnly s t.stopFromKernel := by
  refine h.trans ?_
  unfold Machine.stopFromKernel
  split <;> exact ⟨rfl, rfl, rfl⟩

end LoopOnly

theorem loopOnly_attentive (s : Machine) : LoopOnly s s.attentive :=
  (LoopOnly.collect ⟨rfl, rfl, rfl⟩).loop _

theorem loopOnly_asking (s : Machine) (b : Bool) (k : Kernel) (answer : Polled) : LoopOnly s (s.asking b k answer) :=
  ((loopOnly_attentive s).kernel k).record _

theorem loopOnly_informed (s : Machine) (b : Bool) (k : Kernel) (revents : List UInt16) :
    LoopOnly s (s.informed b k revents) :=
  (loopOnly_asking s b k _).loop _

theorem loopOnly_recollected (s : Machine) (b : Bool) (k : Kernel) (revents : List UInt16) :
    LoopOnly s (s.recollected b k revents) :=
  (loopOnly_informed s b k revents).collect

theorem loopOnly_pass (s : Machine) (b : Bool) : LoopOnly s (s.pass b) := by
  cases opening s b with
  | stalled hr ht h => rw [h]; exact (loopOnly_attentive s).yield _
  | failed k code hk h => rw [h]; exact (loopOnly_asking s b k _).yield _
  | deadlock k hk h => rw [h]; exact (loopOnly_asking s b k _).stopFromKernel.yield _
  | quiet k revents hk hids h => rw [h]; exact (loopOnly_recollected s b k revents).yield _
  | chosen k revents ids hk hne hids h => rw [h]; exact (loopOnly_recollected s b k revents).go _

theorem alike_stopFromKernel (s : Machine) : Loop.Alike s.loop s.stopFromKernel.loop := by
  unfold stopFromKernel
  split
  · exact ⟨rfl, rfl⟩
  · exact .refl _

@[simp] theorem stack_pass (s : Machine) (b : Bool) : (s.pass b).stack = s.stack := (loopOnly_pass s b).stack

/-! ## What is written into the journal -/

theorem journal_recollected (s : Machine) (b : Bool) (k : Kernel) (revents : List UInt16) :
    (s.recollected b k revents).journal =
      questions ((s.informed b k revents).loop.asks k) ++ s.question b (.ready revents) :: s.collect.journal := rfl

theorem journal_stopFromKernel (s : Machine) :
    ∃ es, s.stopFromKernel.journal = es ++ s.journal ∧ ∀ e ∈ es, e = .quit := by
  unfold stopFromKernel
  split
  · exact ⟨[.quit], rfl, by simp⟩
  · exact ⟨[], rfl, by simp⟩

/-- What a pass does after its first collection only adds to the journal. -/
theorem journal_pass (s : Machine) (b : Bool) : ∃ es, (s.pass b).journal = es ++ s.collect.journal := by
  cases opening s b with
  | stalled hr ht h => exact ⟨[], by rw [h]; rfl⟩
  | failed k code hk h => exact ⟨[s.question b (.failed code)], by rw [h]; rfl⟩
  | deadlock k hk h =>
    obtain ⟨es, he, -⟩ := journal_stopFromKernel (s.asking b k .deadlock)
    refine ⟨es ++ [s.question b .deadlock], ?_⟩
    rw [h, List.append_assoc]
    exact he
  | quiet k revents hk hids h =>
    refine ⟨questions ((s.informed b k revents).loop.asks k) ++ [s.question b (.ready revents)], ?_⟩
    rw [h, List.append_assoc]
    rfl
  | chosen k revents ids hk hne hids h =>
    refine ⟨questions ((s.informed b k revents).loop.asks k) ++ [s.question b (.ready revents)], ?_⟩
    rw [h, List.append_assoc]
    rfl

end Overseer.Machine
