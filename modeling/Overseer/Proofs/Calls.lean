import Overseer.Proofs.Custody
import Overseer.Proofs.Frames

/-!
# Calls and their callers

When a call begins, the frames on the stack are those of its callers.  A step puts frames upon the
stack, or takes the first one up when a value comes back, so the callers wait untouched until the
call has returned.

    returned n s       =  a value has come back to a stack of n frames
    Call G x y         :  y is reached from x by moves of a call that had not returned before
    Pumping K own fr s =  the call is in a state of its own upon the frames K of its callers, or it
                          waits behind a frame fr, whatever callbacks are doing above

Main statements: `suffix_step` (a step leaves the callers alone) and `Pumper.call` (a call that pumps
the loop does nothing else).
-/

namespace Overseer.Machine

open Supervisor
open Relation (ReflTransGen)

def returned (depth : Nat) (s : Machine) : Bool :=
  match s.control with
  | .value _ => s.stack.length == depth
  | _ => false

/-- Moves of a call that begins in the first state; only in the last one it may have returned. -/
def Call (G : Machine → Prop) (x y : Machine × List Entry) : Prop :=
  ReflTransGen (fun u v => Move G u v ∧ returned x.1.stack.length u.1 = false) x y

/-- A call above the frames `K` is in a state of its own, or it waits for a value. -/
def Pumping (K : List Frame) (own : Machine → Prop) (frame : Frame → Prop) (s : Machine) : Prop :=
  (own s ∧ s.stack = K) ∨ ∃ f, frame f ∧ f :: K <:+ s.stack

/-- What makes a call one that pumps: from its own states it goes on in them, returns, or waits, and a
frame of it is taken up in a state of its own or goes on waiting. -/
structure Pumper (own : Machine → Prop) (frame : Frame → Prop) : Prop where
  awake : ∀ s spec, own s → s.control ≠ .suspended spec
  kernel : ∀ s k, own s → own (s.withKernel k)
  step : ∀ s, own s → returned s.stack.length s = false →
    (own s.step ∧ s.step.stack = s.stack) ∨ ∃ f, frame f ∧ s.step.stack = f :: s.stack
  resume : ∀ (s : Machine) (f : Frame) (v : Value), frame f →
    (own (s.resume f v) ∧ (s.resume f v).stack = s.stack) ∨ s.resume f v = s.push f

variable {s t : Machine}

/-! ## Steps -/

/-- A step takes up the first frame at most, and only when a value has come back to it. -/
theorem suffix_step {L : List Frame} (hL : L <:+ s.stack) (hr : returned L.length s = false) :
    L <:+ s.step.stack := by
  -- a frame that a value comes back to stands above `L`
  have above : ∀ {v f K}, s.control = .value v → s.stack = f :: K → L <:+ K := by
    intro v f K hv hst
    rw [hst] at hL
    rcases List.suffix_cons_iff.1 hL with rfl | hrest
    · rw [returned, hv, hst] at hr
      simp at hr
    · exact hrest
  have taken : ∀ {v f K}, s.control = .value v → s.stack = f :: K → L <:+ s.step.stack := by
    intro v f K hv hst
    rw [step_value hv hst]
    exact (above hv hst).trans (suffix_resume { s with stack := K } f v (by simp [hv]))
  cases hp : s.isLoopStep with
  | false =>
    obtain ⟨K, hplain, rfl | ⟨v, f, hv, hst, -⟩⟩ := plain_step hp
    · exact hL.trans hplain.stack.suffix
    · exact taken hv hst
  | true =>
    cases loopStep_of_isLoopStep hp with
    | pass b hc => rwa [step, hc, stack_pass]
    | dispatch ids now ran hc =>
      rw [step, hc]
      exact hL.trans (suffix_dispatch s ids now ran)
    | settled id cb b K hc hst => exact taken hc hst
    | called v ids now K hc hst => exact taken hc hst
    | run hc => rwa [step, hc]
    | quit hc => rwa [step, hc]
    | runsOn hc =>
      rw [step, hc]
      exact hL.trans (suffix_keepRunning s)
    | passed p K hc hst => exact taken hc hst

/-! ## Calls that pump -/

variable {G : Machine → Prop} {K : List Frame} {own : Machine → Prop} {frame : Frame → Prop}

theorem returned_of_isIdle (h : s.isIdle = true) : returned 0 s = true := by
  obtain ⟨⟨v, hv⟩, hst⟩ := control_of_isIdle h
  rw [returned, hv, hst]
  rfl

theorem returned_of_value {v : Value} {L : List Frame} (hv : s.control = .value v) (hst : s.stack = L) :
    returned L.length s = true := by
  rw [returned, hv, hst]
  exact beq_self_eq_true L.length

/-- A frame that a value comes back to is the first one. -/
theorem value_of_returned {L : List Frame} (hL : L <:+ s.stack) (hr : returned L.length s = true) :
    (∃ v, s.control = .value v) ∧ s.stack = L := by
  unfold returned at hr
  split at hr
  · next v hv =>
    have hlen : s.stack.length = L.length := by simpa using hr
    exact ⟨⟨v, hv⟩, (hL.eq_of_length hlen.symm).symm⟩
  · cases hr

theorem Pumper.pumping_step (hp : Pumper own frame) (h : Pumping K own frame s)
    (hr : returned K.length s = false) : Pumping K own frame s.step := by
  rcases h with ⟨hown, rfl⟩ | ⟨f, hf, hsuf⟩
  · rcases hp.step s hown hr with hgo | ⟨f, hf, hst⟩
    · exact .inl hgo
    · exact .inr ⟨f, hf, hst ▸ List.suffix_rfl⟩
  · cases hret : returned (f :: K).length s with
    | false => exact .inr ⟨f, hf, suffix_step hsuf hret⟩
    | true =>
      obtain ⟨⟨v, hv⟩, hst⟩ := value_of_returned hsuf hret
      rw [step_value hv hst]
      rcases hp.resume { s with stack := K } f v hf with hown | hpush
      · exact .inl hown
      · rw [hpush]
        exact .inr ⟨f, hf, List.suffix_rfl⟩

theorem Pumper.pumping_move (hp : Pumper own frame) {log log' : List Entry}
    (h : Pumping K own frame s) (hm : Move G (s, log) (t, log')) (hr : returned K.length s = false) :
    Pumping K own frame t := by
  -- a machine at rest has no call that has not returned
  have hbusy : s.isIdle = true → False := by
    intro hi
    have hst : s.stack = [] := (control_of_isIdle hi).2
    rcases h with ⟨-, rfl⟩ | ⟨f, -, hsuf⟩
    · rw [hst, List.length_nil, returned_of_isIdle hi] at hr
      cases hr
    · rw [hst] at hsuf
      cases List.suffix_nil.1 hsuf
  cases hm with
  | step hg => exact hp.pumping_step h hr
  | elsewhere k => exact h.imp (fun ho => ⟨hp.kernel _ k ho.1, ho.2⟩) id
  | rejoin inner a hs =>
    rcases h with ⟨ho, -⟩ | hf
    · exact absurd hs (hp.awake s _ ho)
    · exact .inr hf
  | start op hi => exact (hbusy hi).elim
  | ending hi => exact (hbusy hi).elim

/-- A call that pumps is in a state of its own, or waits, until it has returned. -/
theorem Pumper.call (hp : Pumper own frame) {x y : Machine × List Entry} (hc : Call G x y)
    (hx : own x.1) : Pumping x.1.stack own frame y.1 := by
  induction hc with
  | refl => exact .inl ⟨hx, rfl⟩
  | @tail u v _ hm ih => exact hp.pumping_move ih hm.1 hm.2

theorem Call.moves {x y : Machine × List Entry} (hc : Call G x y) : ReflTransGen (Move G) x y :=
  ReflTransGen.mono (fun _ _ hm => hm.1) _ _ hc

theorem walk_succ (n : Nat) (x : Machine × List Entry) :
    walk (n + 1) x = ((walk n x).1.step, (walk n x).1.news ++ (walk n x).2) := by
  induction n generalizing x with
  | zero => rfl
  | succ n ih => exact ih _

/-- Steps that are moves of some kind make a path of moves of that kind. -/
theorem walk_path {R : Machine × List Entry → Machine × List Entry → Prop} {n : Nat} {x : Machine × List Entry}
    (h : ∀ m < n, R (walk m x) ((walk m x).1.step, (walk m x).1.news ++ (walk m x).2)) :
    ReflTransGen R x (walk n x) := by
  induction n with
  | zero => exact .refl
  | succ n ih =>
    rw [walk_succ]
    exact (ih fun m hm => h m (Nat.lt_succ_of_lt hm)).tail (h n (Nat.lt_succ_self n))

theorem Call.walk {n : Nat} {x : Machine × List Entry} (hg : ∀ m < n, G (walk m x).1)
    (hr : ∀ m < n, returned x.1.stack.length (walk m x).1 = false) : Call G x (walk n x) :=
  walk_path fun m hm => ⟨.step (hg m hm), hr m hm⟩

/-- The states of a call have been reached by a run. -/
theorem Run.call {x y : Machine × List Entry} (hr : Run G x.1 x.2) (hc : Call G x y) : Run G y.1 y.2 := by
  obtain ⟨s₀, hi, hs⟩ := hr
  exact ⟨s₀, hi, hs.trans hc.moves⟩

end Overseer.Machine
