import Overseer.Proofs.Passes

/-!
# Requests to stop

There is one request to stop for all the loops that run upon each other.  The innermost of them looks at it
after each of its passes, and every call of run forgets it, at its beginning and at its end.

    within K s     =  of the loops that run, the innermost is the one upon the frames K, and it waits for a pass
    Leaving K s    =  this loop is about to return, or has just returned
    Heeded K s     =  it is still in the pass in which it was asked to stop, and leaves after it; or it leaves

    quit, no call of run, the pass is over                 →  the loop leaves
    quit, a call of run, no other quit, the pass is over   →  the loop makes another pass

Main statements: `quit_is_heeded`, `quit_is_lost`.
-/

namespace Overseer.Machine

open Supervisor

def Within (K : List Frame) (s : Machine) : Prop := ∃ A, s.stack = A ++ .running :: K ∧ .running ∉ A

inductive Leaving (K : List Frame) (s : Machine) : Prop
  | leaves (hc : s.control = .keepRunning) (hst : s.stack = K) (hq : s.loop.quit = true)
      (hnext : s.step.control = .value (.answer .nothing) ∧ s.step.stack = K)
  | left (hc : s.control = .value (.answer .nothing)) (hst : s.stack = K)

/-- The loop upon `K` is in the pass in which it was asked to stop, begins no other one, and leaves when that one
is over; or it leaves. -/
inductive Heeded (K : List Frame) (s : Machine) : Prop
  | passing (hw : s.Within K) (hno : s.stack = .running :: K → ∀ b, s.control ≠ .pass b)
      (hover : returned (K.length + 1) s = true → s.step.Leaving K)
  | leaving (h : s.Leaving K)

/-- What becomes of the request that is made in the step from `s`, while the loop upon `K` waits for its pass. -/
structure Request (s : Machine) (log : List Entry) (K : List Frame) : Prop where
  heeded : ∀ y, Until K.length (fun u _ => u.control ≠ .perform .run) (s, log) y → y.1.Heeded K
  forgotten : ∀ x y, Until (K.length + 1) (fun _ _ => True) (s, log) x → x.1.control = .perform .run →
    Until (K.length + 1) (fun u v => ¬ Quits u v) x y → ∀ p ≠ Pass.stalled, y.1.stack = .running :: K →
    y.1.control = .value (.passed p) → y.1.step.step.stack = .running :: K ∧ y.1.step.step.control = .pass true

/-- The loop upon `K` is about to be asked to stop, has been asked, or leaves. -/
inductive Requested (K : List Frame) (s : Machine) : Prop
  | asks (hc : s.control = .perform .quit) (hw : s.Within K)
  | waits (hw : s.Within K) (hq : s.loop.quit = true) (hc : s.control ≠ .keepRunning)
      (hno : s.stack = .running :: K → ∀ b, s.control ≠ .pass b)
  | leaving (h : s.Leaving K)

variable {s t : Machine} {G : Machine → Prop} {log log' : List Entry} {K L : List Frame}

/-! ## The innermost loop -/

theorem Within.suffix (hw : s.Within K) : .running :: K <:+ s.stack := by
  obtain ⟨A, hst, -⟩ := hw
  exact ⟨A, hst.symm⟩

/-- The first frame is not that of a running loop, except when nothing stands above it. -/
theorem Within.pop {f : Frame} (hw : s.Within K) (hst : s.stack = f :: L) :
    f = .running ∧ L = K ∨ f ≠ .running ∧ ∃ A, L = A ++ .running :: K ∧ .running ∉ A := by
  obtain ⟨A, hA, hnot⟩ := hw
  rw [hst] at hA
  cases A with
  | nil =>
    obtain ⟨hf, hL⟩ := List.cons.inj hA
    exact .inl ⟨hf, hL⟩
  | cons a A =>
    obtain ⟨rfl, hL⟩ := List.cons.inj hA
    exact .inr ⟨fun hf => hnot (hf ▸ List.mem_cons_self), A, hL, fun hm => hnot (List.mem_cons_of_mem f hm)⟩

theorem Within.of_stack (hw : s.Within K) (hst : t.stack = s.stack) : t.Within K := by
  obtain ⟨A, hA, hnot⟩ := hw
  exact ⟨A, hst.trans hA, hnot⟩

theorem Within.push {B : List Frame} (hw : ∃ A, L = A ++ .running :: K ∧ .running ∉ A) (hB : .running ∉ B)
    (ht : t.stack = B ++ L) : t.Within K := by
  obtain ⟨A, rfl, hnot⟩ := hw
  exact ⟨B ++ A, by rw [ht, List.append_assoc], by simp [hB, hnot]⟩

/-- Only a loop that runs on puts a frame of a running loop on the stack. -/
theorem within_step (hw : s.Within K) (hr : returned (K.length + 1) s = false) (hc : s.control ≠ .keepRunning) :
    s.step.Within K := by
  have taken : ∀ {v f L}, s.control = .value v → s.stack = f :: L →
    ∃ A, L = A ++ .running :: K ∧ .running ∉ A := by
    intro v f L hv hst
    rcases hw.pop hst with ⟨rfl, rfl⟩ | ⟨-, h⟩
    · simp [returned, hv, hst] at hr
    · exact h
  cases hp : s.isLoopStep with
  | false =>
    obtain ⟨M, hplain, hM⟩ := plain_step hp
    obtain ⟨B, hB, hall⟩ := hplain.stack
    have hnot : .running ∉ B := fun hm => by cases hall _ hm
    rcases hM with rfl | ⟨v, f, hv, hst, -⟩
    · exact .push hw hnot hB
    · exact .push (taken hv hst) hnot hB
  | true =>
    cases loopStep_of_isLoopStep hp with
    | pass b hc => exact hw.of_stack (by rw [step, hc]; exact stack_pass s b)
    | dispatch ids now ran hc =>
      obtain ⟨B, hB, hnot⟩ := stack_dispatch s ids now ran
      exact .push hw hnot (by rw [step, hc]; exact hB)
    | settled id cb b L hc hst =>
      refine .push (B := []) (taken hc hst) (by simp) ?_
      rw [step_value hc hst]
      exact stack_settle _ id cb b
    | called v ids now L hc hst => exact .push (B := []) (taken hc hst) (by simp) (by rw [step_value hc hst]; rfl)
    | run hc => exact hw.of_stack (by rw [step, hc]; rfl)
    | quit hc => exact hw.of_stack (by rw [step, hc]; rfl)
    | runsOn h => exact absurd h hc
    | passed p L hc hst =>
      refine .push (B := []) (taken hc hst) (by simp) ?_
      rw [step_value hc hst]
      exact stack_ranOn _ p

/-- A loop runs on when it is called, and after its passes. -/
theorem control_keepRunning (hc : s.control ≠ .perform .run) (hn : s.control ≠ .keepRunning)
    (hp : ∀ p K, s.control = .value (.passed p) → s.stack ≠ .running :: K) : s.step.control ≠ .keepRunning := by
  cases hl : s.isLoopStep with
  | false =>
    obtain ⟨M, hplain, -⟩ := plain_step hl
    exact hplain.control
  | true =>
    cases loopStep_of_isLoopStep hl with
    | pass b h => rw [step, h]; exact (control_pass s b).1
    | dispatch ids now ran h => rw [step, h]; exact (control_dispatch s ids now ran).1
    | settled id cb b L h hst =>
      rw [step_value h hst]
      show (settle _ id cb b).control ≠ .keepRunning
      simp [settle]
    | called v ids now L h hst => rw [step_value h hst]; simp [resume]
    | run h => exact absurd h hc
    | quit h => rw [step, h]; simp [perform]
    | runsOn h => exact absurd h hn
    | passed p L h hst => exact absurd hst (hp p L h)

/-- A pass that a running loop waits for does not begin again. -/
theorem control_not_pass (h : Passing (.running :: K) s) (hst : s.step.stack = .running :: K) (b : Bool) :
    s.step.control ≠ .pass b := by
  cases h with
  | begins hs hc => rw [step, hc]; exact (control_pass s true).2 b
  | choosing ids now ran hs hc => rw [step, hc]; exact (control_dispatch s ids now ran).2 b
  | ended p hs hc hp =>
    have hK : s.step.stack = K := by
      rw [step_value hc hs]
      exact stack_ranOn _ p
    exact absurd (hst.symm.trans hK) (List.cons_ne_self _ _)
  | calling ids now hs =>
    cases hret : returned (Frame.dispatch ids now :: .running :: K).length s with
    | true =>
      obtain ⟨⟨v, hv⟩, hL⟩ := value_of_returned hs hret
      rw [step_value hv hL]
      simp [resume]
    | false =>
      exact absurd (length_lt_of_suffix (suffix_step hs hret)) (by simp [hst])

/-- The pass of a running loop has ended. -/
theorem passed_of_returned (hr : Run G s log) (hst : .running :: K <:+ s.stack)
    (hret : returned (K.length + 1) s = true) :
    ∃ p, s.control = .value (.passed p) ∧ s.stack = .running :: K := by
  obtain ⟨⟨v, hv⟩, hL⟩ := value_of_returned (L := .running :: K) hst hret
  cases passing_run hr K hst with
  | begins _ hc => simp [hv] at hc
  | choosing ids now ran _ hc => simp [hv] at hc
  | ended p _ hc _ => exact ⟨p, hc, hL⟩
  | calling ids now hd =>
    exact absurd (length_lt_of_suffix hd) (by simp [hL])

/-! ## A request that is heeded -/

theorem leaving_of_keepRunning (hc : s.control = .keepRunning) (hst : s.stack = K) (hq : s.loop.quit = true) :
    s.Leaving K := by
  refine .leaves hc hst hq ⟨?_, ?_⟩
  · rw [step_stops hc hq]
    rfl
  · rw [step_stops hc hq]
    exact hst

/-- After a pass a loop that has been asked to stop leaves. -/
theorem leaving_of_passed {p : Pass} (hc : s.control = .value (.passed p)) (hst : s.stack = .running :: K)
    (hq : s.loop.quit = true) : s.step.Leaving K := by
  have hstep : s.step = Machine.ranOn { s with stack := K } p := step_value hc hst
  rw [hstep]
  cases p with
  | stalled => exact .left rfl rfl
  | dispatched => exact leaving_of_keepRunning rfl rfl hq
  | empty => exact leaving_of_keepRunning rfl rfl hq

/-- As long as the pass lasts, no value comes back to the loop. -/
theorem not_passed (hw : s.Within K) (hr : returned (K.length + 1) s = false) {v : Value}
    (hv : s.control = .value v) :
    s.stack ≠ .running :: L := by
  intro hst
  rcases hw.pop hst with ⟨-, rfl⟩ | ⟨hne, -⟩
  · simp [returned, hv, hst] at hr
  · exact hne rfl

/-- While no loop is run, a request to stop stands until it has been heeded. -/
theorem quit_stands (hw : s.Within K) (hr : returned (K.length + 1) s = false) (hc : s.control ≠ .keepRunning)
    (hrun : s.control ≠ .perform .run) (hq : s.loop.quit = true ∨ s.control = .perform .quit) :
    s.step.loop.quit = true := by
  have hkept : s.clearsQuit = false := by
    unfold clearsQuit
    split
    · next h => exact absurd h hrun
    · next h => exact absurd h hc
    · next L hv hst => exact absurd hst (not_passed hw hr hv)
    · rfl
  rcases hq with hq | hq
  · rcases quit_step s with h | ⟨h, -⟩ | ⟨-, h⟩
    · rw [h, hq]
    · exact h
    · rw [hkept] at h
      cases h
  · rw [step, hq]
    rfl

/-- The loop waits on, with the request, or its pass is over and it leaves. -/
theorem requested_step (hr : Run G s log) (hw : s.Within K) (hc : s.control ≠ .keepRunning)
    (hrun : s.control ≠ .perform .run)
    (hq : s.loop.quit = true ∨ s.control = .perform .quit) : Requested K s.step := by
  cases hret : returned (K.length + 1) s with
  | true =>
    -- the value that has come back to the loop is that of its pass
    obtain ⟨p, hv, hst⟩ := passed_of_returned hr hw.suffix hret
    rcases hq with hq | hq
    · exact .leaving (leaving_of_passed hv hst hq)
    · simp [hv] at hq
  | false =>
    refine .waits (within_step hw hret hc) (quit_stands hw hret hc hrun hq) ?_ fun hst b => ?_
    · exact control_keepRunning hrun hc fun p L hv => not_passed hw hret hv
    · exact control_not_pass (passing_run hr K hw.suffix) hst b

theorem Requested.move (hr : Run (fun _ => True) s log) (ha : Requested K s)
    (hm : Move (fun _ => True) (s, log) (t, log'))
    (hret : returned K.length s = false) (hrun : s.control ≠ .perform .run) : Requested K t := by
  have hbusy : s.isIdle = true → False := by
    intro hi
    obtain ⟨⟨v, hv⟩, hnil⟩ := control_of_isIdle hi
    cases ha with
    | asks hc hw => simp [hv] at hc
    | waits hw hq hc hno => simpa [hnil] using hw.suffix
    | leaving h =>
      cases h with
      | leaves hc hst hq hnext => simp [hv] at hc
      | left hc hst => simp [returned, hc, hst] at hret
  cases hm with
  | step =>
    cases ha with
    | asks hc hw => exact requested_step hr hw (by simp [hc]) hrun (.inr hc)
    | waits hw hq hc hno => exact requested_step hr hw hc hrun (.inl hq)
    | leaving h =>
      cases h with
      | leaves hc hst hq hnext => exact .leaving (.left hnext.1 hnext.2)
      | left hc hst => simp [returned, hc, hst] at hret
  | elsewhere k =>
    cases ha with
    | asks hc hw => exact .asks hc hw
    | waits hw hq hc hno => exact .waits hw hq hc hno
    | leaving h =>
      cases h with
      | leaves hc hst hq hnext => exact .leaving (leaving_of_keepRunning hc hst hq)
      | left hc hst => exact .leaving (.left hc hst)
  | rejoin inner a hs =>
    cases ha with
    | asks hc hw => simp [hs] at hc
    | waits hw hq hc hno =>
      refine .waits hw ?_ (by simp [Session.rejoin]) fun _ b => by simp [Session.rejoin]
      show (s.loop.quit || inner.strayQuit) = true
      rw [hq]
      rfl
    | leaving h =>
      cases h with
      | leaves hc hst hq hnext => simp [hs] at hc
      | left hc hst => simp [hs] at hc
  | start op hi => exact (hbusy hi).elim
  | ending hi => exact (hbusy hi).elim

theorem Requested.heeded (hr : Run G s log) (ha : Requested K s) : s.Heeded K := by
  cases ha with
  | asks hc hw => exact .passing hw (fun _ b => by simp [hc]) fun hret => by simp [returned, hc] at hret
  | waits hw hq hc hno =>
    refine .passing hw hno fun hret => ?_
    obtain ⟨p, hv, hst⟩ := passed_of_returned hr hw.suffix hret
    exact leaving_of_passed hv hst hq
  | leaving h => exact .leaving h

/-! ## Main theorem -/

/-- A request that has been forgotten does not stop the loop. -/
theorem goesOn_of_passed {p : Pass} (hp : p ≠ .stalled) (hc : s.control = .value (.passed p))
    (hst : s.stack = .running :: K) (hq : s.loop.quit = false) :
    s.step.step.stack = .running :: K ∧ s.step.step.control = .pass true := by
  have hstep : s.step = Machine.go { s with stack := K } .keepRunning := by
    rw [step_value hc hst]
    cases p with
    | stalled => exact absurd rfl hp
    | dispatched => rfl
    | empty => rfl
  have hnext : (Machine.go { s with stack := K } .keepRunning).step =
      (Machine.push (Machine.go { s with stack := K } .keepRunning) .running).go (.pass true) := step_goesOn rfl hq
  rw [hstep, hnext]
  exact ⟨rfl, rfl⟩

/-- A loop that is asked to stop leaves after the pass that it is in, and makes no other one, if no callback
runs a loop before this pass is over; after a callback that runs a loop it goes on, unless it is asked again. -/
theorem quit_is_heeded (hr : Run (fun _ => True) s log) (hc : s.control = .perform .quit) (hw : s.Within K) :
    Request s log K := by
  constructor
  case heeded =>
    intro y hy
    obtain ⟨hrun, ha⟩ := Until.invariant (P := Requested K) hy hr (.asks hc hw)
      fun _ _ _ _ hr ha hm hret hno => ha.move hr hm hret hno
    exact ha.heeded hrun
  case forgotten =>
    intro x y hx hrun hy p hp hst hv
    have hrx : Run (fun _ => True) x.1 x.2 := (Until.invariant (P := fun _ => True) hx hr trivial
      fun _ _ _ _ _ _ _ _ _ => trivial).1
    have hquit := (Until.invariant (P := fun s => s.control = .perform .run ∨ s.loop.quit = false) hy hrx (.inl hrun)
      fun s log t log' _ hs hm _ hn => ?_).2
    · rcases hquit with h | hq
      · simp [hv] at h
      · exact goesOn_of_passed hp hv hst hq
    · rcases hs with hs | hq
      · cases hm with
        | step => exact .inr (by rw [step, hs]; rfl)
        | elsewhere k => exact .inl hs
        | rejoin inner a h => simp [hs] at h
        | start op hi => obtain ⟨⟨v, hv⟩, -⟩ := control_of_isIdle hi; simp [hs] at hv
        | ending hi => exact .inl hs
      · exact .inr (quit_move hm hn hq)

/-- A loop that runs has called idle work, whose first act is to ask it to stop; there is other idle work,
which asks the same when it is called. -/
def restless (act : Op) : Machine × List Entry :=
  carry (carry (carry (.fresh .standard 10000000 [] (.fresh true), [])
    (.idle 0 (.mk "a" [false] [[.quit, act]])) 1)
    (.idle 5 (.mk "d" [true, true, false] [[.quit]])) 1) .run 5

theorem restless_run (act : Op) : Run (fun _ => True) (restless act).1 (restless act).2 :=
  Run.carry (Run.carry (Run.carry (Run.init (.fresh .standard 10000000 [] (.fresh true) true)) rfl
    fun _ _ => trivial) rfl fun _ _ => trivial) rfl fun _ _ => trivial

/-- Only one loop runs, and nothing waits for it. -/
theorem within_nil (h : (s.stack.dropWhile fun f => !(f matches .running)).length = 1) : s.Within [] := by
  obtain ⟨f, hf⟩ := List.length_eq_one_iff.1 h
  have hrunning : f = .running := by
    have hhead := List.head?_dropWhile_not (fun f : Frame => !(f matches .running)) s.stack
    rw [hf] at hhead
    cases f <;> first | rfl | cases hhead
  refine ⟨s.stack.takeWhile fun f => !(f matches .running), ?_, fun hm => ?_⟩
  · rw [← hrunning, ← hf, List.takeWhile_append_dropWhile]
  · have hall := List.all_takeWhile (p := fun f : Frame => !(f matches .running)) (l := s.stack)
    rw [List.all_eq_true] at hall
    cases hall _ hm

def asksRun : Control → Bool
  | .perform .run => true
  | _ => false

/-- A nested pass leaves the request as it is, and the loop returns though a watch is left. -/
theorem heeded_of_restless : Run (fun _ => True) (restless (.iterate false)).1 (restless (.iterate false)).2 ∧
    (restless (.iterate false)).1.control = .perform .quit ∧ (restless (.iterate false)).1.Within [] ∧
    Until 0 (fun u _ => u.control ≠ .perform .run) (restless (.iterate false))
    (walk 18 (restless (.iterate false))) ∧
    (walk 18 (restless (.iterate false))).1.Heeded [] ∧
    (walk 18 (restless (.iterate false))).1.isIdle = true ∧
    (walk 18 (restless (.iterate false))).1.loop.ids = [2] := by
  have hret : ∀ m < 18, returned 0 (walk m (restless (.iterate false))).1 = false := by decide
  have hruns : ∀ m < 18, asksRun (walk m (restless (.iterate false))).1.control = false := by decide
  have hpath : Until 0 (fun u _ => u.control ≠ .perform .run) (restless (.iterate false))
      (walk 18 (restless (.iterate false))) := by
    refine until_walk hret fun m hm hc => ?_
    have hno := hruns m hm
    rw [hc] at hno
    cases hno
  have hrequest := quit_is_heeded (restless_run (.iterate false)) rfl (within_nil (by decide))
  have hheeded := hrequest.heeded
  rw [Prod.eta] at hheeded
  exact ⟨restless_run _, rfl, within_nil (by decide), hpath, hheeded _ hpath, by decide, by decide⟩

/-- A loop that the same callback runs forgets the request: the first loop makes another pass. -/
theorem quit_is_lost : Run (fun _ => True) (restless .run).1 (restless .run).2 ∧
    (restless .run).1.control = .perform .quit ∧ (restless .run).1.Within [] ∧
    Until 0 (fun _ _ => True) (restless .run) (walk 20 (restless .run)) ∧
    (walk 20 (restless .run)).1.stack = [.running] ∧ (walk 20 (restless .run)).1.control = .pass true := by
  have hret : ∀ m < 20, returned 0 (walk m (restless .run)).1 = false := by decide
  exact ⟨restless_run _, rfl, within_nil (by decide), until_walk hret fun _ _ => trivial, rfl, rfl⟩

end Overseer.Machine
