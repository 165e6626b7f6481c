import Overseer.Proofs.Deadlines
import Overseer.Proofs.Limits
import Overseer.Proofs.Passes

/-!
# Waits that return in time

A wait whose timer is due at D goes through passes, and none of them sleeps past D by more than the
rounding.  Callbacks may take time as well, and then the wait is late; so what is asked of them here is
that they do not.

    Steady n s  =  the step from s takes no time, or it is a pass that a call with n frames waits for

    begun  →  awake  ⇄  pumping        begun, awake  →  returned        now ≤ D + rounding  all the way

Main statement: `punctual_step`.
-/

namespace Overseer.Machine

open Supervisor

/-- The next step is the first one of a pass. -/
def atPass (s : Machine) : Bool :=
  match s.control with
  | .pass _ => true
  | _ => false

/-- The step takes no time, but in a pass upon a stack as high as this. -/
def Steady (height : Nat) (s : Machine) : Prop :=
  s.step.kernel.now = s.kernel.now ∨ s.stack.length = height ∧ s.atPass = true

instance (height : Nat) (s : Machine) : Decidable (Steady height s) := inferInstanceAs (Decidable (_ ∨ _ ∧ _))

/-- Where a wait for the handle `h` is, upon the frames `K` of its callers, that has to be over at `D`. -/
inductive Punctual (h D : Nat) (K : List Frame) (s : Machine) : Prop
  | begun (timeout : Nat) (hc : s.control = .wait h timeout) (hst : s.stack = K) (hd : s.kernel.now + timeout = D)
  | awake (i : Nat) (hc : s.control = .awaitExit h i) (hst : s.stack = K) (hl : Limit i D s)
      (hnow : s.kernel.now ≤ D + rounding)
  | pumping (i : Nat) (A : List Frame) (hst : s.stack = A ++ .waiting h i :: K) (hp : Passing (.waiting h i :: K) s)
      (hfirst : A = [] → s.atPass = true → i ∉ s.raised) (hA : Spared i D A s) (hl : Limit i D s)
      (hnow : s.kernel.now ≤ D + rounding)
  | returned (r : Except WaitError ExitStatus) (hc : s.control = .value (.waited r)) (hst : s.stack = K)
      (hnow : s.kernel.now ≤ D + rounding)

variable {s t : Machine} {h i D : Nat} {past : List Machine} {log : List Entry} {A K L : List Frame}

theorem control_of_atPass (hs : s.atPass = true) : ∃ b, s.control = .pass b := by
  unfold atPass at hs
  split at hs
  · next b hc => exact ⟨b, hc⟩
  · cases hs

/-! ## The pass that a wait waits for -/

/-- A pass goes on, and it does not begin again. -/
theorem Passing.step (hp : Passing L s) (hnone : ∀ p, s.stack = L → s.control ≠ .value (.passed p)) :
    Passing L s.step ∧ (s.step.stack = L → ∀ b, s.step.control ≠ .pass b) := by
  cases hp with
  | begins hst hc =>
    have hstep : s.step = s.pass true := by rw [Machine.step, hc]
    rw [hstep]
    exact ⟨passing_opening s hst, fun _ => (control_pass s true).2⟩
  | choosing ids now ran hst hc =>
    have hstep : s.step = s.dispatch ids now ran := by rw [Machine.step, hc]
    rw [hstep]
    exact ⟨passing_dispatch s ids now ran hst, fun _ => (control_dispatch s ids now ran).2⟩
  | calling ids now hst =>
    cases hret : returned (Frame.dispatch ids now :: L).length s with
    | false =>
      have hst' := suffix_step hst hret
      refine ⟨.calling ids now hst', fun hL => ?_⟩
      exact absurd (length_lt_of_suffix hst') (by rw [hL]; exact Nat.lt_irrefl _)
    | true =>
      obtain ⟨⟨v, hv⟩, hst'⟩ := value_of_returned hst hret
      have hstep : s.step = Machine.go { s with stack := L } (.dispatch ids now true) := by
        rw [step_value hv hst']
        rfl
      rw [hstep]
      exact ⟨.choosing ids now true rfl rfl, fun _ _ hc => by cases hc⟩
  | ended p hst hc => exact absurd hc (hnone p hst)

theorem Passing.later (hp : Passing L s) (hl : Lull s t) : Passing L t := by
  cases hp with
  | begins hst hc => exact .begins (hl.stack.trans hst) (hl.control_of hc (by simp))
  | choosing ids now ran hst hc =>
    exact .choosing ids now ran (hl.stack.trans hst) (hl.control_of hc (by simp))
  | calling ids now hst => exact .calling ids now (hl.stack ▸ hst)
  | ended p hst hc hp =>
    refine .ended p (hl.stack.trans hst) (hl.control_of hc (by simp)) fun hs => ?_
    refine (Loop.starved_congr fun id => ?_).2 (hp hs)
    rw [Loop.look, Loop.look, Loop.find?, Loop.find?, hl.between.watches]

/-! ## Steps -/

/-- While its timer is armed, a wait sleeps for no longer than it may. -/
theorem now_of_steady (hs : Steady (K.length + 1) s) (hst : s.stack = A ++ .waiting h i :: K) (hl : Limit i D s)
    (hfirst : A = [] → s.atPass = true → i ∉ s.raised) (hnow : s.kernel.now ≤ D + rounding) :
    s.step.kernel.now ≤ D + rounding := by
  rcases hs with hsame | ⟨hheight, hpass⟩
  · exact hsame ▸ hnow
  · obtain ⟨b, hc⟩ := control_of_atPass hpass
    have hnil : A = [] := by
      rw [hst] at hheight
      simpa using hheight
    have hstep : s.step = s.pass b := by rw [step, hc]
    cases hl.alarm with
    | armed interval hw =>
      have hslept := pass_now_le hw b
      rw [hstep]
      exact Nat.le_trans hslept (Nat.max_le.2 ⟨hnow, Nat.le_refl _⟩)
    | ringing payload hcall => rw [hc] at hcall; cases hcall
    | rung hr => exact absurd hr (hfirst hnil hpass)

/-- A wait begins with a new timer, unless there is nothing to wait for. -/
theorem begun_punctual (ht : Trail past s log) {timeout : Nat} (hc : s.control = .wait h timeout) (hst : s.stack = K)
    (hd : s.kernel.now + timeout = D) : Punctual h D K s.step := by
  have hstep : s.step = s.wait h timeout := by rw [step, hc]
  have hnow : s.kernel.now ≤ D + rounding := by omega
  have hcases : (∃ r, s.step = s.yield (.waited r)) ∨
      s.step = (s.addTimer timeout Loop.Priority.normal .raise).2.go (.awaitExit h (s.loop.lastId + 1)) := by
    rw [hstep, wait]
    split
    · exact .inl ⟨_, rfl⟩
    · exact .inr rfl
    · exact .inl ⟨_, rfl⟩
  rcases hcases with ⟨r, heq⟩ | heq
  · rw [heq]
    exact .returned r rfl hst hnow
  · have harmed : timer (s.loop.lastId + 1) timeout D ∈ s.step.loop.watches := by
      rw [heq, ← hd]
      exact List.mem_append_right _ List.mem_cons_self
    have hfresh : s.loop.lastId + 1 ∉ s.step.raised :=
      not_raised_of_armed (accounts_trail ht.step) (custody_run ht.step.run).sound.tidy harmed
    have hlimit : Limit (s.loop.lastId + 1) D s.step :=
      ⟨by rw [heq]; exact Nat.le_refl _, .armed timeout harmed, fun hr => absurd hr hfresh⟩
    rw [heq] at hlimit ⊢
    exact .awake _ rfl hst hlimit hnow

/-- A wait that looks at its handle is over, or it goes through one more pass with its timer armed. -/
theorem awake_punctual (hc : s.control = .awaitExit h i) (hst : s.stack = K) (hl : Limit i D s)
    (hnow : s.kernel.now ≤ D + rounding) : Punctual h D K s.step := by
  have hstep : s.step = s.awaitExit h i := by rw [step, hc]
  have hcases : (∃ r, s.step = s.endWait i r) ∨
    s.isRaised i = false ∧ s.step = (s.push (.waiting h i)).go (.pass true) := by
    rw [hstep, awaitExit]
    split
    · exact .inl ⟨_, rfl⟩
    · split
      · exact .inl ⟨_, rfl⟩
      · next hraised => exact .inr ⟨by simpa using hraised, rfl⟩
    · exact .inl ⟨_, rfl⟩
  rcases hcases with ⟨r, heq⟩ | ⟨hraised, heq⟩
  · rw [heq]
    exact .returned r rfl hst hnow
  · have hfresh : i ∉ s.raised := fun hr => by
      rw [isRaised, List.contains_iff_mem.2 hr] at hraised
      cases hraised
    have hstack : ((s.push (.waiting h i)).go (.pass true)).stack = .waiting h i :: K := congrArg _ hst
    have hlimit : Limit i D ((s.push (.waiting h i)).go (.pass true)) := by
      refine ⟨hl.le, ?_, hl.rung⟩
      cases hl.alarm with
      | armed interval hw => exact .armed interval hw
      | ringing payload hcall => rw [hc] at hcall; cases hcall
      | rung hr => exact .rung hr
    rw [heq]
    exact .pumping i [] hstack (.begins hstack rfl) (fun _ _ => hfresh)
      ⟨0, fun n _ => ⟨List.forall_mem_nil _, trivial⟩⟩
      hlimit hnow

/-- When its pass is over a wait looks at its handle; until then its timer is left alone. -/
theorem pumping_punctual (ht : Trail past s log) (hs : Steady (K.length + 1) s)
    (hst : s.stack = A ++ .waiting h i :: K)
    (hp : Passing (.waiting h i :: K) s) (hfirst : A = [] → s.atPass = true → i ∉ s.raised) (hA : Spared i D A s)
    (hl : Limit i D s) (hnow : s.kernel.now ≤ D + rounding) : Punctual h D K s.step := by
  have hlate := now_of_steady hs hst hl hfirst hnow
  by_cases hended : ∃ p, s.stack = .waiting h i :: K ∧ s.control = .value (.passed p)
  · obtain ⟨p, hst', hc⟩ := hended
    have hstep : s.step = Machine.go { s with stack := K } (.awaitExit h i) := by
      rw [step_value hc hst']
      rfl
    have hlimit := limit_step ht hl (by rw [lowers, hc, hst']; exact List.not_mem_nil) (by simp [hc])
    rw [hstep] at hlimit hlate ⊢
    exact .awake i rfl rfl hlimit hlate
  · obtain ⟨hp', hnew⟩ := hp.step fun p hL hc => hended ⟨p, hL, hc⟩
    have hbusy : A = [] → ∀ v, s.control ≠ .value v := by
      rintro rfl v hv
      cases hp with
      | begins hst hc => rw [hv] at hc; cases hc
      | choosing ids now ran hst hc => rw [hv] at hc; cases hc
      | calling ids now hL => exact absurd (length_lt_of_suffix hL) (by rw [hst]; exact Nat.lt_irrefl _)
      | ended p hst hc => exact hended ⟨p, hst, hc⟩
    obtain ⟨⟨A', hst', hA'⟩, hl'⟩ := spared_step ht hst (by simp) hA hl hbusy
    refine .pumping i A' hst' hp' (fun hnil hc => ?_) hA' hl' hlate
    -- no second pass begins before the wait has looked at its timer again
    obtain ⟨b, hc⟩ := control_of_atPass hc
    exact absurd hc (hnew (by rw [hst', hnil]; rfl) b)

/-! ## The whole wait -/

theorem punctual_step (ht : Trail past s log) (hs : Steady (K.length + 1) s) (hret : returned K.length s = false)
    (hp : Punctual h D K s) : Punctual h D K s.step := by
  cases hp with
  | begun timeout hc hst hd => exact begun_punctual ht hc hst hd
  | awake i hc hst hl hnow => exact awake_punctual hc hst hl hnow
  | pumping i A hst hp hfirst hA hl hnow => exact pumping_punctual ht hs hst hp hfirst hA hl hnow
  | returned r hc hst hnow => cases (returned_of_value hc hst).symm.trans hret

theorem Punctual.later (hp : Punctual h D K s) (hl : Lull s t) (hnow : t.kernel.now = s.kernel.now) :
    Punctual h D K t := by
  cases hp with
  | begun timeout hc hst hd =>
    exact .begun timeout (hl.control_of hc (by simp)) (hl.stack.trans hst) (hnow ▸ hd)
  | awake i hc hst hlim hle =>
    exact .awake i (hl.control_of hc (by simp)) (hl.stack.trans hst) (hlim.later hl (Nat.le_of_eq hnow.symm))
      (hnow ▸ hle)
  | pumping i A hst hp hfirst hA hlim hle =>
    refine .pumping i A (hl.stack.trans hst) (hp.later hl) (fun hnil hc => ?_) (hA.later hl (Nat.le_of_eq hnow.symm))
      (hlim.later hl (Nat.le_of_eq hnow.symm)) (hnow ▸ hle)
    rw [hl.raised]
    rcases hl.control with hsame | ⟨-, a, ha⟩
    · rw [atPass, hsame] at hc
      exact hfirst hnil hc
    · rw [atPass, ha] at hc
      cases hc
  | returned r hc hst hle => exact .returned r (hl.control_of hc (by simp)) (hl.stack.trans hst) (hnow ▸ hle)

/-- A wait that has returned is over in time. -/
theorem now_le_of_returned (hp : Punctual h D K s) (hret : returned K.length s = true) :
    s.kernel.now ≤ D + rounding := by
  cases hp with
  | begun timeout hc => rw [returned, hc] at hret; cases hret
  | awake i hc => rw [returned, hc] at hret; cases hret
  | pumping i A hst hp hfirst hA hl hnow => exact hnow
  | returned r hc hst hnow => exact hnow

end Overseer.Machine
