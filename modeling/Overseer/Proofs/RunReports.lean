import Overseer.Proofs.IsolatedRun

/-!
# The report of an isolated run

A report of an isolated run is made after everything has happened, so it can be held against the log.

    out, err   =  all that was read of the two streams
    status     =  none  ↔  outcome = timeout
    outcome    =  pass  ↔  status = exit 0, and no stream has failed
    outcome    =  error ↔  the end is unknown, or the child was reaped and a stream has failed

Trouble with the payload changes no outcome, unless its delivery ran out of time.  Whatever the answer is,
the child is not left to the handle.

Main statement: `report_is_truthful`.
-/

namespace Overseer.Machine

open Supervisor
open Relation (ReflTransGen)

/-- On the way from `x` to `y` the delivery of a payload has run out of time. -/
def Lapsed (G : Machine → Prop) (x y : Machine × List Entry) : Prop :=
  ∃ n z, Call G x z ∧ z.1.control = .value (.wrote (.error (.timeout n))) ∧
    ReflTransGen (fun u v => Move G u v ∧ returned x.1.stack.length u.1 = false) z y

/-- The delivery has run out of time, so the run is going to say that it did. -/
def Late (n : Nat) (p : Phase) (s : Machine) : Prop :=
  s.control = .value (.wrote (.error (.timeout n))) ∨ p.ending? = some (.waited (.error .timeout)) ∨
    ∃ a, p = .ended a ∧ (Ending.waited (.error .timeout)).Answered a

variable {G : Machine → Prop} {s : Machine} {p p' : Phase} {d d' : Option Nat} {log log' : List Entry}
  {outer : Machine} {spec : RunSpec} {n : Nat}

theorem late_step (hl : Late n p s) (he : Errand p d s log) (he' : Errand p' d' s.step log')
    (hleads : Leads s s.step p p' d d') (hr : returned 0 s = false) : Late n p' s.step := by
  rcases hl with hc | hend | ⟨a, rfl, -⟩
  · have hpos := he.position
    rw [hc] at hpos
    generalize hs : s.stack = K at hpos
    cases hpos with
    | writing total hx hw hne hpump hA => cases hpump
    | waiting hx hp hpump hA => cases hpump
    | wrote i total r hx =>
      rw [step_value hc hs]
      exact .inl rfl
    | @written run total r hx =>
      -- a run that is about to end its input, and is late, is over
      have hpos' := he'.position
      have hstep : s.step.control = .finishInput run true := by
        rw [step_value hc hs]
        rfl
      rw [hstep] at hpos'
      generalize s.step.stack = K at hpos'
      cases hpos' with
      | writing total hx hw hne hpump hA => cases hpump
      | waiting hx hp hpump hA => cases hpump
      | lapsed run hx => exact .inr (.inl rfl)
  · rcases hleads.ending _ hend with h | h
    · exact .inr (.inl h)
    · exact .inr (.inr h)
  · have hpos := he.position
    generalize hc : s.control = c at hpos
    generalize hs : s.stack = K at hpos
    cases hpos with
    | wait timeout hx hp => cases hp
    | awaitExit i hx hp => cases hp
    | waiting hx hp hpump hA => cases hp
    | waited r hx hp hr => cases hp
    | ended a hx =>
      rw [returned, hc, hs] at hr
      cases hr

theorem late_of_lapsed {y : Machine × List Entry} (hl : Lapsed G (outer.forRun spec, []) y) :
    ∃ n p d, Errand p d y.1 y.2 ∧ Late n p y.1 := by
  obtain ⟨n, z, hz, hc, hzy⟩ := hl
  refine ⟨n, ?_⟩
  induction hzy with
  | refl =>
    obtain ⟨p, d, he⟩ := errand_call hz
    exact ⟨p, d, he, .inl hc⟩
  | @tail u v _ hm ih =>
    obtain ⟨p, d, he, hlate⟩ := ih
    rcases errand_move he hm.1 hm.2 with ⟨hstep, p', d', he', hleads⟩ | ⟨k, hk, he'⟩
    · rw [hstep] at hleads
      exact ⟨p', d', he', hstep ▸ late_step hlate he (hstep ▸ he') hleads hm.2⟩
    · refine ⟨p, d, he', ?_⟩
      rw [hk]
      exact hlate

/-- The report of an isolated run says what has happened, and no answer leaves a child to the handle. -/
theorem report_is_truthful (hc : Call (fun _ => True) (outer.forRun spec, []) (s, log)) :
    s.control ≠ .value (.waited (.error .notRunning)) ∧
      ∀ a, s.answer? = some a → (s.handle 0).state ≠ .running ∧ (s.handle 0).state ≠ .reaped ∧
        ∀ time rep execution, a = .report time (.ok rep) execution → Truthful (s.handle 0) log rep ∧
          (Lapsed (fun _ => True) (outer.forRun spec, []) (s, log) → rep.outcome = .timeout) := by
  obtain ⟨p, d, he⟩ := errand_call hc
  have hnot : s.control ≠ .value (.waited (.error .notRunning)) := by
    intro h
    have hpos := he.position
    rw [h] at hpos
    generalize s.stack = K at hpos
    cases hpos with
    | writing total hx hw hne hpump hA => cases hpump
    | waiting hx hp hpump hA => cases hpump
    | waited r hx hp hr => exact hr.running rfl
  refine ⟨hnot, fun a h => ?_⟩
  obtain ⟨rfl, hspent⟩ := ended_of_answer he h
  refine ⟨hspent.1, hspent.2, ?_⟩
  rintro time rep execution rfl
  have htrue : Truthful (s.handle 0) log rep := he.fits time rep execution rfl
  refine ⟨htrue, fun hl => ?_⟩
  obtain ⟨n, p', d', he', hlate⟩ := late_of_lapsed hl
  obtain ⟨rfl, -⟩ := ended_of_answer he' h
  rcases hlate with hcontrol | hend | ⟨a, ha, hanswered⟩
  · rw [(control_of_answer h).1] at hcontrol
    cases hcontrol
  · cases hend
  · cases ha
    obtain ⟨r, hr, hstatus⟩ := hanswered time rep execution rfl
    cases hr
    exact htrue.timeout.1 hstatus

/-- A child that sends its input back, and ends well after three milliseconds. -/
def echoing : RunSpec :=
  { command := .ofArgs ["/bin/cat"]
    plan := ⟨{ Kernel.Habits.standard with mode := .echo }, [(3000000, .child 0 (.exit 0 []))]⟩
    execError := none
    payload := some [104, 105]
    timeout := 50000000
    logged := false }

/-- The isolated run of such a child has just answered. -/
def echoed : Machine × List Entry := walk 54 ((Machine.fresh .standard 10000000 [] (.fresh true)).forRun echoing, [])

theorem truthful_of_echoed :
    Call (fun _ => True) ((Machine.fresh .standard 10000000 [] (.fresh true)).forRun echoing, []) echoed ∧
      ∃ time rep execution, echoed.1.answer? = some (.report time (.ok rep) execution) ∧ rep.outcome = .pass ∧
        rep.out = [104, 105] ∧ Truthful (echoed.1.handle 0) echoed.2 rep := by
  have hcall : Call (fun _ => True) ((Machine.fresh .standard 10000000 [] (.fresh true)).forRun echoing, []) echoed :=
    Call.walk (fun _ _ => trivial) (by decide +kernel)
  have hanswer : ∃ time rep execution, echoed.1.answer? = some (.report time (.ok rep) execution) ∧
      rep.outcome = .pass ∧ rep.out = [104, 105] := ⟨_, _, _, rfl, rfl, rfl⟩
  obtain ⟨time, rep, execution, h, hpass, hout⟩ := hanswer
  have htrue := (((report_is_truthful hcall).2 _ h).2.2 _ _ _ rfl).1
  exact ⟨hcall, time, rep, execution, h, hpass, hout, htrue⟩

end Overseer.Machine
