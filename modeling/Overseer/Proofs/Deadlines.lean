import Overseer.Proofs.Alarms
import Overseer.Proofs.IsolatedRun

/-!
# One deadline for a whole run

No time passes in an isolated run but in the passes of its waits, and each wait has a timer.  So each phase
is over at a time that is known at the start.

    input    start + timeout                                  the payload and the wait share the timeout
    await    … + rounding
    grace    … + rounding + grace
    killed   … + rounding + 200 ms

A timer is not waited for any longer than its time, but for the rounding of a sleep to milliseconds.  Of a
poll nothing is used but that it does not sleep longer than it is asked to: it may be interrupted or fail after any
part of its time, or return early with any report, and the next pass then asks for what is left.

Main statement: `one_deadline`.
-/

namespace Overseer

open Supervisor

namespace Supervisor

/-- By when the timer of a phase is due, for a run that starts at `t₀` with the timeout `τ` and the grace `γ`. -/
def Phase.due (t₀ τ γ : Nat) : Phase → Nat
  | begin _ => t₀
  | input _ => t₀ + τ
  | await _ => t₀ + τ + rounding
  | leave .. => t₀ + τ + rounding
  | grace .. => t₀ + τ + 2 * rounding + γ
  | _ => t₀ + τ + 3 * rounding + γ + Machine.killWait

/-- By when a phase is over. -/
def Phase.latest (t₀ τ γ : Nat) (p : Phase) : Nat :=
  match p with
  | begin _ => t₀
  | p => p.due t₀ τ γ + rounding

/-- The later a phase is, the later it is over. -/
theorem Phase.late {p p' : Phase} (t₀ τ γ : Nat) (h : p.rank ≤ p'.rank) :
    p.due t₀ τ γ ≤ p'.due t₀ τ γ ∧ p.latest t₀ τ γ ≤ p'.latest t₀ τ γ := by
  cases p <;> cases p' <;> simp only [rank, latest, due] at h ⊢ <;> omega

end Supervisor

namespace Machine

/-- An isolated run that has started at `t₀` is in time. -/
structure Timely (t₀ : Nat) (spec : RunSpec) (γ : Nat) (p : Phase) (d : Option Nat) (s : Machine) : Prop where
  clock : s.kernel.now ≤ p.latest t₀ spec.timeout γ
  grace : s.config.grace = γ
  begin : ∀ spec', p = .begin spec' → spec' = spec ∧ s.kernel.now = t₀
  run : ∀ run, p.run? = some run → run.spec = spec ∧ run.started = t₀
  wait : ∀ h timeout, s.control = .wait h timeout → s.kernel.now + timeout ≤ p.due t₀ spec.timeout γ
  pass : ∀ b, s.control = .pass b → ∀ i, d = some i → i ∉ s.raised
  alarm : ∀ i, d = some i → ∃ D, D ≤ p.due t₀ spec.timeout γ ∧ Alarm s i D
  ended : ∀ a, p = .ended a → ∀ time rep execution, a = .report time (.ok rep) execution →
    rep.duration ≤ spec.timeout + γ + killWait + 4 * rounding

variable {G : Machine → Prop} {s t : Machine} {p p' : Phase} {d d' : Option Nat} {log log' : List Entry}
  {outer : Machine} {spec : RunSpec} {t₀ γ i D : Nat} {past : List Machine}

/-! ## The timer of a wait -/

theorem lowers_of_pumping (hc : s.control.isPumping = true) : s.lowers = [] := by
  unfold lowers
  split
  all_goals first
    | (next hcon => rw [hcon] at hc; cases hc)
    | (next hcon _ => rw [hcon] at hc; cases hc)
    | rfl

/-- A call that goes on waiting keeps its timer. -/
theorem alarm_kept (ht : Trail past s log) (he : Errand p (some i) s log) (he' : Errand p' (some i) s.step log')
    (ha : Alarm s i D) : Alarm s.step i D := by
  have hkept : i ∉ s.lowers → Alarm s.step i D := alarm_step (accounts_trail ht) he.tidy ha
  have hnone : s.lowers = [] → Alarm s.step i D := fun h => hkept (by rw [h]; exact List.not_mem_nil)
  have hpos := he.position
  generalize hc : s.control = c at hpos
  generalize hs : s.stack = K at hpos
  cases hpos with
  | startWrite total hx hw => exact hnone (by rw [lowers, hc])
  | write total pid hx hw => exact hnone (by rw [lowers, hc])
  | awaitWritable total hx hw hne =>
    refine hkept ?_
    rw [lowers, hc]
    simpa using hne.symm
  | writing total hx hw hne hpump hA => exact hnone (lowers_of_pumping (by rw [hc]; exact hpump))
  | waiting hx hp hpump hA => exact hnone (lowers_of_pumping (by rw [hc]; exact hpump))
  | awaitExit d hx hp =>
    have hstep : s.step = s.awaitExit 0 i := by rw [step, hc]
    -- the timer is dropped at the end of the wait only, and then the call waits for none
    have hend : ∀ r, ¬ Errand p' (some i) (s.endWait i r) log' := by
      intro r hend
      have hpos' := hend.position
      have hcontrol : (s.endWait i r).control = .value (.waited r) := rfl
      rw [hcontrol] at hpos'
      generalize (s.endWait i r).stack = K' at hpos'
      cases hpos' with
      | writing total hx hw hne hpump hA => cases hpump
      | waiting hx hp hpump hA => cases hpump
    rw [hstep] at he' ⊢
    unfold awaitExit at he' ⊢
    dsimp only at he' ⊢
    split at he'
    · exact absurd he' (hend _)
    · split at he'
      · exact absurd he' (hend _)
      · next hrunning hraised =>
        rw [if_neg hraised]
        cases ha with
        | armed interval hw => exact .armed interval hw
        | ringing payload hcall =>
          rw [hc] at hcall
          cases hcall
        | rung hr => exact .rung hr
    · exact absurd he' (hend _)

/-! ## Steps -/

theorem config_step (ht : Trail past s log) : s.step.config = s.config :=
  (step_carries (P := fun σ _ => σ.machine.config = s.config) (footing_run ht.run) rfl
    (fun _ _ _ _ _ _ hl _ h => hl.config.trans h) (fun _ _ _ _ _ _ h => h)
    fun _ _ _ _ hf h hl _ => (config_of_loud hf hl).trans h).2

/-- A pass begins no wait. -/
theorem pass_ne_wait (s : Machine) (b : Bool) (h timeout : Nat) : (s.pass b).control ≠ .wait h timeout := by
  cases opening s b with
  | stalled hr ht h' => rw [h']; nofun
  | failed k code hk h' => rw [h']; nofun
  | deadlock k hk h' => rw [h']; nofun
  | quiet k revents hk hids h' => rw [h']; nofun
  | chosen k revents ids hk hne hids h' => rw [h']; nofun

theorem startRun_ne_isolated (s : Machine) (spec spec' : RunSpec) : (s.startRun spec).control ≠ .isolated spec' := by
  unfold startRun
  dsimp only
  split
  · nofun
  · split <;> nofun

/-- A run that has begun does not begin again. -/
theorem begun (he : Errand p d s log) (he' : Errand p' d' s.step log') (hrank : p.rank ≤ p'.rank) :
    0 < p'.rank := by
  refine Nat.pos_of_ne_zero fun hzero => ?_
  obtain ⟨spec', rfl⟩ : ∃ spec', p' = .begin spec' := by
    cases p' <;> first | exact ⟨_, rfl⟩ | cases hzero
  obtain ⟨spec, rfl⟩ : ∃ spec, p = .begin spec := by
    cases p <;> first | exact ⟨_, rfl⟩ | cases hrank
  have hcontrol : s.control = .isolated spec := by
    have hpos := he.position
    generalize s.control = c at hpos ⊢
    generalize s.stack = K at hpos
    cases hpos with
    | commence => rfl
    | wait timeout hx hp => cases hp
    | awaitExit d hx hp => cases hp
    | waiting hx hp hc hA => cases hp
    | waited r hx hp hr => cases hp
  have hpos' := he'.position
  have hnot := startRun_ne_isolated s spec spec'
  have hstep : s.step = s.startRun spec := by rw [step, hcontrol]
  rw [hstep] at hpos'
  generalize (s.startRun spec).control = c at hpos' hnot
  generalize (s.startRun spec).stack = K at hpos'
  cases hpos' with
  | commence => exact hnot rfl
  | wait timeout hx hp => cases hp
  | awaitExit d hx hp => cases hp
  | waiting hx hp hc hA => cases hp
  | waited r hx hp hr => cases hp

/-- A pass waits for a timer. -/
theorem timer_of_pass {b : Bool} (he : Errand p d s log) (hc : s.control = .pass b) :
    (∃ i, d = some i) ∧ ∀ t₀ τ γ, p.latest t₀ τ γ = p.due t₀ τ γ + rounding := by
  have hpos := he.position
  rw [hc] at hpos
  generalize s.stack = K at hpos
  cases hpos with
  | writing total hx hw hne hpump hA => exact ⟨⟨_, rfl⟩, fun _ _ _ => rfl⟩
  | waiting hx hp hpump hA =>
    refine ⟨⟨_, rfl⟩, fun _ _ _ => ?_⟩
    cases p <;> first | rfl | cases hp

/-- No phase takes longer than it may. -/
theorem now_step (he : Errand p d s log) (h : Timely t₀ spec γ p d s) :
    s.step.kernel.now ≤ p.latest t₀ spec.timeout γ ∧
      ((∀ b, s.control ≠ .pass b) → s.step.kernel.now = s.kernel.now) := by
  have hstill : s.sleeps = false → s.step.kernel.now = s.kernel.now := Edits.now (step_edits s)
  by_cases hpass : ∃ b, s.control = .pass b
  · obtain ⟨b, hc⟩ := hpass
    refine ⟨?_, fun hnot => absurd hc (hnot b)⟩
    obtain ⟨⟨i, rfl⟩, hlatest⟩ := timer_of_pass he hc
    obtain ⟨D, hD, ha⟩ := h.alarm i rfl
    have hstep : s.step = s.pass b := by rw [step, hc]
    rw [hstep]
    cases ha with
    | armed interval hw =>
      have hslept := pass_now_le hw b
      have hclock := h.clock
      rw [hlatest] at hclock ⊢
      exact Nat.le_trans hslept (Nat.max_le.2 ⟨hclock, Nat.add_le_add_right hD _⟩)
    | ringing payload hcall =>
      rw [hc] at hcall
      cases hcall
    | rung hr => exact absurd hr (h.pass b hc i rfl)
  · have hnow : s.step.kernel.now = s.kernel.now := by
      refine hstill ?_
      unfold sleeps
      split
      · next b hc => exact absurd ⟨b, hc⟩ hpass
      · next ns hc => exact absurd hc ((position_spec he.position).1 _)
      · rfl
    exact ⟨hnow ▸ h.clock, fun _ => hnow⟩

/-- A wait that begins will be over in time. -/
theorem granted (h : Timely t₀ spec γ p d s) (hl : Leads s t p p' d d') (hnow : t.kernel.now = s.kernel.now)
    {k timeout : Nat} (hc : t.control = .wait k timeout) :
    t.kernel.now + timeout ≤ p'.due t₀ spec.timeout γ := by
  obtain ⟨hrank, hgrants⟩ := hl.wait k timeout hc
  have hclock := h.clock
  rw [hnow]
  -- a phase that comes before another is over when the other begins
  cases p' with
  | await run =>
    have hstarted : run.spec = spec ∧ run.started = t₀ := by
      rcases hl.run run rfl with hold | ⟨spec', rfl, hspec, hstarted⟩
      · exact h.run run hold
      · obtain ⟨rfl, hstart⟩ := h.begin spec' rfl
        exact ⟨hspec, hstarted.trans hstart⟩
    obtain ⟨rfl, rfl⟩ := hstarted
    have hgrants : timeout = run.spec.timeout - (s.kernel.now - run.started) := hgrants
    have hearlier : p.rank ≤ (Phase.input run).rank := Nat.le_of_lt_succ hrank
    have hbefore : p.latest run.started run.spec.timeout γ ≤
        run.started + run.spec.timeout + rounding := (Phase.late _ _ _ hearlier).2
    show _ ≤ run.started + run.spec.timeout + rounding
    omega
  | grace run e =>
    have hgrants : timeout = s.config.grace := hgrants
    have hgrace := h.grace
    have hearlier : p.rank ≤ (Phase.leave run e).rank := Nat.le_of_lt_succ hrank
    have hbefore : p.latest t₀ spec.timeout γ ≤ t₀ + spec.timeout + rounding + rounding :=
      (Phase.late _ _ _ hearlier).2
    show _ ≤ t₀ + spec.timeout + 2 * rounding + γ
    omega
  | killed run e =>
    have hgrants : timeout = killWait := hgrants
    have hearlier : p.rank ≤ (Phase.grace run e).rank := Nat.le_of_lt_succ hrank
    have hbefore : p.latest t₀ spec.timeout γ ≤
        t₀ + spec.timeout + 2 * rounding + γ + rounding := (Phase.late _ _ _ hearlier).2
    show _ ≤ t₀ + spec.timeout + 3 * rounding + γ + killWait
    omega
  | _ => exact hgrants.elim

theorem timely_step (ht : Trail past s log) (he : Errand p d s log) (h : Timely t₀ spec γ p d s)
    (he' : Errand p' d' s.step log') (hl : Leads s s.step p p' d d') : Timely t₀ spec γ p' d' s.step := by
  obtain ⟨hnow, hstill⟩ := now_step he h
  obtain ⟨hdue, hlatest⟩ := Phase.late t₀ spec.timeout γ hl.rank
  have hbegun := begun he he' hl.rank
  refine ⟨Nat.le_trans hnow hlatest, (congrArg Config.grace (config_step ht)).trans h.grace, ?_, ?_, ?_,
    hl.pass, ?_, ?_⟩
  · rintro spec' rfl
    cases hbegun
  · intro run hrun
    rcases hl.run run hrun with hold | ⟨spec', rfl, hspec, hstarted⟩
    · exact h.run run hold
    · obtain ⟨rfl, hstart⟩ := h.begin spec' rfl
      exact ⟨hspec, hstarted.trans hstart⟩
  · intro k timeout hc
    refine granted h hl (hstill fun b hpass => ?_) hc
    have hstep : s.step = s.pass b := by rw [step, hpass]
    rw [hstep] at hc
    exact pass_ne_wait s b k timeout hc
  · intro i hi
    subst hi
    rcases hl.timer i rfl with rfl | ⟨interval, hm, ⟨spec', rfl, hinterval⟩ | hc⟩
    · obtain ⟨D, hD, ha⟩ := h.alarm i rfl
      exact ⟨D, Nat.le_trans hD hdue, alarm_kept ht he he' ha⟩
    · obtain ⟨rfl, hstart⟩ := h.begin spec' rfl
      refine ⟨_, ?_, .armed interval hm⟩
      rw [hstart, hinterval]
      have hin : (Phase.input ⟨spec', t₀, none⟩).rank ≤ p'.rank := hbegun
      exact (Phase.late t₀ spec'.timeout γ hin).1
    · exact ⟨_, Nat.le_trans (h.wait _ _ hc) hdue, .armed interval hm⟩
  · rintro a rfl time rep execution ha
    rcases hl.ended a rfl with hold | hnew
    · exact h.ended a hold time rep execution ha
    · obtain ⟨run, hrun, hduration⟩ := hnew time rep execution ha
      obtain ⟨-, hstarted⟩ := h.run run hrun
      rw [hduration, hstarted]
      have hclock : s.kernel.now ≤ t₀ + spec.timeout + 3 * rounding + γ + killWait + rounding :=
        Nat.le_trans h.clock hlatest
      omega

/-! ## The whole run -/

theorem timely_forRun (outer : Machine) (spec : RunSpec) :
    Timely outer.kernel.now spec outer.config.grace (.begin spec) none (outer.forRun spec) :=
  ⟨Nat.le_refl _, rfl, fun spec' h => by cases h; exact ⟨rfl, rfl⟩, fun _ h => (by cases h),
    fun _ _ h => (by cases h),
    fun _ h => (by cases h), fun _ h => (by cases h), fun _ h => (by cases h)⟩

/-- What happens elsewhere in no time makes no run late. -/
theorem timely_withKernel {k : Kernel} (h : Timely t₀ spec γ p d s) (hk : k.now = s.kernel.now) :
    Timely t₀ spec γ p d (s.withKernel k) := by
  refine ⟨hk ▸ h.clock, h.grace, fun spec' hp => ?_, h.run, fun n timeout hc => ?_, h.pass,
    fun i hi => ?_, h.ended⟩
  · exact ⟨(h.begin spec' hp).1, hk.trans (h.begin spec' hp).2⟩
  · exact hk ▸ h.wait n timeout hc
  · obtain ⟨D, hD, ha⟩ := h.alarm i hi
    refine ⟨D, hD, ?_⟩
    cases ha with
    | armed interval hw => exact .armed interval hw
    | ringing payload hc => exact .ringing payload hc
    | rung hr => exact .rung hr

/-- Wherever it is, a run is in time. -/
theorem timely_call {y : Machine × List Entry} (hc : Clocked (· = ·) G (outer.forRun spec, []) y) :
    ∃ past p d, Trail past y.1 y.2 ∧ Errand p d y.1 y.2 ∧
      Timely outer.kernel.now spec outer.config.grace p d y.1 := by
  induction hc with
  | refl => exact ⟨_, _, _, .init (.forRun outer spec), errand_forRun outer spec, timely_forRun outer spec⟩
  | @tail u v _ hm ih =>
    obtain ⟨past, p, d, ht, he, h⟩ := ih
    obtain ⟨hmove, hr, htime⟩ := hm
    have hr : returned 0 u.1 = false := hr
    have hstep : v = (u.1.step, u.1.news ++ u.2) → ∃ past p d, Trail past v.1 v.2 ∧ Errand p d v.1 v.2 ∧
        Timely outer.kernel.now spec outer.config.grace p d v.1 := by
      rintro rfl
      obtain ⟨p', d', he', hl⟩ := errand_step he
      exact ⟨_, p', d', ht.step, he', timely_step ht he h he' hl⟩
    rcases htime with hnext | hnow
    · exact hstep hnext
    · cases hmove with
      | step hg => exact hstep rfl
      | @elsewhere s log k =>
        have he' : Errand p d (s.withKernel k) log :=
          ⟨he.position, he.fits, he.delivery, he.size, he.tidy, he.scriptFree, he.issued⟩
        exact ⟨past, p, d, ht.pause (.elsewhere k), he', timely_withKernel h hnow.symm⟩
      | rejoin inner a hs => exact absurd hs ((position_spec he.position).2.1 _)
      | start op hi => rw [returned_of_isIdle hi] at hr; cases hr
      | ending hi => rw [returned_of_isIdle hi] at hr; cases hr

/-- If time passes in the steps only, the delivery of the payload and the wait share the timeout, and a run
that reports takes no longer than timeout, grace and the wait for a killed child together, whatever its polls do
within the time that they are given. -/
theorem one_deadline (hc : Clocked (· = ·) (fun _ => True) (outer.forRun spec, []) (s, log)) :
    (s.control = .dispose 0 → s.kernel.now ≤ outer.kernel.now + spec.timeout + 2 * rounding) ∧
      ∀ time rep execution, s.answer? = some (.report time (.ok rep) execution) →
        rep.duration ≤ spec.timeout + outer.config.grace + killWait + 4 * rounding := by
  obtain ⟨past, p, d, -, he, h⟩ := timely_call hc
  constructor
  · intro hcontrol
    have hpos := he.position
    rw [hcontrol] at hpos
    generalize s.stack = K at hpos
    cases hpos with
    | writing total hx hw hne hpump hA => cases hpump
    | waiting hx hp hpump hA => cases hpump
    | dispose run e hx =>
      have hclock : s.kernel.now ≤ outer.kernel.now + spec.timeout + rounding + rounding := h.clock
      omega
  · intro time rep execution hanswer
    exact h.ended _ (ended_of_answer he hanswer).1 time rep execution rfl

/-- A child that does not heed the polite signal, and would never end. -/
def stubborn : RunSpec :=
  { command := .ofArgs ["/bin/sleep", "60"]
    plan := ⟨{ Kernel.Habits.standard with ignored := [Signal.term] }, []⟩
    execError := none
    payload := none
    timeout := 30000000
    logged := false }

/-- A supervisor with a grace of 20 ms, whose polls do not all sleep as long as they are asked to. -/
def pressed : Machine := .fresh { Config.standard with grace := 20000000 } 10000000 [] .restless

/-- The isolated run of such a child has just answered. -/
def outlasted : Machine × List Entry := walk 61 (pressed.forRun stubborn, [])

set_option maxRecDepth 2000 in
theorem deadline_of_outlasted : Clocked (· = ·) (fun _ => True) (pressed.forRun stubborn, []) outlasted ∧
    ∃ time rep execution, outlasted.1.answer? = some (.report time (.ok rep) execution) ∧
    rep.duration = 50000500 ∧
      rep.duration ≤ stubborn.timeout + pressed.config.grace + killWait + 4 * rounding := by
  have hclocked : Clocked (· = ·) (fun _ => True) (pressed.forRun stubborn, []) outlasted :=
    Clocked.walk (fun _ _ => trivial) (by decide +kernel)
  have hanswer : ∃ time rep execution, outlasted.1.answer? = some (.report time (.ok rep) execution) ∧
      rep.duration = 50000500 := ⟨_, _, _, rfl, rfl⟩
  obtain ⟨time, rep, execution, h, hduration⟩ := hanswer
  exact ⟨hclocked, time, rep, execution, h, hduration, (one_deadline hclocked).2 _ _ _ h⟩

end Machine

end Overseer
