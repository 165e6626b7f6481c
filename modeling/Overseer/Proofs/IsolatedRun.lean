import Overseer.Proofs.RunDisposal

/-!
# The whole of an isolated run

A run that has begun goes on from place to place until it has answered, whatever its child, its kernel and
its payload do; nothing else happens on its machine.

    errand p d s log,  step                →  errand p' d' (step s) log',  p no later than p'
    errand p d s log,  kernel elsewhere    →  errand p d s log

What has been captured when the run has ended is what the report is made from.

Main statements: `errand_step`, `errand_call`.
-/

namespace Overseer

open Supervisor
open Kernel (Stream)

/-! ## Outcomes -/

namespace Run

variable {r : Except WaitError ExitStatus} {troubles : List Trouble}

/-- A child whose end is known fails with its streams, or with its exit code. -/
theorem classify_ok {st : ExitStatus} (hst : st ≠ .unknown) : classify (.ok st) troubles =
    if troubles.any Trouble.isStream then .error else if st.success then .pass else .fail := by
  cases st with
  | unknown => exact absurd rfl hst
  | _ => rfl

theorem success_iff (st : ExitStatus) : st.success = true ↔ st = .exited 0 := by
  unfold ExitStatus.success
  split <;> simp_all

theorem classify_timeout (hr : r ≠ .error .notRunning) : r.toOption = none ↔ classify r troubles = .timeout := by
  cases r with
  | error e =>
    cases e with
    | timeout => exact iff_of_true rfl rfl
    | notRunning => exact absurd rfl hr
  | ok st =>
    refine iff_of_false (by nofun) ?_
    by_cases hst : st = .unknown
    · subst hst
      nofun
    · rw [classify_ok hst]
      split
      · nofun
      · split <;> nofun

theorem classify_pass : classify r troubles = .pass ↔
    r.toOption = some (.exited 0) ∧ troubles.any Trouble.isStream = false := by
  cases r with
  | error e => cases e <;> exact iff_of_false (by nofun) (by nofun)
  | ok st =>
    by_cases hst : st = .unknown
    · subst hst
      exact iff_of_false (by nofun) (by nofun)
    · rw [classify_ok hst, show (Except.ok st : Except WaitError ExitStatus).toOption = some st from rfl,
        Option.some_inj, ← success_iff]
      cases troubles.any Trouble.isStream <;> cases st.success <;> simp

theorem classify_error (hr : r ≠ .error .notRunning) : classify r troubles = .error ↔
    r.toOption = some .unknown ∨ (r.toOption.isSome ∧ troubles.any Trouble.isStream = true) := by
  cases r with
  | error e =>
    cases e with
    | timeout => exact iff_of_false (by nofun) (by rintro (h | ⟨h, -⟩) <;> cases h)
    | notRunning => exact absurd rfl hr
  | ok st =>
    by_cases hst : st = .unknown
    · subst hst
      exact iff_of_true rfl (.inl rfl)
    · have hne : (Except.ok st : Except WaitError ExitStatus).toOption ≠ some .unknown :=
        fun h => hst (Option.some.inj h)
      have hsome : (Except.ok st : Except WaitError ExitStatus).toOption.isSome = true := rfl
      rw [classify_ok hst, or_iff_right hne, and_iff_right hsome]
      cases troubles.any Trouble.isStream <;> cases st.success <;> simp

/-- Trouble with the input does not count. -/
theorem classify_filter : classify r (troubles.filter Trouble.isStream) = classify r troubles := by
  have hany : (troubles.filter Trouble.isStream).any Trouble.isStream = troubles.any Trouble.isStream := by
    simp [List.any_filter]
  unfold classify
  rw [hany]

/-- The text of a trouble tells whether it is one with the input. -/
theorem text_stdin (t : Trouble) : "stdin:".toList <+: t.text.toList ↔ t.isStream = false := by
  cases t with
  | stream st e =>
    refine iff_of_false (fun h => ?_) (by nofun)
    cases st <;> simp [Trouble.text, Stream.name, String.toList_append] at h
  | undelivered n total =>
    refine iff_of_true ?_ rfl
    simp [Trouble.text, String.toList_append, List.append_assoc]
  | brokenInput e =>
    refine iff_of_true ?_ rfl
    simp [Trouble.text, String.toList_append]

end Run

namespace Machine

variable {s t u : Machine} {x : Handle} {p p' : Phase} {d d' : Option Nat} {log : List Entry} {run : Running}
  {e : Ending}

/-! ## The report -/

/-- A stream has failed exactly when the captures say so. -/
theorem Heard.any {cap : Run.Captured} (hh : Heard cap log) :
    cap.troubles.any Run.Trouble.isStream = true ↔ ∃ st, Failed 0 1 st log := by
  rw [List.any_eq_true]
  constructor
  · rintro ⟨t, hm, ht⟩
    cases t with
    | stream st e => exact ⟨st, (hh.faults st).1 ⟨e, hm⟩⟩
    | _ => cases ht
  · rintro ⟨st, hf⟩
    obtain ⟨e, hm⟩ := (hh.faults st).2 hf
    exact ⟨_, hm, rfl⟩

theorem truthful_reportOf {r : Except WaitError ExitStatus} (hh : Heard s.captured log)
    (hf : Ending.Fits x s.captured (.waited r)) (run : Running) : Truthful x log (s.reportOf run r) := by
  obtain ⟨hseen, htimeout⟩ := hf
  refine ⟨hh.out, hh.err, hh.reads, fun st hst => ?_, Run.classify_timeout hseen.running, ?_, ?_, ?_,
    r, s.captured.troubles, rfl, Run.classify_filter.symm, fun n total hm => ?_⟩
  · cases r with
    | error e => cases hst
    | ok st' =>
      cases hst
      exact (hseen.ok st rfl).2
  · refine Run.classify_pass.trans (and_congr_right fun _ => ?_)
    rw [Bool.eq_false_iff, Ne, hh.any, not_exists]
  · rw [← hh.any]
    exact Run.classify_error hseen.running
  · rw [← hh.any, List.any_eq_true]
    constructor
    · rintro ⟨t, hm, ht⟩
      exact ⟨t.text, List.mem_map_of_mem hm, by simp [-String.reduceToList, Run.text_stdin, ht]⟩
    · rintro ⟨text, hm, hne⟩
      obtain ⟨t, ht, rfl⟩ := List.mem_map.1 hm
      exact ⟨t, ht, by simpa [-String.reduceToList, Run.text_stdin] using hne⟩
  · show Run.classify r _ = _
    rw [htimeout n total hm]
    rfl

theorem closed_progress (hd : Delivery s.control (s.handle 0) s.captured log) (hf : e.Fits (s.handle 0) s.captured)
    (hx : (s.handle 0).Spent) (hc : s.control = .value .unit) (hs : s.stack = [e.frame run]) :
    ∃ p', Progress s s.step log (.closed run e) p' none none := by
  have hq : s.control.isQuiet = true := by rw [hc]; rfl
  have key : ∀ a, (∀ time rep execution, a = .report time (.ok rep) execution → Truthful (s.handle 0) log rep) →
      e.Answered a → (∀ time rep execution, a = .report time (.ok rep) execution →
        rep.duration = s.kernel.now - run.started) →
      Progress s (Machine.yieldAnswer { s with stack := [] } a) log (.closed run e) (.ended a) none none := by
    intro a ha htold hdur
    exact ⟨⟨[], rfl, delivery_of_quiet rfl (hd.voice hq) (hd.all hq), ha⟩, rfl, .ended a hx,
      leads_on (by simp [Phase.rank]) (fun _ h => by cases h)
        (fun e' he => .inr ⟨a, rfl, by rwa [← Option.some.inj he]⟩) (fun _ h => h) rfl
        fun a' h => .inr fun time rep execution hr => ⟨run, rfl, hdur time rep execution (by cases h; exact hr)⟩⟩
  cases e with
  | waited r =>
    rw [step_value hc hs]
    refine ⟨_, key _ (fun time rep execution h => ?_) (fun time rep execution h => ⟨r, rfl, ?_⟩)
      fun time rep execution h => ?_⟩
    · cases h
      exact truthful_reportOf (s := { s with stack := [] }) (hd.all hq) hf run
    · cases h
      rfl
    · cases h
      rfl
  | aborted cause =>
    rw [step_value hc hs]
    refine ⟨_, key _ (fun time rep execution h => ?_) (fun time rep execution h => ?_)
      fun time rep execution h => ?_⟩
    all_goals cases h

/-! ## The start -/

theorem hush_spawn (s : Machine) (h : Nat) (c : Command) (plan : Kernel.Plan) (execError : Option Int) :
    Hush s (s.spawn h c plan execError).2.2 := by
  unfold spawn
  split
  · exact .refl s
  · dsimp only
    split
    · exact .refl s
    · split
      · exact ((Mute.refl s).note _).toHush
      · have hrecord : ∀ e, Mute s (s.record (.executed e)) := fun e => (Mute.refl s).record rfl
        split
        · exact ((hrecord _).note _).toHush
        · exact ((hrecord _).kernel _).toHush.trans (hush_adopt _ h c _ _)

/-- No time passes in a step that does not sleep. -/
theorem Edits.now {o : Machine} (h : Edits o s t) (ho : o.sleeps = false) : t.kernel.now = s.kernel.now := by
  induction h with
  | refl => rfl
  | @tail u v _ he ih =>
    refine Eq.trans ?_ ih
    cases he with
    | aside ha => exact ha.now
    | collected => exact now_collect u
    | slept k hsleeps hk => simp [ho] at hsleeps
    | _ => rfl

theorem commence_progress {spec : RunSpec} (hd : Delivery s.control (s.handle 0) s.captured log)
    (hf : Phase.Fits (s.handle 0) s.captured log (.begin spec)) (hsize : s.handles.length = 1) (ht : s.loop.Tidy)
    (hc : s.control = .isolated spec) (hs : s.stack = []) :
    ∃ p' d', Progress s s.step log (.begin spec) p' none d' := by
  have hq : s.control.isQuiet = true := by rw [hc]; rfl
  have hstep : s.step = s.startRun spec := by rw [step, hc]
  have hcases := spawn_cases s 0 spec.command spec.plan spec.execError
  have hhush := hush_spawn s 0 spec.command spec.plan spec.execError
  have hstack := stack_spawn s 0 spec.command spec.plan spec.execError
  have hnow := Edits.now (Edits.spawn (.refl : Edits s s s) 0 spec.command spec.plan spec.execError)
    (show s.sleeps = false by rw [sleeps, hc])
  rw [hstep]
  unfold startRun
  generalize s.spawn 0 spec.command spec.plan spec.execError = r at hcases hhush hstack hnow
  obtain ⟨r, execution, u⟩ := r
  dsimp only at hcases hhush hstack hnow ⊢
  obtain ⟨hidle, hgen, hnone⟩ := hf
  rcases hcases with ⟨cause, rfl, hsame, -⟩ | ⟨rfl, x, pid, k, rfl⟩
  · -- a command that is not started leaves the handle as it was
    have hself : u.handle 0 = s.handle 0 := by rw [handle, handle, hsame]
    refine ⟨.ended (.report u.kernel.now (.error (.spawn cause)) execution), none,
      .hush hd (hhush.mute ((Mute.refl u).yield (.answer _))) hq rfl (fun _ => ?_) ?_
      (leads_on (Nat.zero_le _) (fun _ h => by cases h) (fun _ h => by cases h) (fun _ h => h) rfl
        fun a h => .inr fun time rep execution hr => by cases h; cases hr)⟩
    · intro time rep execution h
      cases h
    · show Position (u.handle 0) _ _ _ u.stack
      rw [hstack, hs, hself]
      exact .ended _ ⟨by simp [hidle], by simp [hidle]⟩
  · have ha := adoption_adopt ((s.record (.executed x)).withKernel k) ht (hsize ▸ Nat.one_pos) spec.command x pid
    generalize ((s.record (.executed x)).withKernel k).adopt 0 spec.command x pid = u at hhush hstack hnow ha ⊢
    have hlive : (u.handle 0).Live := by
      obtain ⟨out, err, hlife⟩ := ha.life
      have hstate : (u.handle 0).state = .running := congrArg Life.state hlife
      have hgeneration : (u.handle 0).generation = (s.handle 0).generation + 1 := congrArg Life.generation hlife
      exact ⟨by rw [hgeneration, hgen], .inl hstate⟩
    have hbegun : ∀ run : Running, run = ⟨spec, s.kernel.now, execution⟩ →
        ∀ run', (Phase.input run).run? = some run' →
        (Phase.begin spec).run? = some run' ∨
          ∃ spec', Phase.begin spec = .begin spec' ∧ run'.spec = spec' ∧ run'.started = s.kernel.now := by
      rintro run rfl run' h
      cases h
      exact .inr ⟨spec, rfl, rfl, rfl⟩
    dsimp only
    split
    · refine ⟨.input ⟨spec, s.kernel.now, execution⟩, none,
        .hush hd (hhush.mute ((Mute.refl u).go _)) hq rfl (fun _ => hnone) ?_
        ⟨Nat.zero_le _, hbegun _ rfl, fun _ h => (by cases h), fun _ h => (by cases h), by rintro _ _ ⟨⟩,
          by rintro _ ⟨⟩,
          fun _ h => (by cases h)⟩⟩
      show Position (u.handle 0) _ _ _ u.stack
      rw [hstack, hs]
      exact .finishInput _ hlive
    · next payload _ =>
      refine ⟨.input ⟨spec, s.kernel.now, execution⟩, some (u.loop.lastId + 1), .hush hd
        (hhush.mute (((((Mute.refl u).addWatch _ _).push _).push _).go _)) hq rfl (fun _ => hnone) ?_
        ⟨Nat.zero_le _, hbegun _ rfl, fun _ h => (by cases h),
          fun i hi => .inr ⟨spec.timeout, ?_, .inl ⟨spec, rfl, rfl⟩⟩, by rintro _ _ ⟨⟩, by rintro _ ⟨⟩,
          fun _ h => (by cases h)⟩⟩
      · show Position (u.handle 0) _ _ _ (.writeDeadline _ :: .runWritten _ _ :: u.stack)
        rw [hstack, hs]
        exact .startWrite _ hlive rfl
      · cases hi
        rw [← hnow]
        exact List.mem_append_right _ List.mem_cons_self

/-! ## Steps and moves -/

/-- The run carries out no operation of the user, and no script of the user is under way. -/
theorem position_spec {c : Control} {K : List Frame} (hpos : Position x p d c K) :
    (∀ op, c ≠ .perform op) ∧ (∀ spec, c ≠ .suspended spec) ∧ ∀ id cb, .settle id cb ∈ K →
    cb.isScript = false := by
  have hpump : ∀ {c : Control}, c.isPumping = true →
      (∀ op, c ≠ .perform op) ∧ ∀ spec, c ≠ .suspended spec := by
    rintro c hc
    refine ⟨fun op h => ?_, fun spec h => ?_⟩
    · subst h
      cases hc
    · subst h
      cases hc
  have hsettle : ∀ {A K : List Frame} {id : Nat} {cb : Callback}, (∀ f ∈ A, f.isInner = true) →
      .settle id cb ∉ K → .settle id cb ∈ A ++ K → cb.isScript = false := by
    intro A K id cb hA hK hm
    have hinner := hA _ ((List.mem_append.1 hm).resolve_right hK)
    simpa [Frame.isInner] using hinner
  have hcallers : ∀ p id cb, .settle id cb ∉ Phase.callers p := by
    rintro p id cb hm
    cases p with
    | grace run e => cases e <;> simp [Phase.callers, Ending.frame] at hm
    | killed run e => cases e <;> simp [Phase.callers, Ending.frame] at hm
    | _ => simp [Phase.callers] at hm
  cases hpos with
  | writing total hx hw hne hc hA =>
    exact ⟨(hpump hc).1, (hpump hc).2, fun id cb => hsettle hA (by simp)⟩
  | waiting hx hp hc hA =>
    exact ⟨(hpump hc).1, (hpump hc).2, fun id cb => hsettle hA (by simpa using hcallers p id cb)⟩
  | wait timeout hx hp => exact ⟨by rintro _ ⟨⟩, by rintro _ ⟨⟩,
    fun id cb hm => absurd hm (hcallers p id cb)⟩
  | awaitExit d hx hp => exact ⟨by rintro _ ⟨⟩, by rintro _ ⟨⟩,
    fun id cb hm => absurd hm (hcallers p id cb)⟩
  | waited r hx hp hr => exact ⟨by rintro _ ⟨⟩, by rintro _ ⟨⟩,
    fun id cb hm => absurd hm (hcallers p id cb)⟩
  | dispose run e hx => exact ⟨by rintro _ ⟨⟩, by rintro _ ⟨⟩,
    fun id cb hm => by cases e <;> simp [Ending.frame] at hm⟩
  | closed run e hx => exact ⟨by rintro _ ⟨⟩, by rintro _ ⟨⟩,
    fun id cb hm => by cases e <;> simp [Ending.frame] at hm⟩
  | _ => exact ⟨by rintro _ ⟨⟩, by rintro _ ⟨⟩, fun id cb hm => by simp at hm⟩

theorem fits_of_waits {cap : Run.Captured} (hp : p.waits = true) (hf : p.Fits x cap log) :
    ∀ log', p.Fits x cap log' := by
  cases p <;> first | exact fun _ => hf | cases hp

theorem errand_progress (he : Errand p d s log) : ∃ p' d', Progress s s.step log p p' d d' := by
  obtain ⟨hpos, hf, hd, hsize, ht, hfree, hissued⟩ := he
  generalize hc : s.control = c at hpos
  generalize hs : s.stack = K at hpos
  cases hpos with
  | commence spec => exact commence_progress hd hf hsize ht hc hs
  | startWrite total hx hw => exact ⟨_, startWrite_progress hd hf hx hw hc hs⟩
  | write total pid hx hw => exact ⟨_, write_progress hd hf hx hw (hissued _ rfl) hc hs⟩
  | awaitWritable total hx hw hne => exact ⟨_, awaitWritable_progress hd hf hx hw hne hc hs⟩
  | writing total hx hw hne hpump hA =>
    exact ⟨_, _, writing_progress hd hf hx hw hne hs hA (by rw [hc]; exact hpump) hsize hfree⟩
  | wrote i total r hx => exact ⟨_, _, wrote_progress hd hf hx hc hs⟩
  | written total r hx =>
    obtain ⟨p', h⟩ := written_progress hd hf hx hc hs
    exact ⟨p', _, h⟩
  | finishInput run hx => exact ⟨_, _, finishInput_progress hd hf hx hc hs⟩
  | lapsed run hx => exact ⟨_, _, lapsed_progress hd hf hx hc hs⟩
  | finishWait run r hx =>
    have hstep : s.step = s.finishWait run r := by rw [step, hc]
    rw [hstep]
    exact ⟨_, _, finishWait_spec (.refl s) hs (Nat.le_refl _) rfl (fun e h => (Option.some.inj h).symm) hd
      (by rw [hc]; rfl) hf hx⟩
  | wait timeout hx hp => exact ⟨_, wait_progress hd (fits_of_waits hp hf) hx hp hc hs⟩
  | awaitExit i hx hp => exact ⟨_, awaitExit_progress hd (fits_of_waits hp hf) hx hp hc hs⟩
  | waiting hx hp hpump hA =>
    exact ⟨_, _, waiting_progress hd (fits_of_waits hp hf) hx hp hs hA (by rw [hc]; exact hpump) hsize hfree⟩
  | waited r hx hp hr =>
    obtain ⟨p', h⟩ := waited_progress hd hf hx hp hr hc hs
    exact ⟨p', _, h⟩
  | dispose run e hx =>
    obtain ⟨p', h⟩ := dispose_progress hd hf hx hc hs
    exact ⟨p', _, h⟩
  | closed run e hx =>
    obtain ⟨p', h⟩ := closed_progress hd hf hx hc hs
    exact ⟨p', _, h⟩
  | ended a hx =>
    have hstep : s.step = s := by rw [step, hc, hs]
    rw [hstep]
    refine ⟨.ended a, none, ⟨[], rfl, hd, hf⟩, rfl, ?_,
      leads_on (Nat.le_refl _) (fun _ h => h) (fun _ h => .inl h)
      (fun _ h => h) (by rw [hc]; rfl) fun _ h => .inl h⟩
    rw [hc, hs]
    exact .ended a hx

/-- A step leads on from place to place. -/
theorem errand_step (he : Errand p d s log) :
    ∃ p' d', Errand p' d' s.step (s.news ++ log) ∧ Leads s s.step p p' d d' := by
  obtain ⟨p', d', ⟨es, hj, hdel, hfits⟩, hsize, hpos, hl⟩ := errand_progress he
  obtain ⟨hperform, -, hsettle⟩ := position_spec he.position
  have hr : s.registers = false := by
    unfold registers
    split <;> first | rfl | (next h => exact absurd h (hperform _))
  have htidy : s.step.loop.Tidy := step_keeps (P := fun t => t.loop.Tidy) he.tidy fun _ _ h ht => h.tidy ht
  have hlast : s.loop.lastId ≤ s.step.loop.lastId :=
    step_keeps (P := fun t => s.loop.lastId ≤ t.loop.lastId) (Nat.le_refl _)
    fun _ _ h hle => Nat.le_trans hle h.lastId_le
  rw [news_eq hj]
  refine ⟨p', d', ⟨hpos, hfits, hdel, hsize.trans he.size, htidy, step_scriptFree he.scriptFree he.tidy hr hsettle,
    fun i hi => ?_⟩, hl⟩
  rcases hl.timer i hi with hold | ⟨interval, hm, -⟩
  · exact Nat.le_trans (he.issued i hold) hlast
  · exact htidy.le i (List.mem_map_of_mem hm)

theorem errand_forRun (outer : Machine) (spec : RunSpec) : Errand (.begin spec) none (outer.forRun spec) [] := by
  have hheard : Heard .empty [] := ⟨rfl, rfl, fun st => by simp [Failed, Run.Captured.empty], by simp⟩
  exact ⟨.commence spec, ⟨rfl, rfl, by simp [forRun, fresh, Run.Captured.empty]⟩,
    delivery_of_quiet rfl rfl hheard, rfl,
    ⟨List.nodup_nil, by nofun⟩, by nofun, by nofun⟩

/-- Nothing happens to an isolated run but its own steps and what its kernel does. -/
theorem errand_move {G : Machine → Prop} {log' : List Entry} (he : Errand p d s log) (hm : Move G (s, log) (t, log'))
    (hr : returned 0 s = false) :
    (t = s.step ∧ ∃ p' d', Errand p' d' t log' ∧ Leads s t p p' d d') ∨
      ∃ k, t = s.withKernel k ∧ Errand p d t log' := by
  cases hm with
  | step hg => exact .inl ⟨rfl, errand_step he⟩
  | elsewhere k => exact .inr ⟨k, rfl, he.position, he.fits, he.delivery, he.size, he.tidy,
    he.scriptFree, he.issued⟩
  | rejoin inner a h => exact absurd h ((position_spec he.position).2.1 _)
  | start op h => rw [returned_of_isIdle h] at hr; cases hr
  | ending h => rw [returned_of_isIdle h] at hr; cases hr

/-- Until it has answered, an isolated run is always at one of its places. -/
theorem errand_call {G : Machine → Prop} {outer : Machine} {spec : RunSpec} {y : Machine × List Entry}
    (hc : Call G (outer.forRun spec, []) y) : ∃ p d, Errand p d y.1 y.2 := by
  induction hc with
  | refl => exact ⟨_, _, errand_forRun outer spec⟩
  | @tail u v _ hm ih =>
    obtain ⟨p, d, he⟩ := ih
    rcases errand_move he hm.1 hm.2 with ⟨-, p', d', h, -⟩ | ⟨k, -, h⟩
    · exact ⟨p', d', h⟩
    · exact ⟨p, d, h⟩

/-! ## Answers -/

theorem control_of_answer {a : Answer} (h : s.answer? = some a) : s.control = .value (.answer a) ∧ s.stack = [] := by
  unfold answer? at h
  split at h
  · next hc hs =>
    cases h
    exact ⟨hc, hs⟩
  · cases h

/-- A run that has answered has ended. -/
theorem ended_of_answer {a : Answer} (he : Errand p d s log) (h : s.answer? = some a) :
    p = .ended a ∧ (s.handle 0).Spent := by
  have hpos := he.position
  rw [(control_of_answer h).1, (control_of_answer h).2] at hpos
  generalize hk : ([] : List Frame) = K at hpos
  cases hpos with
  | writing total hx hw hne hpump hA => cases hpump
  | waiting hx hp hpump hA => cases hpump
  | ended a hx => exact ⟨rfl, hx⟩

end Machine

end Overseer
