import Overseer.Proofs.Spawning

/-!
# The life of a handle

Each spawn that succeeds opens a generation; within it a handle runs, is reaped, and is closed.

    notStarted → running → reaped → closed        running → closed        closed → running

The exit of a generation is announced once, when the handle is reaped, and stays the status of the
handle until the next spawn.

    status  =  the exit that is due to be announced, else the one announced of this generation
    failed spawn  →  handles and watches are as they were

Main statement: `lifecycle_run`.
-/

namespace Overseer

open Supervisor

namespace Machine

/-- A handle in order: what its state says of its other fields, and how the log tells of it. -/
structure InOrder (h : Nat) (x : Handle) (due : List ExitStatus) (log : List Entry) : Prop where
  born : births h log = x.generation
  running : x.state = .running → x.pid.isSome ∧ x.status = none
  reaped : x.state = .reaped → x.status.isSome
  closed : x.state = .closed → x.stdin = none ∧ x.out = none ∧ x.err = none ∧ x.childWatch = none
  carried : x.status.toList = due ++ announced h x.generation log
  later : ∀ g, x.generation < g → announced h g log = []
  once : ∀ g, (announced h g log).length ≤ 1
  pending : due ≠ [] → x.state = .reaped

/-- What a step may make of the handle `x`, with `es` added to the journal: nothing, an end, a
closing, or a new generation. -/
inductive Passage (h : Nat) (x : Handle) (es : List Entry) (y : Handle) (due : Option (Nat × Event)) : Prop
  | stays (hb : births h es = 0) (hg : y.generation = x.generation) (hy : y.state = x.state)
      (hs : y.status = x.status)
  | reaped (st : ExitStatus) (hb : births h es = 0) (hg : y.generation = x.generation)
      (hx : x.state = .running) (hy : y.state = .reaped) (hs : y.status = some st)
      (hdue : due = some (h, .reaped st))
  | closed (hb : births h es = 0) (hg : y.generation = x.generation)
      (hx : x.state = .running ∨ x.state = .reaped) (hy : y.state = .closed) (hs : y.status = x.status)
  | spawned (hb : births h es = 1) (hg : y.generation = x.generation + 1)
      (hx : x.state = .notStarted ∨ x.state = .closed) (hy : y.state = .running)

/-- All handles are in order. -/
def Ordered (σ : Stage) (log : List Entry) : Prop :=
  ∀ h, InOrder h (σ.machine.handle h) (dueExit h σ.due) log

/-- What has become of the handles of `s` in the deeds that have led to `σ` and have added `es`. -/
structure Course (s : Machine) (es : List Entry) (σ : Stage) : Prop where
  passage : ∀ h, Passage h (s.handle h) es (σ.machine.handle h) σ.due
  due : ∀ h st, σ.due = some (h, .reaped st) →
    s.control = .emit h (.reaped st) ∨ (s.handle h).state = .running
  asked : s.spawning? = none → ∀ h, births h es = 0
  told : ∀ h g st, .emitted h g (.reaped st) ∈ es → s.control = .emit h (.reaped st) ∧
    g = (s.handle h).generation ∧ (s.handle h).state = .reaped ∧ (s.handle h).status = some st

/-- The life of the handle `h` as it has been until now, and what the next move may do to it. -/
structure Lifecycle (s : Machine) (log : List Entry) (h : Nat) : Prop where
  born : (s.handle h).generation = births h log
  running : (s.handle h).state = .running → (s.handle h).pid.isSome ∧ (s.handle h).status = none
  reaped : (s.handle h).state = .reaped → (s.handle h).status.isSome
  closed : (s.handle h).state = .closed → (s.handle h).stdin = none ∧ (s.handle h).out = none ∧
    (s.handle h).err = none ∧ (s.handle h).childWatch = none
  once : ∀ g, (announced h g log).length ≤ 1
  carried : (s.handle h).status.toList =
    dueExit h s.control.due ++ announced h (s.handle h).generation log
  passage : ∀ t log', Move (fun _ => True) (s, log) (t, log') →
    ∃ es, log' = es ++ log ∧ Passage h (s.handle h) es (t.handle h) t.control.due
  told : ∀ g st, .emitted h g (.reaped st) ∈ s.news → s.control = .emit h (.reaped st) ∧
    g = (s.handle h).generation ∧ (s.handle h).state = .reaped ∧ (s.handle h).status = some st
  telling : ∀ st, s.control = .emit h (.reaped st) → .emitted h (s.handle h).generation (.reaped st) ∈ s.news
  spawned : births h s.news = 1 ↔ s.spawnAnswer? = some (h, .ok ())
  refused : ∀ i e, s.spawnAnswer? = some (i, .error e) →
    s.step.handle h = s.handle h ∧ s.step.loop = s.loop

variable {o s t : Machine} {σ τ : Stage} {log : List Entry} {h : Nat} {x y : Handle}

/-! ## Lemmas -/

/-- Where nobody is born and nothing is announced, a slimmer handle is in order as well. -/
theorem InOrder.keep {due : List ExitStatus} {es : List Entry} (hx : InOrder h x due log)
    (hs : Slimmer x y) (he : Silent h es) : InOrder h y due (es ++ log) := by
  have hann : ∀ g, announced h g (es ++ log) = announced h g log := by
    intro g
    rw [announced_append, he.announced]
    rfl
  constructor
  case born => rw [births_append, he.births, Nat.zero_add, hx.born, hs.generation]
  case running =>
    rw [hs.state, hs.pid, hs.status]
    exact hx.running
  case reaped =>
    rw [hs.state, hs.status]
    exact hx.reaped
  case closed =>
    intro hst
    rw [hs.state] at hst
    obtain ⟨hin, hout, herr, hcw⟩ := hx.closed hst
    exact ⟨hs.stdin hin, hs.out hout, hs.err herr, hs.childWatch hcw⟩
  case carried =>
    rw [hs.status, hs.generation, hann]
    exact hx.carried
  case later =>
    intro g hg
    rw [hs.generation] at hg
    rw [hann, hx.later g hg]
  case once =>
    intro g
    rw [hann]
    exact hx.once g
  case pending =>
    rw [hs.state]
    exact hx.pending

/-- A passage that has left the life of the handle alone has seen no birth. -/
theorem Passage.births_of_life {due : Option (Nat × Event)} {es : List Entry}
    (hp : Passage h x es y due) (hl : y.life = x.life) : births h es = 0 := by
  have hstate : y.state = x.state := congrArg Life.state hl
  have hgen : y.generation = x.generation := congrArg Life.generation hl
  cases hp with
  | stays hb => exact hb
  | reaped st hb => exact hb
  | closed hb => exact hb
  | spawned hb hg hx hy =>
    rw [hgen] at hg
    omega

/-! ## One handle -/

/-- A handle that has a new child begins a generation of which nothing was announced. -/
theorem InOrder.after_spawn {es : List Entry} (hx : InOrder h x [] log) (hb : births h es = 1)
    (ha : ∀ g, announced h g es = []) (hstate : y.state = .running) (hgen : y.generation = x.generation + 1)
    (hpid : y.pid.isSome) (hstatus : y.status = none) : InOrder h y [] (es ++ log) := by
  have hann : ∀ g, announced h g (es ++ log) = announced h g log := by
    intro g
    rw [announced_append, ha]
    rfl
  constructor
  case born =>
    rw [births_append, hb, hx.born, hgen]
    omega
  case running => exact fun _ => ⟨hpid, hstatus⟩
  case reaped =>
    intro hst
    rw [hstate] at hst
    cases hst
  case closed =>
    intro hst
    rw [hstate] at hst
    cases hst
  case carried =>
    rw [hann, hstatus, hgen, hx.later _ (Nat.lt_succ_self _)]
    rfl
  case later =>
    intro g hg
    rw [hann, hx.later g (by omega)]
  case once =>
    intro g
    rw [hann]
    exact hx.once g
  case pending => exact fun hne => absurd rfl hne

theorem InOrder.after_close {es : List Entry} (hx : InOrder h x [] log) (he : Silent h es)
    (hl : y.life = { x.life with state := .closed, stdin := none, out := none, err := none,
                                 childWatch := none }) : InOrder h y [] (es ++ log) := by
  obtain ⟨hstate, hgen, -, -, hstatus, hin, hout, herr, hcw⟩ := Life.mk.inj hl
  have hgen : y.generation = x.generation := hgen
  have hstatus : y.status = x.status := hstatus
  have hann : ∀ g, announced h g (es ++ log) = announced h g log := by
    intro g
    rw [announced_append, he.announced]
    rfl
  constructor
  case born => rw [births_append, he.births, Nat.zero_add, hx.born, hgen]
  case running =>
    intro hst
    rw [hstate] at hst
    cases hst
  case reaped =>
    intro hst
    rw [hstate] at hst
    cases hst
  case closed => exact fun _ => ⟨hin, hout, herr, hcw⟩
  case carried =>
    rw [hstatus, hgen, hann]
    exact hx.carried
  case later =>
    intro g hg
    rw [hgen] at hg
    rw [hann, hx.later g hg]
  case once =>
    intro g
    rw [hann]
    exact hx.once g
  case pending => exact fun hne => absurd rfl hne

/-- A handle that ran had no status; now it has the one that is due to be announced. -/
theorem InOrder.after_reap {st : ExitStatus} (hx : InOrder h x [] log) (hrun : x.state = .running) :
    InOrder h { x with state := .reaped, status := some st, childWatch := none } [st] log := by
  have hnone : announced h x.generation log = [] := by
    have hcarried := hx.carried
    rw [(hx.running hrun).2] at hcarried
    exact hcarried.symm
  constructor
  case born => exact hx.born
  case running => intro hst; cases hst
  case reaped => exact fun _ => rfl
  case closed => intro hst; cases hst
  case carried =>
    show [st] = [st] ++ announced h x.generation log
    rw [hnone]
    rfl
  case later => exact hx.later
  case once => exact hx.once
  case pending => exact fun _ => rfl

/-- What was due is now announced. -/
theorem InOrder.after_emit {st : ExitStatus} (hx : InOrder h x [st] log) (hl : y.life = x.life) :
    InOrder h y [] (.emitted h x.generation (.reaped st) :: log) := by
  have hgen : y.generation = x.generation := congrArg Life.generation hl
  have hself : announced h x.generation (.emitted h x.generation (.reaped st) :: log) =
      st :: announced h x.generation log := by
    simp [announced, Entry.announces?]
  have hother : ∀ g, g ≠ x.generation →
      announced h g (.emitted h x.generation (.reaped st) :: log) = announced h g log := by
    intro g hg
    have hne : ¬ x.generation = g := fun he => hg he.symm
    simp [announced, Entry.announces?, hne]
  have hkept := hx.keep (slimmer_of_life hl) (silent_nil h)
  constructor
  case born => exact hkept.born
  case running => exact hkept.running
  case reaped => exact hkept.reaped
  case closed => exact hkept.closed
  case carried =>
    have hstatus : y.status = x.status := congrArg Life.status hl
    rw [hgen, hself, hstatus]
    exact hx.carried
  case later =>
    intro g hg
    rw [hgen] at hg
    rw [hother g (by omega), hx.later g hg]
  case once =>
    intro g
    by_cases hg : g = x.generation
    · rw [hg, hself, ← List.singleton_append, ← hx.carried]
      cases x.status <;> simp
    · rw [hother g hg]
      exact hx.once g
  case pending => exact fun hne => absurd rfl hne

theorem dueExit_eq_nil {d : Option (Nat × Event)} (hd : d = none) : dueExit h d = [] := by
  rw [hd]
  rfl

theorem dueExit_eq_singleton {d : Option (Nat × Event)} {st : ExitStatus} (hd : dueExit h d = [st]) :
    d = some (h, .reaped st) := by
  unfold dueExit at hd
  split at hd
  · next i st' =>
    split at hd
    · next hi =>
      injection hd with hst
      rw [hi, hst]
    · cases hd
  · cases hd

theorem InOrder.shift {d d' : Option (Nat × Event)} {es : List Entry}
    (hx : InOrder h x (dueExit h d) log) (hs : Shift o h x d es y d') :
    InOrder h y (dueExit h d') (es ++ log) := by
  cases hs with
  | keeps hs he hd =>
    rw [hd]
    exact hx.keep hs he
  | spawned hx₀ ho hd hd' hb hnew ha hst hy hg hp hnone =>
    rw [dueExit_eq_nil hd] at hx
    rw [dueExit_eq_nil hd']
    exact hx.after_spawn hb ha hy hg hp hnone
  | closed hx₀ hd hd' he hst hy =>
    rw [dueExit_eq_nil hd] at hx
    rw [dueExit_eq_nil hd']
    exact hx.after_close he hy
  | reaped st hx₀ hd hd' he hst hy =>
    subst hd hd' he hy
    rw [dueExit_self]
    exact hx.after_reap hst
  | told st hx₀ hd hd' he hy =>
    subst hd hd' he
    rw [dueExit_self] at hx
    exact hx.after_emit hy

/-- A passage goes on with one more deed: where the deed gives the handle another state, the step had
not touched it before. -/
theorem Passage.shift {d d' : Option (Nat × Event)} {es news : List Entry}
    (hp : Passage h (o.handle h) es x d) (hs : Shift o h x d news y d') :
    Passage h (o.handle h) (news ++ es) y d' := by
  have fresh : x.life = (o.handle h).life → births h es = 0 ∧ x.generation = (o.handle h).generation ∧
      x.state = (o.handle h).state ∧ x.status = (o.handle h).status := fun hl =>
    ⟨hp.births_of_life hl, congrArg Life.generation hl, congrArg Life.state hl, congrArg Life.status hl⟩
  have hsum := births_append h news es
  cases hs with
  | keeps hs he hd =>
    rw [he.births, Nat.zero_add] at hsum
    cases hp with
    | stays hb hg hy hst =>
      exact .stays (hsum.trans hb) (hs.generation.trans hg) (hs.state.trans hy) (hs.status.trans hst)
    | reaped st hb hg hx hy hst hdue =>
      refine .reaped st (hsum.trans hb) (hs.generation.trans hg) hx (hs.state.trans hy)
        (hs.status.trans hst) (dueExit_eq_singleton ?_)
      rw [hd, hdue, dueExit_self]
    | closed hb hg hx hy hst =>
      exact .closed (hsum.trans hb) (hs.generation.trans hg) hx (hs.state.trans hy) (hs.status.trans hst)
    | spawned hb hg hx hy =>
      exact .spawned (hsum.trans hb) (hs.generation.trans hg) hx (hs.state.trans hy)
  | spawned hx₀ ho hd hd' hb hnew ha hst hy hg hpid hnone =>
    obtain ⟨hb₀, hg₀, hst₀, -⟩ := fresh hx₀
    rw [hb, hb₀] at hsum
    rw [hst₀] at hst
    exact .spawned hsum (by rw [hg, hg₀]) hst hy
  | closed hx₀ hd hd' he hst hy =>
    obtain ⟨hb₀, hg₀, hst₀, hstatus₀⟩ := fresh hx₀
    rw [he.births, hb₀] at hsum
    rw [hst₀] at hst
    have hgen : y.generation = x.generation := congrArg Life.generation hy
    have hstatus : y.status = x.status := congrArg Life.status hy
    exact .closed hsum (hgen.trans hg₀) hst (congrArg Life.state hy) (hstatus.trans hstatus₀)
  | reaped st hx₀ hd hd' he hst hy =>
    obtain ⟨hb₀, hg₀, hst₀, -⟩ := fresh hx₀
    subst he hy
    rw [hst₀] at hst
    exact .reaped st hb₀ hg₀ hst rfl rfl hd'
  | told st hx₀ hd hd' he hy =>
    obtain ⟨hb₀, hg₀, hst₀, hstatus₀⟩ := fresh hx₀
    subst he
    have hgen : y.generation = x.generation := congrArg Life.generation hy
    have hstate : y.state = x.state := congrArg Life.state hy
    have hstatus : y.status = x.status := congrArg Life.status hy
    refine .stays ?_ (hgen.trans hg₀) (hstate.trans hst₀) (hstatus.trans hstatus₀)
    rw [hsum, hb₀]
    rfl

/-! ## Steps and runs -/

theorem inOrder_fresh (h : Nat) : InOrder h .fresh [] [] := by
  refine ⟨rfl, fun hst => ?_, fun hst => ?_, fun hst => ?_, rfl, fun _ _ => rfl, fun _ => Nat.zero_le _,
    fun hne => absurd rfl hne⟩
  · cases hst
  · cases hst
  · cases hst

theorem ordered_initial (hi : Initial s) : Ordered s.stage [] := by
  intro h
  have hlife : (s.handle h).life = Handle.fresh.life ∧ s.stage.due = none := by
    cases hi with
    | fresh config tick environ kernel logging => exact ⟨rfl, rfl⟩
    | forRun outer spec =>
      refine ⟨?_, rfl⟩
      cases h with
      | zero => rfl
      | succ h => rfl
  have hkept := (inOrder_fresh h).keep (slimmer_of_life hlife.1) (silent_nil h)
  rw [hlife.2]
  exact hkept

/-- In every run all handles are in order. -/
theorem ordered_run {G : Machine → Prop} (hr : Run G s log) : Ordered s.stage log := by
  refine (run_stages (P := Ordered) (fun s hi => ordered_initial hi) ?_ ?_ ?_ hr).2
  · exact fun s t D d log es hl he ho h => (ho h).shift (hl.shift he s d h)
  · exact fun s D D' d log ht ho => ho
  · exact fun o σ τ log news hf ho hl hj h => (ho h).shift (hl.shift hf hj h)

theorem mem_announced {g : Nat} {st : ExitStatus} {es : List Entry}
    (hm : .emitted h g (.reaped st) ∈ es) : st ∈ announced h g es :=
  List.mem_filterMap.2 ⟨_, hm, if_pos ⟨rfl, rfl⟩⟩

/-- The course of a step goes on with one more deed. -/
theorem Course.shift {news es : List Entry} (hc : Course s es σ) (ho : Ordered σ log)
    (hs : ∀ h, Shift s h (σ.machine.handle h) σ.due news (τ.machine.handle h) τ.due) :
    Course s (news ++ es) τ := by
  constructor
  case passage => exact fun h => (hc.passage h).shift (hs h)
  case due =>
    intro h st hdue
    cases hs h with
    | keeps hs he hd =>
      rw [hdue, dueExit_self] at hd
      exact hc.due h st (dueExit_eq_singleton hd.symm)
    | spawned hx₀ ho hd hd' =>
      rw [hdue] at hd'
      cases hd'
    | closed hx₀ hd hd' =>
      rw [hdue] at hd'
      cases hd'
    | reaped st' hx₀ hd hd' he hx hy =>
      have hstate : (σ.machine.handle h).state = (s.handle h).state := congrArg Life.state hx₀
      exact .inr (hstate.symm.trans hx)
    | told st' hx₀ hd hd' =>
      rw [hdue] at hd'
      cases hd'
  case asked =>
    intro hnone h
    rw [births_append, hc.asked hnone]
    cases hs h with
    | keeps hs he hd => exact he.births
    | spawned hx₀ ho =>
      rw [hnone] at ho
      cases ho
    | closed hx₀ hd hd' he => exact he.births
    | reaped st hx₀ hd hd' he =>
      subst he
      rfl
    | told st hx₀ hd hd' he =>
      subst he
      rfl
  case told =>
    intro h g st hm
    rcases List.mem_append.1 hm with hm | hm
    · have hmem := mem_announced hm
      cases hs h with
      | keeps hs he hd =>
        rw [he.announced] at hmem
        cases hmem
      | spawned hx₀ ho hd hd' hb hnew ha =>
        rw [ha] at hmem
        cases hmem
      | closed hx₀ hd hd' he =>
        rw [he.announced] at hmem
        cases hmem
      | reaped st' hx₀ hd hd' he =>
        subst he
        cases hm
      | told st' hx₀ hd hd' he hy =>
        subst he
        obtain ⟨rfl, rfl⟩ : g = (σ.machine.handle h).generation ∧ st = st' := by simpa using hm
        have hstate : (σ.machine.handle h).state = (s.handle h).state := congrArg Life.state hx₀
        have hgen : (σ.machine.handle h).generation = (s.handle h).generation := congrArg Life.generation hx₀
        have hstatus : (σ.machine.handle h).status = (s.handle h).status := congrArg Life.status hx₀
        have hord := ho h
        rw [hd, dueExit_self] at hord
        have hreaped : (s.handle h).state = .reaped := hstate.symm.trans (hord.pending (by simp))
        have hexit : (σ.machine.handle h).status = some st := by
          have hcarried := hord.carried
          cases hst : (σ.machine.handle h).status with
          | none =>
            rw [hst] at hcarried
            cases hcarried
          | some st' =>
            rw [hst] at hcarried
            injection hcarried with hst'
            rw [hst']
        refine ⟨?_, hgen, hreaped, hstatus.symm.trans hexit⟩
        rcases hc.due h st hd with hcontrol | hrun
        · exact hcontrol
        · rw [hrun] at hreaped
          cases hreaped
    · exact hc.told h g st hm

theorem course_refl (s : Machine) : Course s [] s.stage := by
  refine ⟨fun h => .stays rfl rfl rfl rfl, fun h st hdue => .inl ?_, fun _ _ => rfl,
    fun h g st hm => absurd hm List.not_mem_nil⟩
  have hdue : s.control.due = some (h, .reaped st) := hdue
  cases hcontrol : s.control with
  | emit i e =>
    rw [hcontrol] at hdue
    cases hdue
    rfl
  | _ =>
    rw [hcontrol] at hdue
    cases hdue

theorem course_step (hf : Footing s.stage log) (ho : Ordered s.stage log) : Course s s.news s.step.stage := by
  have hcarried := (step_carries (P := fun σ log' => Ordered σ log' ∧ ∃ es, log' = es ++ log ∧ Course s es σ)
    hf ⟨ho, [], rfl, course_refl s⟩ ?_ ?_ ?_).2
  · obtain ⟨-, es, he, hc⟩ := hcarried
    obtain rfl := List.append_cancel_right he
    exact hc
  · rintro s t D d log es hl he ⟨ho, es', rfl, hc⟩
    exact ⟨fun h => (ho h).shift (hl.shift he s d h), es ++ es', by rw [List.append_assoc],
      hc.shift ho (hl.shift he _ d)⟩
  · rintro s D D' d log - ⟨ho, es, he, hc⟩
    exact ⟨ho, es, he, hc.passage, hc.due, hc.asked, hc.told⟩
  · rintro σ τ log news hf ⟨ho, es, rfl, hc⟩ hl hj
    exact ⟨fun h => (ho h).shift (hl.shift hf hj h), news ++ es, by rw [List.append_assoc],
      hc.shift ho (hl.shift hf hj)⟩

/-! ## Main theorem -/

/-- Every handle leads its life, in every run. -/
theorem lifecycle_run (hr : Run (fun _ => True) s log) (h : Nat) : Lifecycle s log h := by
  have hf := footing_run hr
  have ho := ordered_run hr
  have hc := course_step hf ho
  have hx := ho h
  constructor
  case born => exact hx.born.symm
  case running => exact hx.running
  case reaped => exact hx.reaped
  case closed => exact hx.closed
  case once => exact hx.once
  case carried => exact hx.carried
  case passage =>
    intro t log' hm
    rcases pause_cases hm with ⟨-, rfl, rfl⟩ | ⟨hpause, rfl⟩
    · exact ⟨s.news, rfl, hc.passage h⟩
    · exact ⟨[], rfl, .stays rfl (hpause.level.generation h) (hpause.level.state h) (hpause.level.status h)⟩
  case told => exact hc.told h
  case telling =>
    intro st hcontrol
    have hstep : s.step = s.emit h (.reaped st) := by rw [step, hcontrol]
    have hnews : s.step.journal = [.emitted h (s.handle h).generation (.reaped st)] ++ s.journal := by
      rw [hstep]
      unfold emit
      dsimp only
      split <;> rfl
    rw [news_eq hnews]
    exact List.mem_cons_self
  case spawned => exact births_step hf fun hnone => hc.asked hnone h
  case refused =>
    intro i e ha
    obtain ⟨hh, hl⟩ := refused_step ha
    exact ⟨hh h, hl⟩

/-- A machine whose child has ended with code 3, about to announce it. -/
def departing : Machine × List Entry :=
  carry (carry (carry (.fresh .standard 10000000 [] (.fresh true), [])
    (.spawn "a" (.ofArgs ["/bin/true"]) ⟨.standard, []⟩ none) 1)
    (.event (.child 4001 (.exit 768 []))) 1) (.iterate false) 18

theorem lifecycle_of_departing : Run (fun _ => True) departing.1 departing.2 ∧
    departing.1.control = .emit 0 (.reaped (.exited 3)) ∧ (departing.1.handle 0).state = .reaped ∧
    Lifecycle departing.1 departing.2 0 := by
  have hrun : Run (fun _ => True) departing.1 departing.2 :=
    Run.carry (Run.carry (Run.carry (Run.init (.fresh .standard 10000000 [] (.fresh true) true)) rfl
      fun _ _ => trivial) (by decide) fun _ _ => trivial) (by decide) fun _ _ => trivial
  exact ⟨hrun, rfl, rfl, lifecycle_run hrun 0⟩

end Machine

end Overseer
