import Overseer.Proofs.HandleDeeds

/-!
# What a spawn returns

    spawn = error e  →  handles and registry are as they were
    spawn = ok       ↔  the step tells of a birth

Main statements: `births_step`, `refused_step`.
-/

namespace Overseer

open Supervisor

namespace Machine

/-- The handle upon which the next step spawns, and what the spawn returns. -/
def spawnAnswer? (s : Machine) : Option (Nat × Except SpawnError Unit) :=
  match s.control, s.step.control with
  | .perform (.spawn name _ _ _), .value (.answer (.ofHandle (.spawned r) _ _)) =>
    some ((s.resolve name).1, r)
  | .isolated _, .value (.answer (.report _ (.error (.spawn e)) _)) => some (0, .error e)
  | .isolated _, _ => some (0, .ok ())
  | _, _ => none

variable {s t : Machine} {log : List Entry} {h : Nat} {x : Handle}

/-- A spawn is refused, and nothing but the journal has changed, or the child is adopted. -/
theorem spawn_cases (s : Machine) (h : Nat) (c : Command) (plan : Kernel.Plan) (execError : Option Int) :
    (∃ e, (s.spawn h c plan execError).1 = .error e ∧
        (s.spawn h c plan execError).2.2.handles = s.handles ∧
        (s.spawn h c plan execError).2.2.loop = s.loop ∧
        ∃ es, (s.spawn h c plan execError).2.2.journal = es ++ s.journal ∧ ∀ e ∈ es, e.isMere = true) ∨
      ((s.spawn h c plan execError).1 = .ok () ∧ ∃ e pid k,
        (s.spawn h c plan execError).2.2 = ((s.record (.executed e)).withKernel k).adopt h c e pid) := by
  have noted : ∀ (s : Machine) n, (s.note n).handles = s.handles ∧ (s.note n).loop = s.loop ∧
      ∃ es, (s.note n).journal = es ++ s.journal ∧ ∀ e ∈ es, e.isMere = true := fun s n =>
    ⟨(beside_note s n).handles, loop_note s n, (calm_note s n).journal⟩
  unfold spawn
  split
  · exact .inl ⟨_, rfl, rfl, rfl, [], rfl, by simp⟩
  · next program _ =>
    dsimp only
    generalize execution c program s.environ = x
    split
    · exact .inl ⟨_, rfl, rfl, rfl, [], rfl, by simp⟩
    · split
      · exact .inl ⟨_, rfl, noted s _⟩
      · split
        · next n =>
          obtain ⟨hh, hl, es, he, hes⟩ := noted (s.record (.executed x)) (.spawnFailed c (.code n))
          refine .inl ⟨_, rfl, hh, hl, es ++ [.executed x], ?_, fun e hm => ?_⟩
          · rw [List.append_assoc]
            exact he
          · rcases List.mem_append.1 hm with hm | hm
            · exact hes e hm
            · rw [List.mem_singleton.1 hm]
              rfl
        · exact .inr ⟨rfl, _, _, _, rfl⟩

theorem births_of_mere {es : List Entry} (he : ∀ e ∈ es, e.isMere = true) (h : Nat) : births h es = 0 :=
  (silent_of_hushed (fun e hm => Entry.isHushed_of_isLow (Entry.isLow_of_isMere (he e hm))) h).births

/-- A birth is told of exactly when the spawn returns that it went well. -/
theorem births_spawn (ht : s.loop.Tidy) {i : Nat} (hi : i < s.handles.length) (c : Command)
    (plan : Kernel.Plan) (execError : Option Int) :
    ∃ es, (s.spawn i c plan execError).2.2.journal = es ++ s.journal ∧
      ∀ h, births h es = 1 ↔ (s.spawn i c plan execError).1 = .ok () ∧ i = h := by
  rcases spawn_cases s i c plan execError with ⟨e, he, -, -, es, hj, hes⟩ | ⟨hok, e, pid, k, hm⟩
  · refine ⟨es, hj, fun h => ?_⟩
    rw [births_of_mere hes, he]
    simp
  · have ha := adoption_adopt ((s.record (.executed e)).withKernel k) ht hi c e pid
    obtain ⟨es, hj, hes, -⟩ := ha.tale
    refine ⟨es ++ [.executed e], ?_, fun h => ?_⟩
    · rw [hm, List.append_assoc]
      exact hj
    · rw [births_append, hes, hok]
      have hnone : births h [.executed e] = 0 := rfl
      rw [hnone]
      simp

theorem startRun_cases (s : Machine) (spec : RunSpec) :
    (∃ e, (s.spawn 0 spec.command spec.plan spec.execError).1 = .error e ∧ ∃ time x, s.startRun spec =
        (s.spawn 0 spec.command spec.plan spec.execError).2.2.yieldAnswer (.report time (.error (.spawn e)) x)) ∨
      ((s.spawn 0 spec.command spec.plan spec.execError).1 = .ok () ∧
        (∀ v, (s.startRun spec).control ≠ .value v) ∧ ∃ es, (s.startRun spec).journal =
          es ++ (s.spawn 0 spec.command spec.plan spec.execError).2.2.journal ∧ ∀ e ∈ es, e.isMere = true) := by
  unfold startRun
  dsimp only
  generalize s.spawn 0 spec.command spec.plan spec.execError = r
  obtain ⟨r, x, t⟩ := r
  cases r with
  | error e => exact .inl ⟨e, rfl, _, _, rfl⟩
  | ok u =>
    refine .inr ⟨rfl, ?_⟩
    dsimp only
    split
    · refine ⟨fun v hv => ?_, [], rfl, by simp⟩
      cases hv
    · refine ⟨fun v hv => ?_, [.added t.kernel.now (t.loop.lastId + 1)], rfl, by simp [Entry.isMere]⟩
      cases hv

theorem spawnAnswer_of_spawn {name : String} {c : Command} {plan : Kernel.Plan} {execError : Option Int}
    (hc : s.control = .perform (.spawn name c plan execError)) :
    s.spawnAnswer? = some ((s.resolve name).1, ((s.resolve name).2.spawn (s.resolve name).1 c plan execError).1) := by
  have hstep : s.step = s.perform (.spawn name c plan execError) := by rw [step, hc]
  rw [spawnAnswer?, hc, hstep]
  rfl

theorem spawnAnswer_of_isolated {spec : RunSpec} (hc : s.control = .isolated spec) :
    s.spawnAnswer? = some (0, (s.spawn 0 spec.command spec.plan spec.execError).1) := by
  have hstep : s.step = s.startRun spec := by rw [step, hc]
  rw [spawnAnswer?, hc, hstep]
  rcases startRun_cases s spec with ⟨e, he, time, x, hrun⟩ | ⟨hok, hcontrol, -⟩
  · rw [hrun, he]
    rfl
  · rw [hok]
    generalize (s.startRun spec).control = control at hcontrol
    cases control with
    | value v => exact absurd rfl (hcontrol v)
    | _ => rfl

theorem lt_resolve (hf : Footing s.stage log) (name : String) :
    (s.resolve name).1 < (s.resolve name).2.handles.length := by
  unfold resolve
  split
  · next i hi =>
    obtain ⟨r, hr, rfl⟩ := List.mem_map.1 (mem_of_look? hi)
    exact hf.names r hr
  · simp

theorem loop_resolve (s : Machine) (name : String) : (s.resolve name).2.loop = s.loop := by
  unfold resolve
  split <;> rfl

theorem journal_resolve (s : Machine) (name : String) : (s.resolve name).2.journal = s.journal := by
  unfold resolve
  split <;> rfl

/-- A step tells of a birth exactly when it spawns and the spawn returns that it went well. -/
theorem births_step (hf : Footing s.stage log) (hasked : s.spawning? = none → births h s.news = 0) :
    births h s.news = 1 ↔ s.spawnAnswer? = some (h, .ok ()) := by
  cases hsp : s.spawning? with
  | none =>
    rw [hasked hsp]
    refine ⟨fun hb => (by cases hb), fun ha => ?_⟩
    cases hc : s.control with
    | perform op =>
      cases op with
      | spawn name c plan execError =>
        rw [spawning?, hc] at hsp
        cases hsp
      | _ =>
        rw [spawnAnswer?, hc] at ha
        cases ha
    | isolated spec =>
      rw [spawning?, hc] at hsp
      cases hsp
    | _ =>
      rw [spawnAnswer?, hc] at ha
      cases ha
  | some c =>
    unfold spawning? at hsp
    split at hsp
    · next name c plan execError hc =>
      obtain ⟨es, hj, hes⟩ := births_spawn (s := (s.resolve name).2) (by rw [loop_resolve]; exact hf.tidy)
        (lt_resolve hf name) c plan execError
      have hstep : s.step.journal =
          ((s.resolve name).2.spawn (s.resolve name).1 c plan execError).2.2.journal := by
        rw [step, hc]
        rfl
      have hnews : s.news = es := news_eq (by rw [hstep, hj, journal_resolve])
      rw [hnews, hes, spawnAnswer_of_spawn hc]
      simp [and_comm]
    · next spec hc =>
      have hlen : 0 < s.handles.length := by
        refine hf.commence ?_
        rw [stage, hc]
        exact List.mem_cons_self
      obtain ⟨es, hj, hes⟩ := births_spawn (s := s) hf.tidy hlen spec.command spec.plan spec.execError
      have hstep : s.step = s.startRun spec := by rw [step, hc]
      have hnews : ∃ more, s.step.journal =
          more ++ (s.spawn 0 spec.command spec.plan spec.execError).2.2.journal ∧
          ∀ e ∈ more, e.isMere = true := by
        rw [hstep]
        rcases startRun_cases s spec with ⟨e, -, time, x, hrun⟩ | ⟨-, -, hjournal⟩
        · rw [hrun]
          exact ⟨[], rfl, by simp⟩
        · exact hjournal
      obtain ⟨more, hmore, hmere⟩ := hnews
      have hsplit : s.news = more ++ es := news_eq (by rw [hmore, hj, List.append_assoc])
      rw [hsplit, births_append,
        births_of_mere hmere, Nat.zero_add, hes, spawnAnswer_of_isolated hc]
      simp [and_comm]
    · cases hsp

/-- A spawn that is refused leaves every handle and the registry as they were. -/
theorem refused_step {i : Nat} {e : SpawnError} (ha : s.spawnAnswer? = some (i, .error e)) :
    (∀ h, s.step.handle h = s.handle h) ∧ s.step.loop = s.loop := by
  have refused : ∀ (t : Machine) j c plan execError, (t.spawn j c plan execError).1 = .error e →
      (t.spawn j c plan execError).2.2.handles = t.handles ∧
        (t.spawn j c plan execError).2.2.loop = t.loop := by
    intro t j c plan execError he
    rcases spawn_cases t j c plan execError with ⟨e', -, hh, hl, -⟩ | ⟨hok, -⟩
    · exact ⟨hh, hl⟩
    · rw [hok] at he
      cases he
  cases hc : s.control with
  | perform op =>
    cases op with
    | spawn name c plan execError =>
      rw [spawnAnswer_of_spawn hc] at ha
      obtain ⟨hh, hl⟩ := refused _ _ _ _ _ (congrArg Prod.snd (Option.some.inj ha))
      have hstep : s.step = s.perform (.spawn name c plan execError) := by rw [step, hc]
      rw [hstep]
      refine ⟨fun h => ?_, hl.trans (loop_resolve s name)⟩
      rw [← handle_resolve s name h, handle, handle, ← hh]
      rfl
    | _ =>
      rw [spawnAnswer?, hc] at ha
      cases ha
  | isolated spec =>
    rw [spawnAnswer_of_isolated hc] at ha
    have he := congrArg Prod.snd (Option.some.inj ha)
    obtain ⟨hh, hl⟩ := refused _ _ _ _ _ he
    have hstep : s.step = s.startRun spec := by rw [step, hc]
    rcases startRun_cases s spec with ⟨e', -, time, x, hrun⟩ | ⟨hok, -⟩
    · rw [hstep, hrun]
      refine ⟨fun h => ?_, hl⟩
      rw [handle, handle, ← hh]
      rfl
    · rw [hok] at he
      cases he
  | _ =>
    rw [spawnAnswer?, hc] at ha
    cases ha

end Machine

end Overseer
