import Overseer.Proofs.CustodyEffects
import Overseer.Proofs.DeedEffects
import Overseer.Proofs.Run

/-!
# Custody of children

Every effect keeps custody, so every step does, which is a chain of effects; what happens between two steps
changes nothing of it.

    Between s t  =  t is s but for control, kernel, journal and the like

Another invariant of runs may rest upon custody: it has to be shown for a single effect only.

Main statements: `custody_run` (every run keeps custody), `run_keeps`.
-/

namespace Overseer.Machine

open Supervisor

variable {o s t : Machine} {σ τ : Scene} {log : List Entry}

/-- What every effect keeps, as long as there is custody, a chain of effects keeps. -/
theorem Custody.effects {P : Scene → List Entry → Prop} (hc : Custody σ log) (hp : P σ log)
    (keep : ∀ σ τ log news, Custody σ log → P σ log → Effect o σ τ →
      τ.machine.journal = news ++ σ.machine.journal → P τ (news ++ log))
    (h : Effects o σ τ) : ∃ news, τ.machine.journal = news ++ σ.machine.journal ∧
      Custody τ (news ++ log) ∧ P τ (news ++ log) := by
  induction h with
  | refl => exact ⟨[], rfl, hc, hp⟩
  | @tail b c hb he ih =>
    obtain ⟨news, hj, hc', hp'⟩ := ih
    obtain ⟨more, hj', hc''⟩ := hc'.effect he
    refine ⟨more ++ news, ?_, ?_, ?_⟩
    · rw [hj', hj, List.append_assoc]
    · rw [List.append_assoc]
      exact hc''
    · rw [List.append_assoc]
      exact keep b c _ more hc' hp' he hj'

theorem Custody.step {s : Machine} (hc : Custody s.scene log) :
    Custody s.step.scene (s.news ++ log) := by
  obtain ⟨news, hj, hc', -⟩ := hc.effects (P := fun _ _ => True) trivial (fun _ _ _ _ _ _ _ _ => trivial)
    (step_effects s hc.sound.tidy)
  have hnews : s.news = news := news_eq hj
  rw [hnews]
  exact hc'

/-- A machine without watches, tags and calls, whose handles are fresh, has nobody in custody. -/
theorem custody_fresh {s : Machine} (hw : s.loop.watches = []) (ht : s.tags = []) (hh : s.held = [])
    (hr : s.reapings = []) (hf : ∀ h, (s.handle h).life = Handle.fresh.life) : Custody s.scene [] := by
  have hids : s.loop.ids = [] := by rw [Loop.ids, hw]; rfl
  have hown : s.loop.own = [] := by rw [Loop.own, Loop.wards, hw]; rfl
  have hpipe : ∀ h st, (s.handle h).pipe st = none := by
    intro h st
    cases st with
    | out => exact congrArg Life.out (hf h)
    | err => exact congrArg Life.err (hf h)
  have hnone : ∀ id, ¬ s.scene.Claims id := by
    rintro id (hid | hid | ⟨h, st, p, hp, -⟩)
    · have hid : id ∈ s.held := hid
      rw [hh] at hid
      cases hid
    · have hid : id ∈ s.tags.map (·.2) := hid
      rw [ht] at hid
      cases hid
    · have hp : (s.handle h).pipe st = some p := hp
      rw [hpipe] at hp
      cases hp
  have htidy : s.loop.Tidy := by
    constructor
    · rw [hids]
      exact List.nodup_nil
    · intro id hid
      rw [hids] at hid
      cases hid
  have hnobody : ∀ k, k ∉ s.loop.own := by
    intro k hk
    rw [hown] at hk
    cases hk
  have hnothing : ∀ x, x ∉ s.reapings := by
    intro x hx
    rw [hr] at hx
    cases hx
  constructor
  case sound => exact ⟨htidy, fun id hid => absurd hid (hnone id), fun id hid => absurd hid (hnone id)⟩
  case handle => exact fun h => minds_fresh (hf h)
  case untold => exact fun k hk => absurd hk (hnobody k)
  case reaper =>
    intro h g p hp
    cases hp
  case ward => exact fun k hk => absurd hk (hnobody k)
  case reaping => exact fun x hx => absurd hx (hnothing x)

theorem custody_initial {s : Machine} (h : Initial s) : Custody s.scene [] := by
  cases h with
  | fresh config tick environ kernel logging =>
    exact custody_fresh rfl rfl rfl rfl fun _ => rfl
  | forRun outer spec =>
    refine custody_fresh rfl rfl rfl rfl fun h => ?_
    cases h with
    | zero => rfl
    | succ h => cases h <;> rfl

/-- Nothing has changed but control, kernel, journal and the like. -/
structure Between (s t : Machine) : Prop where
  watches : t.loop.watches = s.loop.watches
  lastId : t.loop.lastId = s.loop.lastId
  handles : t.handles = s.handles
  tags : t.tags = s.tags
  held : t.held = s.held
  reapings : t.reapings = s.reapings

theorem control_of_isIdle {s : Machine} (h : s.isIdle = true) :
    (∃ v, s.control = .value v) ∧ s.stack = [] := by
  unfold isIdle at h
  split at h
  · next v hc hs => exact ⟨⟨v, hc⟩, hs⟩
  · cases h

/-- A move is a step, or what it changes is between two steps. -/
theorem move_cases {G : Machine → Prop} {s t : Machine} {log' : List Entry}
    (h : Move G (s, log) (t, log')) :
    (G s ∧ t = s.step ∧ log' = s.news ++ log) ∨ (Between s t ∧ log' = log) := by
  cases h with
  | step hg => exact .inl ⟨hg, rfl, rfl⟩
  | elsewhere k => exact .inr ⟨⟨rfl, rfl, rfl, rfl, rfl, rfl⟩, rfl⟩
  | rejoin inner a hs =>
    refine .inr ⟨⟨rfl, rfl, rfl, rfl, ?_, ?_⟩, rfl⟩
    · rw [Machine.held, Machine.held, hs]
      rfl
    · rw [Machine.reapings, Machine.reapings, hs]
      rfl
  | start op hi =>
    obtain ⟨⟨v, hv⟩, -⟩ := control_of_isIdle hi
    refine .inr ⟨⟨rfl, rfl, rfl, rfl, ?_, ?_⟩, rfl⟩
    · rw [Machine.held, Machine.held, hv]
      rfl
    · rw [Machine.reapings, Machine.reapings, hv]
      rfl
  | ending => exact .inr ⟨⟨rfl, rfl, rfl, rfl, rfl, rfl⟩, rfl⟩

theorem Custody.between {s t : Machine} (hc : Custody s.scene log) (h : Between s t) :
    Custody t.scene log := by
  have halike : Loop.Alike s.loop t.loop := ⟨h.lastId, by rw [h.watches]⟩
  have hq : Quiet s.scene ⟨t, s.held, s.reapings⟩ := by
    refine quiet_of_own (halike.tidy hc.sound.tidy) (Nat.le_of_eq h.lastId.symm)
      (Loop.own_of_wards halike.wards) h.tags fun i => ?_
    rw [Machine.handle, Machine.handle, h.handles]
    exact .refl _
  have hscene : t.scene = ⟨t, s.held, s.reapings⟩ := by rw [scene, h.held, h.reapings]
  rw [hscene]
  have hnone : ∀ e ∈ ([] : List Entry), e.isAside = true := by simp
  exact hc.quiet hq hnone

/-- Every run keeps custody. -/
theorem custody_run {G : Machine → Prop} {s : Machine} (h : Run G s log) : Custody s.scene log := by
  refine Run.invariant (P := fun s log => Custody s.scene log) (fun _ => custody_initial)
    (fun s log t log' hc hm => ?_) h
  rcases move_cases hm with ⟨-, rfl, rfl⟩ | ⟨hb, rfl⟩
  · exact hc.step
  · exact hc.between hb

/-- What holds at first and is kept by every effect holds of every run. -/
theorem run_keeps {G : Machine → Prop} {P : Scene → List Entry → Prop}
    (init : ∀ s, Initial s → P s.scene [])
    (between : ∀ s t log, Between s t → P s.scene log → P t.scene log)
    (keep : ∀ o σ τ log news, G o → Custody σ log → P σ log → Effect o σ τ →
      τ.machine.journal = news ++ σ.machine.journal → P τ (news ++ log))
    {s : Machine} (h : Run G s log) : P s.scene log := by
  have hboth : Custody s.scene log ∧ P s.scene log := by
    refine Run.invariant (P := fun s log => Custody s.scene log ∧ P s.scene log)
      (fun s hi => ⟨custody_initial hi, init s hi⟩) (fun s log t log' hcp hm => ?_) h
    obtain ⟨hc, hp⟩ := hcp
    rcases move_cases hm with ⟨hg, rfl, rfl⟩ | ⟨hb, rfl⟩
    · obtain ⟨news, hj, -, hp'⟩ := hc.effects hp (fun σ τ log news => keep s σ τ log news hg)
        (step_effects s hc.sound.tidy)
      rw [news_eq hj]
      exact ⟨by rw [← news_eq hj]; exact hc.step, hp'⟩
    · exact ⟨hc.between hb, between s t log' hb hp⟩
  exact hboth.2

end Overseer.Machine
