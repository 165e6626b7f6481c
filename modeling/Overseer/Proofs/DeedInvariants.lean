import Overseer.Proofs.Learning
import Overseer.Proofs.Wiring

/-!
# Invariants of deeds

An invariant of stages is shown deed by deed, and so for every run.  Mild deeds, and what happens
between two steps, leave the machines level: all that a duty is about is as it was.

    Level s t  =  the same outlines, handles, names, tags and marks, but for an input closed
    Pause s t  =  t is s between two steps, on another kernel or with another control

Main statements: `step_carries` (what deeds keep, a step keeps), `run_stages` (and so does a run).
-/

namespace Overseer

open Supervisor

namespace Supervisor

/-- Entries that tell of no stream, event or watch, and of no spawn. -/
def Entry.isLow : Entry → Bool
  | asked .. => true
  | signalled .. => true
  | e => e.isMere

/-- Entries that tell of what became of one watch. -/
def Entry.isStir : Entry → Bool
  | started .. => true
  | settled .. => true
  | added .. => true
  | removed .. => true
  | _ => false

/-- The life of a handle, whether or not its input is open. -/
def Life.sealed (l : Life) : Life := { l with stdin := none }

theorem Entry.isLow_of_isMere {e : Entry} (h : e.isMere = true) : e.isLow = true := by
  cases e <;> first | rfl | cases h

end Supervisor

namespace Machine

structure Level (s t : Machine) : Prop where
  look : ∀ id, t.loop.look id = s.loop.look id
  lastId : t.loop.lastId = s.loop.lastId
  life : ∀ h, (t.handle h).life.sealed = (s.handle h).life.sealed
  stdin : ∀ h, (t.handle h).stdin = (s.handle h).stdin ∨ (t.handle h).stdin = none
  outbox : ∀ h, (t.handle h).outbox = (s.handle h).outbox
  size : s.handles.length ≤ t.handles.length
  names : ∀ r ∈ t.names, r ∈ s.names ∨ r.2 < t.handles.length
  tags : t.tags = s.tags
  config : t.config = s.config
  raised : ∀ id ∈ t.raised, id ∈ s.raised

structure Pause (s t : Machine) : Prop where
  level : Level s t
  due : t.stage.due = s.stage.due
  duties : t.stage.duties = s.stage.duties ∨ ∃ b, s.stage.duties = [.verdict b] ∧ t.stage.duties = []

/-- What every invariant of stages builds upon: there is custody, exits were learnt, and handles that
have a name or an event to tell are there. -/
structure Footing (σ : Stage) (log : List Entry) : Prop where
  custody : Custody σ.scene log
  learned : Learned σ.scene log
  names : ∀ r ∈ σ.machine.names, r.2 < σ.machine.handles.length
  commence : .commence ∈ σ.duties → 0 < σ.machine.handles.length
  due : ∀ h e, σ.due = some (h, e) → h < σ.machine.handles.length

variable {o s t : Machine} {σ τ : Stage} {log : List Entry}

/-! ## Level machines -/

namespace Level

theorem state (hl : Level s t) (h : Nat) : (t.handle h).state = (s.handle h).state :=
  congrArg Life.state (hl.life h)

theorem generation (hl : Level s t) (h : Nat) : (t.handle h).generation = (s.handle h).generation :=
  congrArg Life.generation (hl.life h)

theorem pid (hl : Level s t) (h : Nat) : (t.handle h).pid = (s.handle h).pid :=
  congrArg Life.pid (hl.life h)

theorem status (hl : Level s t) (h : Nat) : (t.handle h).status = (s.handle h).status :=
  congrArg Life.status (hl.life h)

theorem childWatch (hl : Level s t) (h : Nat) : (t.handle h).childWatch = (s.handle h).childWatch :=
  congrArg Life.childWatch (hl.life h)

theorem pipe (hl : Level s t) (h : Nat) (st : Kernel.Stream) :
    (t.handle h).pipe st = (s.handle h).pipe st := by
  cases st with
  | out => exact congrArg Life.out (hl.life h)
  | err => exact congrArg Life.err (hl.life h)

end Level

theorem look_of_watches {l l' : Loop Callback} (h : l'.watches = l.watches) (id : Nat) :
    l'.look id = l.look id := by
  rw [Loop.look, Loop.look, Loop.find?, Loop.find?, h]

theorem Calm.level (h : Calm s t) : Level s t :=
  ⟨look_of_watches h.watches, h.lastId, fun i => by rw [h.life i],
    fun i => .inl (congrArg Life.stdin (h.life i)), h.outbox, h.size, h.names, h.tags,
    h.config, h.raised⟩

theorem level_closeStdin (s : Machine) (h : Nat) : Level s (s.closeStdin h) := by
  obtain ⟨hloop, htags, -, hlen, hothers, hself⟩ := closeStdin_spec s h
  have hspares := spares_closeStdin s h
  have hlife : ∀ i, ((s.closeStdin h).handle i).life.sealed = (s.handle i).life.sealed ∧
      (((s.closeStdin h).handle i).stdin = (s.handle i).stdin ∨ ((s.closeStdin h).handle i).stdin = none) ∧
      ((s.closeStdin h).handle i).outbox = (s.handle i).outbox := by
    intro i
    by_cases hi : i = h
    · subst hi
      rw [hself]
      exact ⟨rfl, .inr rfl, rfl⟩
    · rw [hothers i hi]
      exact ⟨rfl, .inl rfl, rfl⟩
  refine ⟨fun id => by rw [hloop], by rw [hloop], fun i => (hlife i).1, fun i => (hlife i).2.1,
    fun i => (hlife i).2.2,
    Nat.le_of_eq hlen.symm, fun r hr => .inl ?_, htags, hspares.config, fun id hid => ?_⟩
  · rwa [hspares.names] at hr
  · rwa [hspares.raised] at hid

/-- A mild deed leaves the machine level, and the journal tells of nothing but low entries. -/
theorem Mild.level (h : Mild o σ t) : Level σ.machine t ∧
    ∃ es, t.journal = es ++ σ.machine.journal ∧ ∀ e ∈ es, e.isLow = true := by
  cases h with
  | calm ht =>
    obtain ⟨es, he, hm⟩ := ht.journal
    exact ⟨ht.level, es, he, fun e h => Entry.isLow_of_isMere (hm e h)⟩
  | signalled i sig r ho hs hrs hrun =>
    refine ⟨⟨fun _ => rfl, rfl, fun _ => rfl, fun _ => .inl rfl, fun _ => rfl, Nat.le_refl _, fun _ h => .inl h,
      rfl, rfl, fun _ h => h⟩, [_], rfl, by simp [Entry.isLow]⟩
  | collected =>
    refine ⟨⟨fun id => Loop.look_collect _ _ id, rfl, fun _ => rfl, fun _ => .inl rfl, fun _ => rfl, Nat.le_refl _,
      fun _ h => .inl h, rfl, rfl, fun _ h => h⟩, _, journal_collect _, ?_⟩
    intro e he
    obtain ⟨a, -, rfl⟩ := List.mem_map.1 (List.mem_reverse.1 he)
    rfl
  | retouched l hl hlook =>
    exact ⟨⟨hlook, hl.lastId, fun _ => rfl, fun _ => .inl rfl, fun _ => rfl, Nat.le_refl _,
      fun _ h => .inl h, rfl, rfl,
      fun _ h => h⟩, [], rfl, by simp⟩
  | inputClosed i => exact ⟨level_closeStdin _ i, [], (closeStdin_spec _ i).2.2.1, by simp⟩

/-- A callback begins no isolated run. -/
theorem commence_not_mem (cb : Callback) (id : Nat) (payload : Loop.Payload) :
    Duty.commence ∉ cb.duties id payload := by
  cases cb <;> cases payload <;> simp [Callback.duties]

/-- What becomes of a watch does not concern the handles. -/
structure Bystanding (s t : Machine) (D D' : List Duty) : Prop where
  handles : t.handles = s.handles
  names : t.names = s.names
  config : t.config = s.config
  journal : ∃ es, t.journal = es ++ s.journal ∧ ∀ e ∈ es, e.isStir = true
  commence : .commence ∈ D' → .commence ∈ D

theorem Stir.bystanding {D D' : List Duty} (h : Stir o s D t D') : Bystanding s t D D' := by
  cases h with
  | lent time w cb payload l hw hn hcb hp hl hlook =>
    refine ⟨rfl, rfl, rfl, ⟨[_], rfl, by simp [Entry.isStir]⟩, fun hm => ?_⟩
    rcases List.mem_append.1 hm with hm | hm
    · exact absurd hm (commence_not_mem _ _ _)
    · simpa using hm
  | taken time w pid fd st cb hw hs =>
    refine ⟨rfl, rfl, rfl, ⟨[_], rfl, by simp [Entry.isStir]⟩, fun hm => ?_⟩
    rcases List.mem_append.1 hm with hm | hm
    · exact absurd hm (commence_not_mem _ _ _)
    · exact hm
  | restored time now id cb =>
    exact ⟨rfl, rfl, rfl, ⟨[_], rfl, by simp [Entry.isStir]⟩, fun hm => by simp [hm]⟩
  | ended time id cb =>
    exact ⟨rfl, rfl, rfl, ⟨[_], rfl, by simp [Entry.isStir]⟩, fun hm => by simp [hm]⟩
  | rung id => exact ⟨rfl, rfl, rfl, ⟨[], rfl, by simp⟩, fun hm => by simpa using hm⟩
  | engaged priority src hsrc hcb =>
    exact ⟨rfl, rfl, rfl, ⟨[_], rfl, by simp [Entry.isStir]⟩, fun hm => by simpa using hm⟩
  | cleared id => exact ⟨rfl, rfl, rfl, ⟨[_], rfl, by simp [Entry.isStir]⟩, fun hm => by simp [hm]⟩
  | registered name priority src x hsrc hcb ho hs =>
    exact ⟨rfl, rfl, rfl, ⟨[_], rfl, by simp [Entry.isStir]⟩, id⟩
  | watched name pid priority x ho hs =>
    exact ⟨rfl, rfl, rfl, ⟨[_], rfl, by simp [Entry.isStir]⟩, id⟩
  | dismissed id hid => exact ⟨rfl, rfl, rfl, ⟨[_], rfl, by simp [Entry.isStir]⟩, fun hm => hm⟩

theorem Turn.commence {D D' : List Duty} (h : Turn s D D') (hm : .commence ∈ D') : .commence ∈ D := by
  cases h with
  | heeded b hd => exact List.mem_cons_of_mem _ hm
  | muted b => exact absurd hm List.not_mem_nil
  | _ => simp_all

/-! ## Footing -/

theorem Footing.tidy (hf : Footing σ log) : σ.machine.loop.Tidy := hf.custody.sound.tidy

/-- The handle upon which a spawn succeeds is there. -/
theorem Footing.lt_of_named {D : List Duty} {d : Option (Nat × Event)} {h : Nat}
    (hf : Footing ⟨s, D, d⟩ log) (hname : h ∈ s.names.map (·.2) ∨ (h = 0 ∧ .commence ∈ D)) :
    h < s.handles.length := by
  rcases hname with hm | ⟨rfl, hm⟩
  · obtain ⟨r, hr, rfl⟩ := List.mem_map.1 hm
    exact hf.names r hr
  · exact hf.commence hm

theorem spares_close (s : Machine) (ht : s.loop.Tidy) (h : Nat) : Spares s (s.close h) := by
  by_cases hlive : (s.handle h).state = .running ∨ (s.handle h).state = .reaped
  · exact (closure_close s ht hlive).toSpares
  · rw [close_eq_self s hlive]
    exact .refl s

theorem lt_of_pipe {h : Nat} {st : Kernel.Stream} {p : Pipe} (hp : (s.handle h).pipe st = some p) :
    h < s.handles.length := by
  refine lt_of_ne_fresh fun hf => ?_
  rw [hf] at hp
  cases st <;> cases hp

theorem eq_of_map {h i : Nat} {e : Event} {e? : Option Event} (hm : e?.map (h, ·) = some (i, e)) :
    h = i := by
  obtain ⟨e', -, he⟩ := Option.map_eq_some_iff.1 hm
  exact congrArg Prod.fst he

/-- No loud deed names a handle or makes one. -/
theorem Loud.roster (hf : Footing σ log) (hl : Loud o σ τ) :
    τ.machine.handles.length = σ.machine.handles.length ∧ τ.machine.names = σ.machine.names ∧
      (.commence ∈ τ.duties → .commence ∈ σ.duties) ∧
      ∀ h e, τ.due = some (h, e) → h < σ.machine.handles.length := by
  have none : ∀ h e, (none : Option (Nat × Event)) = some (h, e) → h < σ.machine.handles.length :=
    fun h e he => by cases he
  cases hl with
  | stirred hs =>
    have hb := hs.bystanding
    exact ⟨by rw [hb.handles], hb.names, hb.commence, hf.due⟩
  | adopted h c e pid k hname hstate hsp he hk hs =>
    have ha := adoption_adopt ((Machine.record _ (.executed e)).withKernel k) hf.tidy
      (hf.lt_of_named hname) c e pid
    exact ⟨ha.size, ha.names, id, none⟩
  | closed h hc hs hlast hrs =>
    have hspares := spares_close _ hf.tidy h
    exact ⟨hspares.size, hspares.names, id, none⟩
  | reaped x hg hrun hs =>
    refine ⟨List.length_modify _ _ _, rfl, List.mem_cons_of_mem _, fun i e he => ?_⟩
    cases he
    exact lt_of_running hrun
  | read h st p r hp hr hk hc hs =>
    refine ⟨rfl, rfl, fun hm => ?_, fun i e he => ?_⟩
    · rcases List.mem_cons.1 hm with he | hm
      · cases r with
        | ok bytes => cases he
        | error e =>
          rw [readLeaves] at he
          split at he
          · cases he
          · cases he
      · exact List.mem_cons_of_mem _ hm
    · rw [← eq_of_map he]
      exact lt_of_pipe hp
  | finished h st p r n hp hr hk hs =>
    have hrel := release_releaseStream hp r n
    refine ⟨hrel.size, hrel.names, fun hm => by simpa using hm, fun i e he => ?_⟩
    rw [← eq_of_map he]
    exact lt_of_pipe hp
  | emitted h e f hlife hf hs => exact ⟨List.length_modify _ _ _, rfl, id, none⟩
  | handed h e rest entry f hbox hentry hlife hf => exact ⟨List.length_modify _ _ _, rfl, id, none⟩

theorem config_of_loud (hf : Footing σ log) (hl : Loud o σ τ) : τ.machine.config = σ.machine.config := by
  cases hl with
  | stirred hs => exact hs.bystanding.config
  | adopted h c e pid k hname hstate hsp he hk hs =>
    exact (adoption_adopt ((Machine.record _ (.executed e)).withKernel k) hf.tidy (hf.lt_of_named hname) c e
      pid).config
  | closed h hc hs hlast hrs => exact (spares_close _ hf.tidy h).config
  | finished h st p r n hp hr hk hs => exact (release_releaseStream hp r n).config
  | _ => rfl

theorem Footing.deed {news : List Entry} (hf : Footing σ log) (h : Deed o σ τ)
    (hj : τ.machine.journal = news ++ σ.machine.journal) : Footing τ (news ++ log) := by
  obtain ⟨news', hj', hc, hl⟩ := hf.custody.effects hf.learned
    (fun _ _ _ _ hc hl he hj => hl.effect hc he hj) h.effects
  obtain rfl : news' = news := List.append_cancel_right (hj'.symm.trans hj)
  refine ⟨hc, hl, fun r hr => ?_, fun hm => ?_, fun i e he => ?_⟩
  · cases h with
    | mild h =>
      rcases h.level.1.names r hr with hr | hr
      · exact Nat.lt_of_lt_of_le (hf.names r hr) h.level.1.size
      · exact hr
    | turned h => exact hf.names r hr
    | loud h =>
      obtain ⟨hsize, hnames, -, -⟩ := h.roster hf
      rw [hnames] at hr
      rw [hsize]
      exact hf.names r hr
  · cases h with
    | mild h => exact Nat.lt_of_lt_of_le (hf.commence hm) h.level.1.size
    | turned h => exact hf.commence (h.commence hm)
    | loud h =>
      obtain ⟨hsize, -, hcommence, -⟩ := h.roster hf
      rw [hsize]
      exact hf.commence (hcommence hm)
  · cases h with
    | mild h => exact Nat.lt_of_lt_of_le (hf.due i e he) h.level.1.size
    | turned h => exact hf.due i e he
    | loud h =>
      obtain ⟨hsize, -, -, hdue⟩ := h.roster hf
      rw [hsize]
      exact hdue i e he

theorem journal_deed (hf : Footing σ log) (h : Deed o σ τ) :
    ∃ news, τ.machine.journal = news ++ σ.machine.journal := by
  obtain ⟨news, hj, -⟩ := hf.custody.effects (P := fun _ _ => True) trivial
    (fun _ _ _ _ _ _ _ _ => trivial) h.effects
  exact ⟨news, hj⟩

/-! ## Steps and runs -/

/-- What every deed of a chain keeps, as long as there is footing, the chain keeps. -/
theorem deeds_carry {P : Stage → List Entry → Prop} (hf : Footing σ log) (hp : P σ log)
    (level : ∀ s t D d log es, Level s t → (∀ e ∈ es, e.isLow = true) → P ⟨s, D, d⟩ log →
      P ⟨t, D, d⟩ (es ++ log))
    (turn : ∀ s D D' d log, Turn s D D' → P ⟨s, D, d⟩ log → P ⟨s, D', d⟩ log)
    (loud : ∀ σ τ log news, Footing σ log → P σ log → Loud o σ τ →
      τ.machine.journal = news ++ σ.machine.journal → P τ (news ++ log))
    (h : Deeds o σ τ) : ∃ news, τ.machine.journal = news ++ σ.machine.journal ∧
      Footing τ (news ++ log) ∧ P τ (news ++ log) := by
  have keep : ∀ σ τ log news, Footing σ log → P σ log → Deed o σ τ →
      τ.machine.journal = news ++ σ.machine.journal → P τ (news ++ log) := by
    intro σ τ log news hf hp hd hj
    cases hd with
    | mild h =>
      obtain ⟨hl, es, he, hlow⟩ := h.level
      obtain rfl : es = news := List.append_cancel_right (he.symm.trans hj)
      exact level _ _ _ _ _ _ hl hlow hp
    | turned h =>
      obtain rfl : news = [] := List.append_cancel_right (hj.symm.trans (List.nil_append _).symm)
      exact turn _ _ _ _ _ h hp
    | loud h => exact loud _ _ _ _ hf hp h hj
  induction h with
  | refl => exact ⟨[], rfl, hf, hp⟩
  | @tail τ υ _ hd ih =>
    obtain ⟨news, hj, hf', hp'⟩ := ih
    obtain ⟨more, hj'⟩ := journal_deed hf' hd
    refine ⟨more ++ news, by rw [hj', hj, List.append_assoc], ?_, ?_⟩
    · rw [List.append_assoc]
      exact hf'.deed hd hj'
    · rw [List.append_assoc]
      exact keep τ υ _ more hf' hp' hd hj'

/-- What every deed of a step keeps, the step keeps. -/
theorem step_carries {P : Stage → List Entry → Prop} (hf : Footing s.stage log) (hp : P s.stage log)
    (level : ∀ s t D d log es, Level s t → (∀ e ∈ es, e.isLow = true) → P ⟨s, D, d⟩ log →
      P ⟨t, D, d⟩ (es ++ log))
    (turn : ∀ s D D' d log, Turn s D D' → P ⟨s, D, d⟩ log → P ⟨s, D', d⟩ log)
    (loud : ∀ σ τ log news, Footing σ log → P σ log → Loud s σ τ →
      τ.machine.journal = news ++ σ.machine.journal → P τ (news ++ log)) :
    Footing s.step.stage (s.news ++ log) ∧ P s.step.stage (s.news ++ log) := by
  obtain ⟨news, hj, hf', hp'⟩ := deeds_carry hf hp level turn loud (step_deeds s hf.tidy)
  rw [news_eq hj]
  exact ⟨hf', hp'⟩

/-- A move is a step, or a pause between two steps. -/
theorem pause_cases {G : Machine → Prop} {log' : List Entry} (h : Move G (s, log) (t, log')) :
    (G s ∧ t = s.step ∧ log' = s.news ++ log) ∨ (Pause s t ∧ log' = log) := by
  have level : ∀ {t : Machine}, t.loop.watches = s.loop.watches → t.loop.lastId = s.loop.lastId →
      t.handles = s.handles → t.names = s.names → t.tags = s.tags → t.config = s.config →
      t.raised = s.raised → Level s t := by
    intro t hw hi hh hn ht hc hr
    have hhandle : ∀ h, t.handle h = s.handle h := fun h => by rw [handle, handle, hh]
    refine ⟨look_of_watches hw, hi, fun h => by rw [hhandle], fun h => .inl (by rw [hhandle]),
      fun h => by rw [hhandle],
      Nat.le_of_eq (by rw [hh]), fun r hr => .inl ?_, ht, hc, fun id hid => ?_⟩
    · rwa [hn] at hr
    · rwa [hr] at hid
  cases h with
  | step hg => exact .inl ⟨hg, rfl, rfl⟩
  | elsewhere k => exact .inr ⟨⟨level rfl rfl rfl rfl rfl rfl rfl, rfl, .inl rfl⟩, rfl⟩
  | rejoin inner a hs =>
    refine .inr ⟨⟨level rfl rfl rfl rfl rfl rfl rfl, ?_, .inl ?_⟩, rfl⟩
    · rw [stage, stage, hs]
      rfl
    · rw [stage, stage, hs]
      rfl
  | start op hi =>
    obtain ⟨⟨v, hv⟩, hstack⟩ := control_of_isIdle hi
    refine .inr ⟨⟨level rfl rfl rfl rfl rfl rfl rfl, ?_, ?_⟩, rfl⟩
    · rw [stage, stage, hv]
      rfl
    · have hafter : (s.start op).stage.duties = [] := by
        show ([] : List Duty) ++ s.stack.flatMap Frame.duties = []
        rw [hstack]
        rfl
      have hbefore : s.stage.duties = (Control.value v).duties := by
        rw [stage, below, hv, hstack]
        exact List.append_nil _
      rw [hafter, hbefore]
      cases v with
      | again b => exact .inr ⟨b, rfl, rfl⟩
      | _ => exact .inl rfl
  | ending => exact .inr ⟨⟨level rfl rfl rfl rfl rfl rfl rfl, rfl, .inl rfl⟩, rfl⟩

theorem Pause.keeps {P : Stage → List Entry → Prop} (h : Pause s t)
    (level : ∀ s t D d log es, Level s t → (∀ e ∈ es, e.isLow = true) → P ⟨s, D, d⟩ log →
      P ⟨t, D, d⟩ (es ++ log))
    (turn : ∀ s D D' d log, Turn s D D' → P ⟨s, D, d⟩ log → P ⟨s, D', d⟩ log)
    (hp : P s.stage log) : P t.stage log := by
  have hlevel : P ⟨t, s.stage.duties, s.stage.due⟩ log :=
    level s t s.stage.duties s.stage.due log [] h.level (by simp) hp
  have hstage : t.stage = ⟨t, t.stage.duties, t.stage.due⟩ := rfl
  rw [hstage, h.due]
  rcases h.duties with hsame | ⟨b, hb, hnone⟩
  · rw [hsame]
    exact hlevel
  · rw [hb] at hlevel
    rw [hnone]
    exact turn _ _ _ _ _ (.muted b) hlevel

theorem footing_initial (h : Initial s) : Footing s.stage [] := by
  have hc := custody_initial h
  have hl := learned_initial h
  rw [← scene_stage] at hc hl
  cases h with
  | fresh config tick environ kernel logging =>
    exact ⟨hc, hl, fun r hr => absurd hr List.not_mem_nil, fun hm => absurd hm List.not_mem_nil,
      fun h e he => by cases he⟩
  | forRun outer spec =>
    exact ⟨hc, hl, fun r hr => absurd hr List.not_mem_nil, fun _ => Nat.one_pos, fun h e he => by cases he⟩

/-- What holds at first, and is kept by every deed, holds of every run. -/
theorem run_stages {G : Machine → Prop} {P : Stage → List Entry → Prop}
    (init : ∀ s, Initial s → P s.stage [])
    (level : ∀ s t D d log es, Level s t → (∀ e ∈ es, e.isLow = true) → P ⟨s, D, d⟩ log →
      P ⟨t, D, d⟩ (es ++ log))
    (turn : ∀ s D D' d log, Turn s D D' → P ⟨s, D, d⟩ log → P ⟨s, D', d⟩ log)
    (loud : ∀ o σ τ log news, Footing σ log → P σ log → Loud o σ τ →
      τ.machine.journal = news ++ σ.machine.journal → P τ (news ++ log))
    (h : Run G s log) : Footing s.stage log ∧ P s.stage log := by
  have hall : Run G s log ∧ Footing s.stage log ∧ P s.stage log := by
    refine Run.invariant (P := fun s log => Run G s log ∧ Footing s.stage log ∧ P s.stage log)
      (fun s hi => ⟨Run.init hi, footing_initial hi, init s hi⟩) (fun s log t log' hrp hm => ?_) h
    obtain ⟨hr, hf, hp⟩ := hrp
    have hr' := hr.move hm
    refine ⟨hr', ?_⟩
    rcases pause_cases hm with ⟨-, rfl, rfl⟩ | ⟨hpause, rfl⟩
    · exact step_carries hf hp level turn (loud s)
    · refine ⟨⟨?_, ?_, fun r hr => ?_, fun hc => ?_, fun h e he => ?_⟩, hpause.keeps level turn hp⟩
      · rw [scene_stage]
        exact custody_run hr'
      · rw [scene_stage]
        exact learned_run hr'
      · rcases hpause.level.names r hr with hr | hr
        · exact Nat.lt_of_lt_of_le (hf.names r hr) hpause.level.size
        · exact hr
      · refine Nat.lt_of_lt_of_le (hf.commence ?_) hpause.level.size
        rcases hpause.duties with hsame | ⟨b, -, hnone⟩
        · rwa [hsame] at hc
        · rw [hnone] at hc
          exact absurd hc List.not_mem_nil
      · rw [hpause.due] at he
        exact Nat.lt_of_lt_of_le (hf.due h e he) hpause.level.size
  exact hall.2

theorem footing_run {G : Machine → Prop} (h : Run G s log) : Footing s.stage log :=
  (run_stages (P := fun _ _ => True) (fun _ _ => trivial) (fun _ _ _ _ _ _ _ _ _ => trivial)
    (fun _ _ _ _ _ _ _ => trivial) (fun _ _ _ _ _ _ _ _ _ => trivial) h).1

end Machine

end Overseer
