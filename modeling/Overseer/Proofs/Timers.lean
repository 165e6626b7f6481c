import Overseer.Proofs.Limits
import Overseer.Proofs.SilentSteps
import Overseer.Proofs.Vacancy
import Overseer.Proofs.WatchSteps

/-!
# Timers are never early

A timer is due after its interval, from the time it was registered, and from then on from the time its callback has
returned.  A pass goes by the time at which it has begun to call, and that is never a time still to come, however deep
passes are nested and whatever they have done meanwhile.

    history id log  =  …, settled t₁, started t₂, …, added t₀          newest first
    next started t     only if  t₁ + interval ≤ t,  the first only if  t₀ + interval ≤ t

    Forward past s log         =  a run to s whose clock is never set back
    Arms m id interval         =  the step from m registers the timer id with this interval
    Unhurried id interval log  =  whenever the timer id was started, its interval had passed
    Rounds s ids now           =  a pass that goes by the time now has still to call ids

Main statement: `timers_never_early`.
-/

namespace Overseer

open Supervisor

namespace Supervisor

/-- The last thing told of the timer `id` is its registration, or that its callback has returned and wants to
be called again; and its interval has passed at the time `t`. -/
def Rested (id interval t : Nat) (hist : List Entry) : Prop :=
  (∃ t₀, hist = [.added t₀ id] ∧ t₀ + interval ≤ t) ∨
  ∃ t₁ t₂ payload older, hist = .settled t₁ id true :: .started t₂ id payload :: older ∧
  t₁ + interval ≤ t

def Unhurried (id interval : Nat) (log : List Entry) : Prop :=
  ∀ newer t payload older, history id log = newer ++ .started t id payload :: older → Rested id interval t older

theorem Rested.later {id interval t t' : Nat} {hist : List Entry} (h : Rested id interval t hist) (ht : t ≤ t') :
    Rested id interval t' hist := by
  rcases h with ⟨t₀, hh, hle⟩ | ⟨t₁, t₂, payload, older, hh, hle⟩
  · exact .inl ⟨t₀, hh, Nat.le_trans hle ht⟩
  · exact .inr ⟨t₁, t₂, payload, older, hh, Nat.le_trans hle ht⟩

theorem Unhurried.congr {id interval : Nat} {log log' : List Entry} (h : Unhurried id interval log)
    (hh : history id log' = history id log) : Unhurried id interval log' :=
  fun newer t payload older hs => h newer t payload older (hh ▸ hs)

theorem Unhurried.cons {id interval : Nat} {log log' : List Entry} {e : Entry} (h : Unhurried id interval log)
    (hh : history id log' = e :: history id log)
    (he : ∀ t payload, e = .started t id payload → Rested id interval t (history id log)) :
    Unhurried id interval log' := by
  intro newer t payload older hs
  rw [hh] at hs
  cases newer with
  | nil =>
    obtain ⟨he', rfl⟩ := List.cons.inj hs
    exact he t payload he'
  | cons x newer => exact h newer t payload older (List.cons.inj hs).2

end Supervisor

namespace Loop

variable {src src' : Source Callback} {n : Nat}

theorem timer_of_interval (h : src.interval? = some n) : ∃ deadline slot, src = .timer n deadline slot := by
  cases src with
  | timer interval deadline slot =>
    cases h
    exact ⟨deadline, slot, rfl⟩
  | _ => cases h

theorem Source.Revised.interval (h : src.Revised src') : src'.interval? = src.interval? := by
  cases h <;> rfl

/-- A pass leaves timers as they are. -/
theorem Source.Revised.eq_of_interval (h : src.Revised src') (hi : src.interval? = some n) : src' = src := by
  cases h with
  | same => rfl
  | io => cases hi
  | child => cases hi

end Loop

namespace Machine

/-- A run to `s` whose clock is never set back; `past` are the machines that it has stepped from, newest first. -/
inductive Forward : List Machine → Machine → List Entry → Prop
  | init {s : Machine} : Initial s → Forward [] s []
  | step {past : List Machine} {s : Machine} {log : List Entry} :
      Forward past s log → Forward (s :: past) s.step (s.news ++ log)
  | pause {past : List Machine} {s t : Machine} {log log' : List Entry} : Forward past s log →
      Move (fun _ => False) (s, log) (t, log') → s.kernel.now ≤ t.kernel.now → Forward past t log'

/-- The step from `m` registers the timer `id`, at the time that the journal tells. -/
structure Arms (m : Machine) (id interval : Nat) : Prop where
  fresh : m.loop.lastId < id
  told : ∃ time, m.kernel.now ≤ time ∧ history id m.news = [.added time id]
  watch : ∃ w ∈ m.step.loop.watches, w.id = id ∧ w.source.interval? = some interval

/-- Whoever asks for a timer in the step from `m` gets one with the interval that he asks for. -/
structure Provides (m : Machine) : Prop where
  user : ∀ interval priority x, m.control = .perform (.timer interval priority x) →
    Arms m (m.loop.lastId + 1) interval
  wait : ∀ h timeout, m.control = .wait h timeout → (m.handle h).state = .running →
    Arms m (m.loop.lastId + 1) timeout
  write : ∀ name data timeout, m.control = .perform (.writeTimeout name data timeout) →
    Arms m (m.loop.lastId + 1) timeout
  run : ∀ spec payload, m.control = .isolated spec → spec.payload = some payload →
    (m.spawn 0 spec.command spec.plan spec.execError).1 = .ok () → Arms m m.step.loop.lastId spec.timeout

/-- Each timer has been armed, and none is ever started before its interval has passed. -/
structure NeverEarly (past : List Machine) (s : Machine) (log : List Entry) : Prop where
  provides : ∀ m ∈ past, Provides m
  armed : ∀ w ∈ s.loop.watches, ∀ interval, w.source.interval? = some interval →
    ∃ m ∈ past, Arms m w.id interval
  unhurried : ∀ m ∈ past, ∀ id interval, Arms m id interval → Unhurried id interval log

/-- A pass that goes by the time `now` has still to call these watches. -/
def Rounds (s : Machine) (ids : List Nat) (now : Nat) : Prop :=
  (∃ ran, s.control = .dispatch ids now ran) ∨ .dispatch ids now ∈ s.stack

/-- The timer `id` is never started early, and it is not due before its interval has passed. -/
structure Paced (id interval : Nat) (s : Machine) (log : List Entry) : Prop where
  le : id ≤ s.loop.lastId
  unhurried : Unhurried id interval log
  pace : ∀ w ∈ s.loop.watches, w.id = id → w.source.interval? = some interval
  away : ∀ w ∈ s.loop.watches, w.id = id → w.source.outline.slot = none →
    ∃ t payload older, history id log = .started t id payload :: older
  ready : ∀ w ∈ s.loop.watches, w.id = id → w.source.outline.slot ≠ none → ∀ D, w.source.due? = some D →
    Rested id interval D (history id log)

variable {s t m : Machine} {past : List Machine} {log log' : List Entry} {id interval : Nat}

theorem Forward.trail (h : Forward past s log) : Trail past s log := by
  induction h with
  | init hi => exact .init hi
  | step _ ih => exact ih.step
  | pause _ hm _ ih => exact ih.pause hm

theorem Forward.run (h : Forward past s log) : Run (fun _ => True) s log := h.trail.run

/-! ## Passes go by past times -/

theorem Tacit.frame_of_rounds {K : List Frame} {ids : List Nat} {now : Nat} (ht : Tacit K s t)
    (h : t.Rounds ids now) :
    .dispatch ids now ∈ K := by
  obtain ⟨ran, hd⟩ | hm := h
  · have hquiet := ht.control
    rw [hd] at hquiet
    cases hquiet
  · have hloud : Frame.dispatch ids now ∈ t.stack.filter Frame.isLoud := List.mem_filter.2 ⟨hm, rfl⟩
    rw [ht.stack] at hloud
    exact (List.mem_filter.1 hloud).1

theorem rounds_of_dispatch {ids ids' : List Nat} {now now' : Nat} {ran : Bool}
    (h : (s.dispatch ids' now' ran).Rounds ids now) : now' = now ∨ .dispatch ids now ∈ s.stack := by
  unfold dispatch at h
  split at h
  · rcases h with ⟨ran', hd⟩ | hm
    · cases hd
    · exact .inr hm
  · next id rest =>
    split at h
    · rcases h with ⟨ran', hd⟩ | hm
      · cases hd
        exact .inl rfl
      · exact .inr hm
    · rcases h with ⟨ran', hd⟩ | hm
      · cases hd
      · dsimp only at hm
        split at hm
        · rcases List.mem_cons.1 hm with he | hm
          · cases he
            exact .inl rfl
          · exact .inr hm
        · rcases List.mem_cons.1 (List.mem_of_ne_of_mem (by simp) hm) with he | hm
          · cases he
            exact .inl rfl
          · exact .inr hm

/-- A pass has taken the time of its step, or it was under way before. -/
theorem rounds_of_step {ids : List Nat} {now : Nat} (h : s.step.Rounds ids now) :
    (∃ b, s.control = .pass b ∧ now = s.step.kernel.now) ∨ ∃ ids', s.Rounds ids' now := by
  have apart : ∀ {t}, s.step = t → (∀ ran, t.control ≠ .dispatch ids now ran) →
      (.dispatch ids now ∈ t.stack → .dispatch ids now ∈ s.stack) →
      (∃ b, s.control = .pass b ∧ now = s.step.kernel.now) ∨ ∃ ids', s.Rounds ids' now := fun ht hc hst => by
    rw [ht] at h
    obtain ⟨ran, hd⟩ | hm := h
    · exact absurd hd (hc ran)
    · exact .inr ⟨ids, .inr (hst hm)⟩
  rcases speaks_or_tacit s with hs | ⟨K, ht, hK⟩
  · cases hs with
    | pass b hc =>
      obtain ⟨ran, hd⟩ | hm := h
      · exact .inl ⟨b, hc, (found_of_pass hc hd).2.1⟩
      · rw [step, hc, stack_pass] at hm
        exact .inr ⟨ids, .inr hm⟩
    | dispatch ids₀ now₀ ran hc =>
      rw [step, hc] at h
      rcases rounds_of_dispatch h with rfl | hm
      · exact .inr ⟨ids₀, .inl ⟨ran, hc⟩⟩
      · exact .inr ⟨ids, .inr hm⟩
    | called v ids₀ now₀ K hc hst =>
      rw [step_value hc hst] at h
      refine .inr ?_
      obtain ⟨ran, hd⟩ | hm := h
      · cases hd
        exact ⟨ids, .inr (by simp [hst])⟩
      · exact ⟨ids, .inr (by rw [hst]; exact List.mem_cons_of_mem _ hm)⟩
    | emit i e hc =>
      refine apart (t := s.emit i e) (by rw [step, hc]) (fun ran => ?_) ?_ <;>
        (unfold emit; dsimp only; split <;> simp)
    | deliver i hc =>
      refine apart (t := s.deliver i) (by rw [step, hc]) (fun ran => ?_) ?_ <;>
        (unfold deliver; dsimp only; split <;> (try split) <;> simp)
    | tell i e done rest hc =>
      have hstep : s.step = s.tell i e done rest := by rw [step, hc]
      cases rest with
      | nil => exact apart hstep (fun ran hd => by cases hd) fun hm => hm
      | cons x rest =>
        cases x with
        | collector => exact apart hstep (fun ran hd => by cases hd) fun hm => hm
        | script x =>
          rw [hstep, tell] at h
          exact .inr ⟨ids, .inr (by simpa using (callScript_tacit _ x).frame_of_rounds h)⟩
    | heard i e done rest b K hc hst =>
      exact apart (step_value hc hst) (fun ran hd => by cases hd) fun hm => by
        rw [hst]; exact List.mem_cons_of_mem _ hm
    | subscribe name x hc => exact apart (by rw [step, hc]) (fun ran hd => by cases hd) (by simp [perform, reply])
    | drain name hc => exact apart (by rw [step, hc]) (fun ran hd => by cases hd) (by simp [perform, reply])
  · have hm := ht.frame_of_rounds h
    rcases hK with rfl | ⟨v, f, -, hst, -⟩
    · exact .inr ⟨ids, .inr hm⟩
    · exact .inr ⟨ids, .inr (by rw [hst]; exact List.mem_cons_of_mem _ hm)⟩

/-- No pass goes by a time that is still to come. -/
theorem le_now_of_rounds (h : Forward past s log) {ids : List Nat} {now : Nat} (hr : s.Rounds ids now) :
    now ≤ s.kernel.now := by
  induction h generalizing ids with
  | init hi => cases hi <;> obtain ⟨ran, hc⟩ | hm := hr <;> first | cases hc | cases hm
  | @step past s log h ih =>
    obtain ⟨b, -, rfl⟩ | ⟨ids', hr'⟩ := rounds_of_step hr
    · exact Nat.le_refl _
    · exact Nat.le_trans (ih hr') (now_le_step s)
  | @pause past s t log log' h hm hle ih =>
    have hr' : s.Rounds ids now := by
      cases hm with
      | step hf => exact hf.elim
      | elsewhere k => exact hr
      | rejoin inner a hs => exact .inr (hr.resolve_left (not_exists.2 fun ran hc => by cases hc))
      | start op hi => exact .inr (hr.resolve_left (not_exists.2 fun ran hc => by cases hc))
      | ending hi => exact hr
    exact Nat.le_trans (ih hr') hle

/-! ## What is told of a watch -/

theorem lastId_le_step (s : Machine) : s.loop.lastId ≤ s.step.loop.lastId :=
  step_keeps (P := fun t => s.loop.lastId ≤ t.loop.lastId) (Nat.le_refl _) fun _ _ he h => Nat.le_trans h he.lastId_le

/-- Of a watch that is not registered yet a step tells nothing. -/
theorem news_above (h : Run (fun _ => True) s log) (hid : s.step.loop.lastId < id) : history id s.news = [] := by
  have htidy := (final_run h).tidy
  have hlt : s.loop.lastId < id := Nat.lt_of_le_of_lt (lastId_le_step s) hid
  have told : Fate s id → history id s.news = [] := by
    intro hf
    cases hf with
    | still hnews => exact hnews
    | revised b hc hnews => exact hnews
    | started payload hs =>
      obtain ⟨w, hw, hwid, -⟩ := slot_of_starts hs
      have := htidy.le w.id (List.mem_map_of_mem hw)
      omega
    | settled cb again hb =>
      have := le_of_settle h hb.mem
      omega
  rcases idles_or s with hi | ⟨b, hc⟩ | ⟨ids, now, ran, hc⟩ | ⟨i, cb, again, hb⟩
  · exact (added_step hi).above id hid
  · exact history_pass hc id
  · exact told (fate_dispatch htidy hc id)
  · exact told (fate_takesBack hb id)

theorem history_above (h : Forward past s log) (hid : s.loop.lastId < id) : history id log = [] := by
  induction h with
  | init => rfl
  | @step past s log h ih =>
    rw [history_append, news_above h.run hid, ih (Nat.lt_of_le_of_lt (lastId_le_step s) hid)]
    rfl
  | pause h hm _ ih =>
    obtain ⟨hf, -⟩ | ⟨hb, rfl⟩ := move_cases hm
    · exact hf.elim
    · exact ih (hb.lastId ▸ hid)

/-- A watch that is taken is ready. -/
theorem ready_of_starts (hs : s.Starts id) : ∃ ids now, s.Rounds ids now ∧
    ∃ w ∈ s.loop.watches, w.id = id ∧ w.source.isReady now = true := by
  obtain ⟨rest, now, ran, job, l, hc, htake⟩ := hs
  refine ⟨_, now, .inl ⟨ran, hc⟩, ?_⟩
  unfold Loop.take at htake
  split at htake
  · cases htake
  · next w hw =>
    split at htake
    · next hready => exact ⟨w, (Loop.find?_spec hw).1, (Loop.find?_spec hw).2, hready⟩
    · cases htake

/-! ## One timer -/

theorem paced_of_arms (h : Forward past m log) (ha : Arms m id interval) :
    Paced id interval m.step (m.news ++ log) := by
  have htidy := (final_run h.run).tidy
  have htidy' := (final_run h.step.run).tidy
  obtain ⟨w, hw, rfl, hpace⟩ := ha.watch
  obtain ⟨-, hslot, time, hnews, -, hborn⟩ := newborn htidy hw ha.fresh
  have hlog : history w.id (m.news ++ log) = [.added time w.id] := by
    rw [history_append, hnews, history_above h ha.fresh]
    rfl
  have only : ∀ v ∈ m.step.loop.watches, v.id = w.id → v = w := fun v hv => Loop.eq_of_id_eq htidy' hv hw
  constructor
  case le => exact htidy'.le w.id (List.mem_map_of_mem hw)
  case unhurried =>
    intro newer t payload older hs
    rw [hlog] at hs
    cases newer with
    | nil => cases hs
    | cons e newer => simpa using (List.cons.inj hs).2
  case pace => exact fun v hv hid => only v hv hid ▸ hpace
  case away => exact fun v hv hid hnone => absurd (only v hv hid ▸ hnone) hslot
  case ready =>
    intro v hv hid _ D hD
    obtain rfl := only v hv hid
    obtain ⟨deadline, slot, hsrc⟩ := Loop.timer_of_interval hpace
    rw [hsrc] at hborn hD
    cases hD
    exact .inl ⟨time, hlog, Nat.le_of_eq hborn.symm⟩

/-- Nothing is told of the timer, and it is as it was. -/
theorem Paced.kept (hp : Paced id interval s log) (hle : id ≤ t.loop.lastId) (hlog : history id log' = history id log)
    (hw : ∀ w' ∈ t.loop.watches, w'.id = id → ∃ w ∈ s.loop.watches, w.id = id ∧ w'.source = w.source) :
    Paced id interval t log' := by
  refine ⟨hle, hp.unhurried.congr hlog, fun w' hm hid => ?_, fun w' hm hid => ?_, fun w' hm hid => ?_⟩ <;>
    obtain ⟨w, hm', hid', hsrc⟩ := hw w' hm hid
  · rw [hsrc]
    exact hp.pace w hm' hid'
  · rw [hsrc, hlog]
    exact hp.away w hm' hid'
  · rw [hsrc, hlog]
    exact hp.ready w hm' hid'

theorem paced_step (h : Forward past s log) (hp : Paced id interval s log) :
    Paced id interval s.step (s.news ++ log) := by
  have htidy := (final_run h.run).tidy
  have hle : id ≤ s.step.loop.lastId := Nat.le_trans hp.le (lastId_le_step s)
  cases fate htidy hp.le with
  | still hnews hw =>
    exact hp.kept hle (by rw [history_append, hnews, List.nil_append]) fun w hm hid => ⟨w, hw w hm hid, hid, rfl⟩
  | revised b hc hnews hw =>
    refine hp.kept hle (by rw [history_append, hnews, List.nil_append]) fun w' hm hid => ?_
    obtain ⟨w, hm', hid', hr⟩ := hw w' hm hid
    exact ⟨w, hm', hid', hr.eq_of_interval (hp.pace w hm' hid')⟩
  | started payload hs hnews hw =>
    have hlog : history id (s.news ++ log) = .started s.kernel.now id payload :: history id log := by
      rw [history_append, hnews]
      rfl
    -- the pass goes by a time that is over, and the timer is due by then
    have hrested : Rested id interval s.kernel.now (history id log) := by
      obtain ⟨ids, now, hr, w, hm, hid, hready⟩ := ready_of_starts hs
      obtain ⟨deadline, slot, hsrc⟩ := Loop.timer_of_interval (hp.pace w hm hid)
      rw [hsrc] at hready
      cases slot with
      | none => cases hready
      | some cb =>
        have hdue : deadline ≤ now := by simpa [Loop.Source.isReady] using hready
        have hrest := hp.ready w hm hid (fun hnone => by rw [hsrc] at hnone; cases hnone) deadline
          (by rw [hsrc]; rfl)
        exact hrest.later (Nat.le_trans hdue (le_now_of_rounds h hr))
    refine ⟨hle, hp.unhurried.cons hlog fun t payload he => ?_, fun w' hm hid => ?_, fun w' hm hid _ => ?_,
      fun w' hm hid hslot => ?_⟩
    · cases he
      exact hrested
    · obtain ⟨w, hm', hid', hsrc⟩ := hw w' hm hid
      obtain ⟨deadline, slot, hsrc'⟩ := Loop.timer_of_interval (hp.pace w hm' hid')
      rw [hsrc, hsrc']
      rfl
    · exact ⟨_, _, _, hlog⟩
    · obtain ⟨w, hm', hid', hsrc⟩ := hw w' hm hid
      obtain ⟨deadline, slot, hsrc'⟩ := Loop.timer_of_interval (hp.pace w hm' hid')
      rw [hsrc, hsrc'] at hslot
      exact absurd rfl hslot
  | settled cb again hb hnews hw =>
    have hlog : history id (s.news ++ log) = .settled s.kernel.now id again :: history id log := by
      rw [history_append, hnews]
      rfl
    refine ⟨hle, hp.unhurried.cons hlog fun t payload he => (by cases he), fun w' hm hid => ?_,
      fun w' hm hid hslot => ?_,
      fun w' hm hid _ D hD => ?_⟩ <;>
      obtain ⟨rfl, w, hm', hid', hsrc⟩ := hw w' hm hid <;>
      obtain ⟨deadline, slot, hsrc'⟩ := Loop.timer_of_interval (hp.pace w hm' hid') <;>
      rw [hsrc'] at hsrc
    · rw [hsrc]
      rfl
    · rw [hsrc] at hslot
      cases hslot
    · rw [hsrc] at hD
      cases hD
      have hnone : w.source.outline.slot = none := (empty_iff h.run hm').2 (hid' ▸ ⟨cb, hb.mem⟩)
      obtain ⟨t, payload, older, hstarted⟩ := hp.away w hm' hid' hnone
      exact .inr ⟨_, t, payload, older, by rw [hlog, hstarted], Nat.le_refl _⟩

theorem paced_of_mem (h : Forward past s log) (hm : m ∈ past) (ha : Arms m id interval) :
    Paced id interval s log := by
  induction h with
  | init => cases hm
  | @step past s log h ih =>
    rcases List.mem_cons.1 hm with rfl | hm
    · exact paced_of_arms h ha
    · exact paced_step h (ih hm)
  | pause h hmove _ ih =>
    obtain ⟨hf, -⟩ | ⟨hb, rfl⟩ := move_cases hmove
    · exact hf.elim
    · exact (ih hm).kept (hb.lastId ▸ (ih hm).le) rfl fun w hw hid => ⟨w, hb.watches ▸ hw, hid, rfl⟩

/-! ## Who arms a timer -/

theorem arms_of_fresh {w : Loop.Watch Callback} (ht : m.loop.Tidy) (hw : w ∈ m.step.loop.watches)
    (hid : m.loop.lastId < w.id) (hpace : w.source.interval? = some interval) : Arms m w.id interval := by
  obtain ⟨-, -, time, hnews, hle, -⟩ := newborn ht hw hid
  exact ⟨hid, ⟨time, hle, hnews⟩, w, hw, rfl, hpace⟩

theorem Edits.lastId_le {o u v : Machine} (h : Edits o u v) : u.loop.lastId ≤ v.loop.lastId := by
  induction h with
  | refl => exact Nat.le_refl _
  | tail _ he ih => exact Nat.le_trans ih he.lastId_le

theorem arms_of_addTimer {u : Machine} {priority : Loop.Priority} {cb : Callback} (ht : m.loop.Tidy)
    (hle : m.loop.lastId ≤ u.loop.lastId) (hstep : m.step.loop = (u.addTimer interval priority cb).2.loop) :
    Arms m (u.loop.lastId + 1) interval := by
  have hw : ⟨u.loop.lastId + 1, priority, .timer interval (u.kernel.now + interval) (some cb)⟩ ∈
    m.step.loop.watches := by
    rw [hstep]
    exact List.mem_append_right _ List.mem_cons_self
  exact arms_of_fresh ht hw (Nat.lt_succ_of_le hle) rfl

theorem provides_of_tidy (ht : m.loop.Tidy) : Provides m := by
  constructor
  case user =>
    intro interval priority x hc
    have hstep : m.step.loop = (m.addTimer interval priority (.script x)).2.loop := by
      rw [step, hc]
      rfl
    exact arms_of_addTimer ht (Nat.le_refl _) hstep
  case wait =>
    intro h timeout hc hrunning
    have hstep : m.step.loop = (m.addTimer timeout Loop.Priority.normal .raise).2.loop := by
      rw [step, hc]
      unfold wait
      dsimp only
      rw [hrunning]
      rfl
    exact arms_of_addTimer ht (Nat.le_refl _) hstep
  case write =>
    intro name data timeout hc
    have hloop := loop_resolve m name
    have hstep : m.step.loop = ((m.resolve name).2.addTimer timeout Loop.Priority.normal .raise).2.loop := by
      rw [step, hc]
      rfl
    have harms := arms_of_addTimer ht (Nat.le_of_eq (congrArg Loop.lastId hloop.symm)) hstep
    rwa [hloop] at harms
  case run =>
    intro spec payload hc hpayload hok
    have hedits : Edits m m (m.spawn 0 spec.command spec.plan spec.execError).2.2 :=
      .spawn .refl 0 spec.command spec.plan spec.execError
    have hstep : m.step.loop = ((m.spawn 0 spec.command spec.plan spec.execError).2.2.addTimer
        spec.timeout Loop.Priority.normal .raise).2.loop := by
      rw [step, hc]
      unfold startRun
      dsimp only
      rw [hok, hpayload]
      rfl
    have harms := arms_of_addTimer ht hedits.lastId_le hstep
    have hlast : m.step.loop.lastId = (m.spawn 0 spec.command spec.plan spec.execError).2.2.loop.lastId + 1 := by
      rw [hstep]
      rfl
    rwa [hlast]

/-- A step leaves the interval of a watch as it is. -/
theorem interval_of_fate {w' : Loop.Watch Callback} (hf : Fate s id) (hw : w' ∈ s.step.loop.watches)
    (hid : w'.id = id) :
    ∃ w ∈ s.loop.watches, w.id = id ∧ w.source.interval? = w'.source.interval? := by
  cases hf with
  | still _ hall => exact ⟨w', hall w' hw hid, hid, rfl⟩
  | revised _ _ _ hall =>
    obtain ⟨w, hm, hid', hr⟩ := hall w' hw hid
    exact ⟨w, hm, hid', hr.interval.symm⟩
  | started _ _ _ hall =>
    obtain ⟨w, hm, hid', hsrc⟩ := hall w' hw hid
    exact ⟨w, hm, hid', by rw [hsrc]; cases w.source <;> rfl⟩
  | settled _ _ _ _ hall =>
    obtain ⟨-, w, hm, hid', hsrc⟩ := hall w' hw hid
    exact ⟨w, hm, hid', by rw [hsrc]; cases w.source <;> rfl⟩

theorem exists_arms (h : Forward past s log) {w : Loop.Watch Callback} (hw : w ∈ s.loop.watches)
    (hpace : w.source.interval? = some interval) : ∃ m ∈ past, Arms m w.id interval := by
  induction h generalizing w with
  | init hi => cases hi <;> cases hw
  | @step past s log h ih =>
    have htidy := (final_run h.run).tidy
    by_cases hid : w.id ≤ s.loop.lastId
    · obtain ⟨v, hv, hvid, hsame⟩ := interval_of_fate (fate htidy hid) hw rfl
      obtain ⟨m, hm, ha⟩ := ih hv (hsame.trans hpace)
      exact ⟨m, List.mem_cons_of_mem _ hm, hvid ▸ ha⟩
    · exact ⟨s, List.mem_cons_self, arms_of_fresh htidy hw (Nat.lt_of_not_le hid) hpace⟩
  | pause h hmove _ ih =>
    obtain ⟨hf, -⟩ | ⟨hb, -⟩ := move_cases hmove
    · exact hf.elim
    · exact ih (hb.watches ▸ hw) hpace

theorem tidy_of_mem (h : Forward past s log) (hm : m ∈ past) : m.loop.Tidy := by
  induction h with
  | init => cases hm
  | step h ih =>
    rcases List.mem_cons.1 hm with rfl | hm
    · exact (final_run h.run).tidy
    · exact ih hm
  | pause h _ _ ih => exact ih hm

/-- While the clock is never set back: whatever callbacks and nested passes do meanwhile, a timer is first
called when its interval has passed since it was registered, and then only when it has passed since its
callback returned to be called again. -/
theorem timers_never_early (h : Forward past s log) : NeverEarly past s log :=
  ⟨fun _ hm => provides_of_tidy (tidy_of_mem h hm), fun _ hw _ hpace => exists_arms h hw hpace,
    fun _ hm _ _ ha => (paced_of_mem h hm ha).unhurried⟩

theorem Forward.tramp (n : Nat) {x : List Machine × Machine × List Entry} (h : Forward x.1 x.2.1 x.2.2) :
    Forward (tramp n x).1 (tramp n x).2.1 (tramp n x).2.2 := by
  induction n generalizing x with
  | zero => exact h
  | succ n ih => exact ih h.step

theorem Forward.hike {x : List Machine × Machine × List Entry} (h : Forward x.1 x.2.1 x.2.2)
    (hi : x.2.1.isIdle = true)
    (op : Op) (n : Nat) : Forward (hike x op n).1 (hike x op n).2.1 (hike x op n).2.2 :=
  Forward.tramp n (x := (x.1, x.2.1.start op, x.2.2)) (h.pause (.start op hi) (Nat.le_refl _))

/-- Two timers are due in one pass, and the callback of the first lets the loop make another, which calls the
second.  Both are due again later. -/
def paced : List Machine × Machine × List Entry :=
  hike (hike (hike (hike ([], .fresh .standard 10000000 [] (.fresh true), [])
    (.timer 2000000 0 (.mk "a" [true, true] [[.advance 500000, .iterate true]])) 1)
    (.timer 2000000 0 (.mk "b" [true, true] [])) 1) (.iterate true) 20) (.iterate true) 15

theorem never_early_of_paced : Forward paced.1 paced.2.1 paced.2.2 ∧ NeverEarly paced.1 paced.2.1 paced.2.2 ∧
    (∃ m ∈ paced.1, Arms m 2 2000000) ∧ history 2 paced.2.2 =
      [.settled 4500000 2 true, .started 4500000 2 .none, .settled 2500000 2 true, .started 2500000 2 .none,
        .added 0 2] := by
  have hfirst : Forward _ _ _ := Forward.hike (x := ([], .fresh .standard 10000000 [] (.fresh true), []))
    (.init (.fresh .standard 10000000 [] (.fresh true) true)) rfl
    (.timer 2000000 0 (.mk "a" [true, true] [[.advance 500000, .iterate true]])) 1
  have hboth : Forward paced.1 paced.2.1 paced.2.2 :=
    ((hfirst.hike rfl (.timer 2000000 0 (.mk "b" [true, true] [])) 1).hike rfl (.iterate true) 20).hike (by decide)
      (.iterate true) 15
  have hnever := timers_never_early hboth
  exact ⟨hboth, hnever, hnever.armed _ (List.mem_of_getElem? (i := 1) rfl) 2000000 rfl, rfl⟩

end Machine

end Overseer
