import Overseer.Proofs.Origins
import Overseer.Proofs.Removal

/-!
# What a step does to one watch

Passes, calls and returns change the sources of watches; every other step leaves those that it does not remove as they
are.  The journal tells of a watch that it is registered, that its callback is started, and that this has returned.

    history id log  =  the entries about the watch id, newest first

    still     nothing is told of the watch, and if it is there it is as before
    revised   a pass has looked after it
    started   its callback is taken, and readiness with it
    settled   its callback is back, or it is forgotten

Main statements: `fate`, `newborn`.
-/

namespace Overseer

open Supervisor

namespace Supervisor

/-- The watch is registered, its callback is started, or this has returned. -/
def Entry.isAbout (id : Nat) : Entry → Bool
  | added _ i => i == id
  | started _ i _ => i == id
  | settled _ i _ => i == id
  | _ => false

def history (id : Nat) (log : List Entry) : List Entry := log.filter (Entry.isAbout id)

theorem history_append (id : Nat) (es log : List Entry) : history id (es ++ log) = history id es ++ history id log :=
  List.filter_append _ _

theorem history_eq_nil {id : Nat} {es : List Entry} : history id es = [] ↔ ∀ e ∈ es, e.isAbout id = false := by
  simp [history, List.filter_eq_nil_iff]

theorem history_of_foreign {es : List Entry} (h : ∀ e ∈ es, e.isForeign = true) (id : Nat) :
    history id es = [] := by
  refine history_eq_nil.2 fun e he => ?_
  have hforeign := h e he
  cases e <;> first | rfl | cases hforeign

end Supervisor

namespace Loop

variable {κ : Type} {l l' : Loop κ} {w w' : Watch κ} {id now : Nat}

/-- The callback is taken out, and what was reported with it. -/
def Source.vacated : Source κ → Source κ
  | .io fd interest _ _ => .io fd interest .empty none
  | .timer interval deadline _ => .timer interval deadline none
  | .idle _ => .idle none
  | src => src

/-- The callback is put back, a timer's for one more interval. -/
def Source.rearmed (now : Nat) (cb : κ) : Source κ → Source κ
  | .io fd interest fired _ => .io fd interest fired (some cb)
  | .timer interval _ _ => .timer interval (now + interval) (some cb)
  | .idle _ => .idle (some cb)
  | src => src

/-- What a pass may make of a source before it calls anything. -/
inductive Source.Revised : Source κ → Source κ → Prop
  | same (src : Source κ) : Revised src src
  | io (fd : Kernel.Fd) (interest fired fired' : Condition) (slot : Option κ) :
      Revised (.io fd interest fired slot) (.io fd interest fired' slot)
  | child (pid : Int) (hasFd hasFd' : Bool) (status status' : Option ExitStatus) (cb : κ) :
      Revised (.child pid hasFd status cb) (.child pid hasFd' status' cb)

theorem Source.Revised.trans {a b c : Source κ} (h : a.Revised b) (h' : b.Revised c) : a.Revised c := by
  cases h with
  | same => exact h'
  | io fd interest fired fired' slot =>
    cases h' with
    | same => exact .io ..
    | io => exact .io ..
  | child pid hasFd hasFd' status status' cb =>
    cases h' with
    | same => exact .child ..
    | child => exact .child ..

theorem mem_modify_cases {f : Source κ → Source κ} (h : w' ∈ (l.modify id f).watches) :
    (w' ∈ l.watches ∧ w'.id ≠ id) ∨
    ∃ w ∈ l.watches, w.id = id ∧ w' = { w with source := f w.source } := by
  obtain ⟨w, hw, rfl⟩ := List.mem_map.1 h
  by_cases hid : w.id = id
  · exact .inr ⟨w, hw, hid, by simp [hid]⟩
  · exact .inl (by simp [hid, hw])

theorem mem_take_cases {job : Job Callback} {l l' : Loop Callback} {w' : Watch Callback} (ht : l.Tidy)
    (h : l.take id now = some (job, l')) (hw : w' ∈ l'.watches) : (w' ∈ l.watches ∧ w'.id ≠ id) ∨
      ∃ w ∈ l.watches, w.id = id ∧ w'.id = id ∧ w'.source = w.source.vacated := by
  unfold take at h
  split at h
  · cases h
  · next v hv =>
    obtain ⟨hmem, hvid⟩ := find?_spec hv
    have vacated : ∀ {src}, v.source.vacated = src → w' ∈ (l.modify id fun _ => src).watches →
        (w' ∈ l.watches ∧ w'.id ≠ id) ∨ ∃ w ∈ l.watches, w.id = id ∧ w'.id = id ∧
        w'.source = w.source.vacated := by
      rintro src rfl hm
      refine (mem_modify_cases hm).imp_right ?_
      rintro ⟨w, hmem', rfl, rfl⟩
      exact ⟨w, hmem', rfl, rfl, by rw [eq_of_id_eq ht hmem hmem' hvid]⟩
    split at h
    · split at h
      · next hs => cases h; exact vacated (by rw [hs]; rfl) hw
      · next hs => cases h; exact .inl ⟨(mem_erase.1 hw).1, (mem_erase.1 hw).2⟩
      · next hs => cases h; exact vacated (by rw [hs]; rfl) hw
      · next hs => cases h; exact vacated (by rw [hs]; rfl) hw
      · cases h
    · cases h

theorem mem_restore_cases {cb : κ} (h : w' ∈ (l.restore id now cb).watches) : (w' ∈ l.watches ∧ w'.id ≠ id) ∨
    ∃ w ∈ l.watches, w.id = id ∧ w'.id = id ∧ w'.source = w.source.rearmed now cb := by
  refine (mem_modify_cases h).imp_right ?_
  rintro ⟨w, hw, hid, rfl⟩
  refine ⟨w, hw, hid, hid, ?_⟩
  cases w.source <;> rfl

theorem revised_collectIn {ws : List (Watch κ)} {k : Kernel} (h : w' ∈ (collectIn ws k).1) :
    ∃ w ∈ ws, w'.id = w.id ∧ w.source.Revised w'.source := by
  induction ws generalizing k with
  | nil => cases h
  | cons v ws ih =>
    have later : ∀ {k}, w' ∈ (collectIn ws k).1 →
      ∃ w ∈ v :: ws, w'.id = w.id ∧ w.source.Revised w'.source := fun hm => by
      obtain ⟨w, hw, hr⟩ := ih hm
      exact ⟨w, List.mem_cons_of_mem _ hw, hr⟩
    unfold collectIn at h
    split at h
    · next pid hasFd cb hs =>
      rcases List.mem_cons.1 h with rfl | hm
      · refine ⟨v, List.mem_cons_self, rfl, ?_⟩
        rw [hs]
        dsimp only
        split <;> exact .child ..
      · exact later hm
    · rcases List.mem_cons.1 h with rfl | hm
      · exact ⟨w', List.mem_cons_self, rfl, .same _⟩
      · exact later hm

theorem revised_forgetFired (h : w' ∈ l.forgetFired.watches) :
    ∃ w ∈ l.watches, w'.id = w.id ∧ w.source.Revised w'.source := by
  obtain ⟨w, hw, rfl⟩ := List.mem_map.1 h
  refine ⟨w, hw, ?_⟩
  split
  · next hs => exact ⟨rfl, by rw [hs]; exact .io ..⟩
  · exact ⟨rfl, .same _⟩

theorem revised_recordOne {revents : UInt16} (h : w' ∈ (l.recordOne id revents).watches) :
    ∃ w ∈ l.watches, w'.id = w.id ∧ w.source.Revised w'.source := by
  unfold recordOne at h
  split at h
  · exact ⟨w', h, rfl, .same _⟩
  · rcases mem_modify_cases h with ⟨hw, -⟩ | ⟨w, hw, -, rfl⟩
    · exact ⟨w', hw, rfl, .same _⟩
    · refine ⟨w, hw, rfl, ?_⟩
      cases w.source with
      | io fd interest fired slot => exact .io ..
      | _ => exact .same _

theorem revised_record {rs : List (Nat × UInt16)} (h : w' ∈ (l.record rs).watches) :
    ∃ w ∈ l.watches, w'.id = w.id ∧ w.source.Revised w'.source := by
  unfold record at h
  induction rs generalizing l with
  | nil => exact ⟨w', h, rfl, .same _⟩
  | cons r rs ih =>
    obtain ⟨v, hv, hid, hr⟩ := ih h
    obtain ⟨w, hw, hid', hr'⟩ := revised_recordOne hv
    exact ⟨w, hw, hid.trans hid', hr'.trans hr⟩

end Loop

namespace Machine

/-- What a step makes of the watch `id`, if that has been registered before. -/
inductive Fate (s : Machine) (id : Nat) : Prop
  | still (hnews : history id s.news = [])
      (hw : ∀ w' ∈ s.step.loop.watches, w'.id = id → w' ∈ s.loop.watches)
  | revised (b : Bool) (hc : s.control = .pass b) (hnews : history id s.news = [])
      (hw : ∀ w' ∈ s.step.loop.watches, w'.id = id →
        ∃ w ∈ s.loop.watches, w.id = id ∧ w.source.Revised w'.source)
  | started (payload : Loop.Payload) (hs : s.Starts id)
    (hnews : history id s.news = [.started s.kernel.now id payload])
      (hw : ∀ w' ∈ s.step.loop.watches, w'.id = id →
        ∃ w ∈ s.loop.watches, w.id = id ∧ w'.source = w.source.vacated)
  | settled (cb : Callback) (again : Bool) (hb : s.TakesBack id cb again)
      (hnews : history id s.news = [.settled s.kernel.now id again])
      (hw : ∀ w' ∈ s.step.loop.watches, w'.id = id → again = true ∧
        ∃ w ∈ s.loop.watches, w.id = id ∧ w'.source = w.source.rearmed s.kernel.now cb)

/-- A step that is none of a pass, and takes no callback back. -/
structure Idles (s : Machine) : Prop where
  pass : ∀ b, s.control ≠ .pass b
  dispatch : ∀ ids now ran, s.control ≠ .dispatch ids now ran
  back : ∀ id cb again, ¬ s.TakesBack id cb again

/-- Up to `u` such a step has only added watches, and removed some. -/
structure Added (s u : Machine) (es : List Entry) : Prop where
  journal : u.journal = es ++ s.journal
  now : s.kernel.now ≤ u.kernel.now
  lastId : s.loop.lastId ≤ u.loop.lastId
  above : ∀ id, u.loop.lastId < id → history id es = []
  below : ∀ id, id ≤ s.loop.lastId → history id es = []
  watches : ∀ w ∈ u.loop.watches, w ∈ s.loop.watches ∨ (s.loop.lastId < w.id ∧ w.id ≤ u.loop.lastId ∧
    w.source.outline.slot ≠ none ∧
    ∃ time, history w.id es = [.added time w.id] ∧ s.kernel.now ≤ time ∧ w.source.Newborn time)

variable {s u v : Machine} {id : Nat} {es : List Entry} {w w' : Loop.Watch Callback}

/-! ## Steps that add and remove -/

theorem added_self (s : Machine) : Added s s [] :=
  ⟨rfl, Nat.le_refl _, Nat.le_refl _, fun _ _ => rfl, fun _ _ => rfl, fun _ hw => .inl hw⟩

/-- Nothing is added, and what is told is not about a watch. -/
theorem Added.quiet (h : Added s u es) (more : List Entry) (hj : v.journal = more ++ u.journal)
    (hmore : ∀ id, history id more = []) (hnow : u.kernel.now ≤ v.kernel.now)
    (hlast : v.loop.lastId = u.loop.lastId)
    (hw : ∀ w ∈ v.loop.watches, w ∈ u.loop.watches) : Added s v (more ++ es) := by
  have hsame : ∀ id, history id (more ++ es) = history id es := fun id => by
    rw [history_append, hmore, List.nil_append]
  constructor
  case journal => rw [hj, h.journal, List.append_assoc]
  case now => exact Nat.le_trans h.now hnow
  case lastId => exact hlast ▸ h.lastId
  case above => exact fun id hid => (hsame id).trans (h.above id (hlast ▸ hid))
  case below => exact fun id hid => (hsame id).trans (h.below id hid)
  case watches =>
    intro w hm
    rw [hsame, hlast]
    exact h.watches w (hw w hm)

theorem Added.edit (h : Added s u es) (hi : Idles s) (he : Edit s u v) : ∃ es', Added s v es' := by
  cases he with
  | aside ha =>
    obtain ⟨more, hj, hmore⟩ := ha.journal
    refine ⟨_, h.quiet more hj (history_of_foreign fun e hm => Entry.isForeign_of_isApart (hmore e hm))
      (Nat.le_of_eq ha.now.symm) ha.lastId fun w hm => ?_⟩
    rwa [ha.watches] at hm
  | added priority src ha hn =>
    have hnext : ∀ id, id ≠ u.loop.lastId + 1 →
        history id (.added u.kernel.now (u.loop.lastId + 1) :: es) = history id es := fun id hid => by
      rw [history, List.filter_cons_of_neg (by simpa [Entry.isAbout] using hid.symm), ← history]
    have hlast : (u.addWatch priority src).2.loop.lastId = u.loop.lastId + 1 := rfl
    refine ⟨.added u.kernel.now (u.loop.lastId + 1) :: es, ?_⟩
    constructor
    case journal =>
      rw [List.cons_append, ← h.journal]
      rfl
    case now => exact h.now
    case lastId => exact Nat.le_succ_of_le h.lastId
    case above =>
      intro id hid
      rw [hlast] at hid
      rw [hnext id (by omega), h.above id (by omega)]
    case below =>
      intro id hid
      have := h.lastId
      rw [hnext id (by omega), h.below id hid]
    case watches =>
      intro w hm
      rw [hlast]
      rcases List.mem_append.1 hm with hm | hm
      · refine (h.watches w hm).imp_right ?_
        rintro ⟨hlt, hle, hslot, time, hhist, hrest⟩
        exact ⟨hlt, by omega, hslot, time, by rw [hnext w.id (by omega), hhist], hrest⟩
      · rw [List.mem_singleton.1 hm]
        have := h.lastId
        obtain ⟨cb, hcb, -⟩ := ha
        refine .inr ⟨by show s.loop.lastId < u.loop.lastId + 1; omega, Nat.le_refl _, by rw [hcb]; simp, u.kernel.now,
          ?_, h.now, hn⟩
        rw [history, List.filter_cons_of_pos (by simp [Entry.isAbout]), ← history, h.above _ (Nat.lt_succ_self _)]
  | taken id now rest ran job l ho hl => exact absurd ho (hi.dispatch _ _ _)
  | restored id cb ho => exact absurd ho (hi.back _ _ _)
  | ended id cb ho => exact absurd ho (hi.back _ _ _)
  | removed id ho =>
    exact ⟨_, h.quiet [_] rfl (fun _ => rfl) (Nat.le_refl _) rfl fun w hm => (Loop.mem_erase.1 hm).1⟩
  | collected ho => exact absurd ho.choose_spec (hi.pass _)
  | forgot ho => exact absurd ho.choose_spec (hi.pass _)
  | reported rs ho => exact absurd ho.choose_spec (hi.pass _)
  | slept k ho hk => exact ⟨_, h.quiet [] rfl (fun _ => rfl) hk rfl fun _ hm => hm⟩
  | rung id payload ho => exact ⟨_, h.quiet [] rfl (fun _ => rfl) (Nat.le_refl _) rfl fun _ hm => hm⟩
  | lowered id ho => exact ⟨_, h.quiet [] rfl (fun _ => rfl) (Nat.le_refl _) rfl fun _ hm => hm⟩

/-- A step outside of passes adds watches and removes some. -/
theorem added_step (hi : Idles s) : Added s s.step s.news := by
  obtain ⟨es, h⟩ := step_keeps (P := fun u => ∃ es, Added s u es) ⟨[], added_self s⟩ fun u v he ⟨es, h⟩ =>
    h.edit hi he
  rwa [news_eq h.journal]

/-! ## Passes -/

/-- Before it calls anything, a pass revises what is there. -/
theorem revised_step {b : Bool} (hc : s.control = .pass b) (hw : w' ∈ s.step.loop.watches) :
    ∃ w ∈ s.loop.watches, w'.id = w.id ∧ w.source.Revised w'.source := by
  have on : ∀ {l l' : Loop Callback}, (∀ w ∈ l.watches, ∃ v ∈ s.loop.watches, w.id = v.id ∧
    v.source.Revised w.source) →
      (∀ w ∈ l'.watches, ∃ v ∈ l.watches, w.id = v.id ∧ v.source.Revised w.source) →
      ∀ w ∈ l'.watches, ∃ v ∈ s.loop.watches, w.id = v.id ∧ v.source.Revised w.source := by
    intro l l' h h' w hw
    obtain ⟨v, hv, hid, hr⟩ := h' w hw
    obtain ⟨x, hx, hid', hr'⟩ := h v hv
    exact ⟨x, hx, hid.trans hid', hr'.trans hr⟩
  have hattentive : ∀ w ∈ s.attentive.loop.watches, ∃ v ∈ s.loop.watches, w.id = v.id ∧
    v.source.Revised w.source :=
    on (l := s.collect.loop) (fun w hw => Loop.revised_collectIn hw) fun w hw => Loop.revised_forgetFired hw
  have hrecollected : ∀ k revents, ∀ w ∈ (s.recollected b k revents).loop.watches,
      ∃ v ∈ s.loop.watches, w.id = v.id ∧ v.source.Revised w.source := fun k revents =>
    on (l := (s.informed b k revents).loop) (on hattentive fun w hw => Loop.revised_record hw)
      fun w hw => Loop.revised_collectIn hw
  have hstep : s.step = s.pass b := by rw [step, hc]
  rw [hstep] at hw
  cases opening s b with
  | stalled hr ht h => rw [h] at hw; exact hattentive w' hw
  | failed k code hk h => rw [h] at hw; exact hattentive w' hw
  | deadlock k hk h =>
    rw [h] at hw
    have hsame : (s.asking b k .deadlock).stopFromKernel.loop.watches = s.attentive.loop.watches :=
      (apart_stopFromKernel _).watches
    exact hattentive w' (hsame ▸ hw)
  | quiet k revents hk hids h => rw [h] at hw; exact hrecollected k revents w' hw
  | chosen k revents ids hk hne hids h => rw [h] at hw; exact hrecollected k revents w' hw

/-- Before it calls anything, a pass tells nothing of a single watch. -/
theorem history_pass {b : Bool} (hc : s.control = .pass b) (id : Nat) : history id s.news = [] := by
  have hstep : s.step = s.pass b := by rw [step, hc]
  have hquestions : ∀ (asked : List (Int × Kernel.Wait)), ∀ e ∈ questions asked, e.isForeign = true :=
    fun asked e he => by
    obtain ⟨a, -, rfl⟩ := List.mem_map.1 (List.mem_reverse.1 he)
    rfl
  have told : ∀ es, s.step.journal = es ++ s.collect.journal → history id es = [] → history id s.news = [] := by
    intro es hj hes
    rw [journal_collect, ← List.append_assoc] at hj
    rw [news_eq hj, history_append, hes, history_of_foreign (hquestions _) id]
    rfl
  have asked : ∀ answer, (s.question b answer).isAbout id = false := fun _ => rfl
  have answered : ∀ k revents, s.step.journal = (s.recollected b k revents).journal → history id s.news = [] := by
    intro k revents hj
    refine told (questions ((s.informed b k revents).loop.asks k) ++ [s.question b (.ready revents)]) ?_ ?_
    · rw [hj, journal_recollected, List.append_assoc]
      rfl
    · rw [history_append, history_of_foreign (hquestions _) id, history_eq_nil.2 (by simp [asked])]
      rfl
  cases opening s b with
  | stalled hr ht h => exact told [] (by rw [hstep, h]; rfl) rfl
  | failed k code hk h =>
    refine told [s.question b (.failed code)] (by rw [hstep, h]; rfl) (history_eq_nil.2 ?_)
    simp [asked]
  | deadlock k hk h =>
    obtain ⟨es, hes, hquit⟩ := journal_stopFromKernel (s.asking b k .deadlock)
    refine told (es ++ [s.question b .deadlock]) ?_ ?_
    · rw [hstep, h, List.append_assoc]
      exact hes
    · rw [history_append, history_eq_nil.2 fun e he => by rw [hquit e he]; rfl, history_eq_nil.2 (by simp [asked])]
      rfl
  | quiet k revents hk hids h => exact answered k revents (by rw [hstep, h]; rfl)
  | chosen k revents ids hk hne hids h => exact answered k revents (by rw [hstep, h]; rfl)

/-! ## Calls and returns -/

theorem starts_of_take {id : Nat} {rest : List Nat} {now : Nat} {ran : Bool} {job : Loop.Job Callback}
    {l : Loop Callback}
    (hc : s.control = .dispatch (id :: rest) now ran) (htake : s.loop.take id now = some (job, l)) :
    s.news = [.started s.kernel.now id job.payload] ∧ s.step.loop = l := by
  have hstep : s.step = s.dispatch (id :: rest) now ran := by rw [step, hc]
  have hcall : s.step.journal = .started s.kernel.now id job.payload :: s.journal ∧ s.step.loop = l := by
    rw [hstep, dispatch]
    dsimp only
    rw [htake]
    dsimp only
    split <;> exact ⟨rfl, rfl⟩
  exact ⟨news_eq hcall.1, hcall.2⟩

/-- A pass that finds the next watch removed or not ready, or has no more of them, does nothing to the registry. -/
theorem passes_over {ids : List Nat} {now : Nat} {ran : Bool} (hc : s.control = .dispatch ids now ran)
    (hnot : ∀ id rest, ids = id :: rest → s.loop.take id now = none) : s.news = [] ∧ s.step.loop = s.loop := by
  have hstep : s.step = s.dispatch ids now ran := by rw [step, hc]
  have hover : s.step.journal = s.journal ∧ s.step.loop = s.loop := by
    rw [hstep]
    unfold dispatch
    cases ids with
    | nil => exact ⟨rfl, rfl⟩
    | cons id rest =>
      dsimp only
      rw [hnot id rest rfl]
      exact ⟨rfl, rfl⟩
  exact ⟨news_eq hover.1, hover.2⟩

theorem news_takesBack {cb : Callback} {again : Bool} (hb : s.TakesBack id cb again) :
    s.news = [.settled s.kernel.now id again] ∧
      s.step.loop = if again then s.loop.restore id s.kernel.now cb else s.loop.erase id := by
  obtain ⟨hc, K, hst⟩ := hb
  have hstep : s.step = Machine.settle { s with stack := K } id cb again := by
    rw [step, hc]
    dsimp only
    rw [hst]
    rfl
  have hback : s.step.journal = .settled s.kernel.now id again :: s.journal ∧
      s.step.loop = if again then s.loop.restore id s.kernel.now cb else s.loop.erase id := by
    rw [hstep, settle]
    cases again <;> exact ⟨rfl, rfl⟩
  exact ⟨news_eq hback.1, hback.2⟩

theorem history_singleton_self {id : Nat} {e : Entry} (he : e.isAbout id = true) : history id [e] = [e] := by
  simp [history, he]

/-! ## One step -/

theorem idles_or (s : Machine) : Idles s ∨ (∃ b, s.control = .pass b) ∨
    (∃ ids now ran, s.control = .dispatch ids now ran) ∨
    ∃ id cb again, s.TakesBack id cb again := by
  by_cases hpass : ∃ b, s.control = .pass b
  · exact .inr (.inl hpass)
  by_cases hdispatch : ∃ ids now ran, s.control = .dispatch ids now ran
  · exact .inr (.inr (.inl hdispatch))
  by_cases hback : ∃ id cb again, s.TakesBack id cb again
  · exact .inr (.inr (.inr hback))
  · exact .inl ⟨fun b hc => hpass ⟨b, hc⟩, fun ids now ran hc => hdispatch ⟨ids, now, ran, hc⟩,
      fun id cb again hb => hback ⟨id, cb, again, hb⟩⟩

/-- What is there of the watch after the step was there before. -/
theorem Fate.origin (h : Fate s id) (hw : w' ∈ s.step.loop.watches) (hid : w'.id = id) :
    ∃ w ∈ s.loop.watches, w.id = id := by
  cases h with
  | still _ hall => exact ⟨w', hall w' hw hid, hid⟩
  | revised _ _ _ hall => obtain ⟨w, hm, hwid, -⟩ := hall w' hw hid; exact ⟨w, hm, hwid⟩
  | started _ _ _ hall => obtain ⟨w, hm, hwid, -⟩ := hall w' hw hid; exact ⟨w, hm, hwid⟩
  | settled _ _ _ _ hall => obtain ⟨-, w, hm, hwid, -⟩ := hall w' hw hid; exact ⟨w, hm, hwid⟩

theorem fate_dispatch {ids : List Nat} {now : Nat} {ran : Bool} (ht : s.loop.Tidy)
    (hc : s.control = .dispatch ids now ran)
    (id : Nat) : Fate s id := by
  have skipped : (∀ i rest, ids = i :: rest → s.loop.take i now = none) → Fate s id := fun hnot => by
    obtain ⟨hnews, hloop⟩ := passes_over hc hnot
    exact .still (by rw [hnews]; rfl) fun w' hw' _ => hloop ▸ hw'
  cases ids with
  | nil => exact skipped fun _ _ h => by cases h
  | cons i rest =>
    cases htake : s.loop.take i now with
    | none => exact skipped fun j rest' h => by cases h; exact htake
    | some r =>
      obtain ⟨job, l⟩ := r
      obtain ⟨hnews, hloop⟩ := starts_of_take hc htake
      have hcases := fun w' (hw' : w' ∈ s.step.loop.watches) => Loop.mem_take_cases ht htake (hloop ▸ hw')
      by_cases hi : i = id
      · subst hi
        refine .started job.payload ⟨rest, now, ran, job, l, hc, htake⟩ ?_ fun w' hw' hid => ?_
        · rw [hnews, history_singleton_self (by simp [Entry.isAbout])]
        · obtain ⟨w, hw, hwid, -, hsrc⟩ := (hcases w' hw').resolve_left fun h => h.2 hid
          exact ⟨w, hw, hwid, hsrc⟩
      · refine .still (by rw [hnews]; exact history_eq_nil.2 (by simp [Entry.isAbout, hi])) fun w' hw' hid => ?_
        rcases hcases w' hw' with ⟨hw, -⟩ | ⟨-, -, -, hwid, -⟩
        · exact hw
        · exact absurd (hwid.symm.trans hid) hi

theorem fate_takesBack {i : Nat} {cb : Callback} {again : Bool} (hb : s.TakesBack i cb again) (id : Nat) :
    Fate s id := by
  obtain ⟨hnews, hloop⟩ := news_takesBack hb
  have hcases : ∀ w' ∈ s.step.loop.watches, (w' ∈ s.loop.watches ∧ w'.id ≠ i) ∨
      (again = true ∧ ∃ w ∈ s.loop.watches, w.id = i ∧ w'.id = i ∧
        w'.source = w.source.rearmed s.kernel.now cb) := by
    intro w' hw'
    rw [hloop] at hw'
    cases again with
    | true => exact (Loop.mem_restore_cases hw').imp_right fun h => ⟨rfl, h⟩
    | false => exact .inl ⟨(Loop.mem_erase.1 hw').1, (Loop.mem_erase.1 hw').2⟩
  by_cases hi : i = id
  · subst hi
    refine .settled cb again hb ?_ fun w' hw' hid => ?_
    · rw [hnews, history_singleton_self (by simp [Entry.isAbout])]
    · obtain ⟨hagain, w, hw, hwid, -, hsrc⟩ := (hcases w' hw').resolve_left fun h => h.2 hid
      exact ⟨hagain, w, hw, hwid, hsrc⟩
  · refine .still (by rw [hnews]; exact history_eq_nil.2 (by simp [Entry.isAbout, hi])) fun w' hw' hid => ?_
    rcases hcases w' hw' with ⟨hw, -⟩ | ⟨-, -, -, -, hwid, -⟩
    · exact hw
    · exact absurd (hwid.symm.trans hid) hi

/-- What a step makes of a watch that has been registered before. -/
theorem fate (ht : s.loop.Tidy) (hid : id ≤ s.loop.lastId) : Fate s id := by
  rcases idles_or s with hi | ⟨b, hc⟩ | ⟨ids, now, ran, hc⟩ | ⟨i, cb, again, hb⟩
  · have ha := added_step hi
    refine .still (ha.below id hid) fun w' hw' hwid => (ha.watches w' hw').resolve_right fun h => ?_
    have := h.1
    omega
  · refine .revised b hc (history_pass hc id) fun w' hw' hwid => ?_
    obtain ⟨w, hw, hsame, hr⟩ := revised_step hc hw'
    exact ⟨w, hw, hsame.symm.trans hwid, hr⟩
  · exact fate_dispatch ht hc id
  · exact fate_takesBack hb id

/-- A watch that a step registers has its callback, and nothing is told of it but that. -/
theorem newborn (ht : s.loop.Tidy) (hw : w ∈ s.step.loop.watches) (hid : s.loop.lastId < w.id) :
    Idles s ∧ w.source.outline.slot ≠ none ∧
      ∃ time, history w.id s.news = [.added time w.id] ∧ s.kernel.now ≤ time ∧ w.source.Newborn time := by
  -- elsewhere no watch comes that was not there
  have old : ¬ ∃ v ∈ s.loop.watches, v.id = w.id := by
    rintro ⟨v, hv, hvid⟩
    have := ht.le v.id (List.mem_map_of_mem hv)
    omega
  rcases idles_or s with hi | ⟨b, hc⟩ | ⟨ids, now, ran, hc⟩ | ⟨i, cb, again, hb⟩
  · obtain ⟨-, -, hslot, hrest⟩ := ((added_step hi).watches w hw).resolve_left fun h => old ⟨w, h, rfl⟩
    exact ⟨hi, hslot, hrest⟩
  · obtain ⟨v, hv, hvid, -⟩ := revised_step hc hw
    exact absurd ⟨v, hv, hvid.symm⟩ old
  · exact absurd ((fate_dispatch ht hc w.id).origin hw rfl) old
  · exact absurd ((fate_takesBack hb w.id).origin hw rfl) old

end Machine

end Overseer
