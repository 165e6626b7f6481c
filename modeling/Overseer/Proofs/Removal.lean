import Overseer.Proofs.Balance
import Overseer.Proofs.Calls
import Overseer.Proofs.Registry

/-!
# Removal is final

A watch ends when it is removed, when its callback does not want to be called again, or when it is on a
child and its callback is called.  From then on its number means nothing.

    e ends id,  e' newer than e   →   e' does not start id,  and does not remove it
    an end of id has happened     →   id is not registered

The callback of a watch may still be running when the watch ends, above any number of passes; what it
returns then is put into no watch.  That numbers are given in increasing order makes an end last.

Main statement: `removal_is_final`.
-/

namespace Overseer

open Supervisor

namespace Supervisor

/-- The number of a watch that is registered. -/
def Entry.number? : Entry → Option Nat
  | added _ id => some id
  | _ => none

/-- The numbers that were given, the last one first. -/
def numbers (log : List Entry) : List Nat := log.filterMap Entry.number?

/-- A callback of the watch `id` is started. -/
def Entry.starts (id : Nat) : Entry → Bool
  | started _ i _ => i == id
  | _ => false

/-- The watch `id` is removed, and was there. -/
def Entry.removes (id : Nat) : Entry → Bool
  | removed i found => i == id && found
  | _ => false

/-- What has ended is neither started nor removed by the newer entry. -/
def Entry.Follows (newer older : Entry) : Prop :=
  ∀ id, older.ends id = true → newer.starts id = false ∧ newer.removes id = false

end Supervisor

namespace Machine

/-- The number that the user gets in the step from `m`. -/
def grants (m : Machine) : Option Nat :=
  if m.registers then
    match m.step.control with
    | .value (.answer (.watch id)) => some id
    | _ => none
  else none

/-- The step from `m` answers the user that the watch `id` was there and is removed. -/
def Removes (m : Machine) (id : Nat) : Prop :=
  ∃ tag, m.control = .perform (.remove tag) ∧ Command.look? tag m.tags = some id ∧
    m.step.control = .value (.answer (.flag true))

/-- The step from `m` starts a callback of the watch `id`. -/
def Starts (m : Machine) (id : Nat) : Prop :=
  ∃ rest now ran job l, m.control = .dispatch (id :: rest) now ran ∧ m.loop.take id now = some (job, l)

/-- The step from `m` ends the watch `id`: the user removes it, its callback has returned and does not want
to be called again, or its child is reported. -/
inductive Ends (m : Machine) (id : Nat) : Prop
  | removed : m.Removes id → Ends m id
  | returned (cb : Callback) (K : List Frame) :
      m.control = .value (.again false) → m.stack = .settle id cb :: K → Ends m id
  | reported (rest : List Nat) (now : Nat) (ran : Bool) (job : Loop.Job Callback) (l : Loop Callback) :
      m.control = .dispatch (id :: rest) now ran → m.loop.take id now = some (job, l) → job.once = true →
      Ends m id

/-- Numbers are given in increasing order, and whatever has ended is not there and does nothing more. -/
structure Final (l : Loop Callback) (log : List Entry) : Prop where
  tidy : l.Tidy
  numbers : (numbers log).Pairwise (· > ·)
  given : ∀ id ∈ Supervisor.numbers log, id ≤ l.lastId
  ended : ∀ id, Ended id log → id ≤ l.lastId ∧ id ∉ l.ids
  follows : log.Pairwise Entry.Follows

/-- What is final after the steps from the machines `past`, newest first. -/
structure Finality (past : List Machine) (s : Machine) (log : List Entry) : Prop where
  increasing : (past.filterMap grants).Pairwise (· > ·)
  numbers : (numbers log).Pairwise (· > ·)
  ended : ∀ m ∈ past, ∀ id, m.Ends id → Ended id log
  gone : ∀ id, Ended id log → s.loop.contains id = false
  silent : past.Pairwise fun newer older => ∀ id, older.Ends id →
    newer.loop.contains id = false ∧ ¬ newer.Starts id ∧ ¬ newer.Removes id
  follows : log.Pairwise Entry.Follows

variable {o s t : Machine} {past : List Machine} {l l' : Loop Callback} {log es : List Entry} {e : Entry}
  {id : Nat}

/-! ## Entries and ends -/

theorem mem_ids_of_contains (h : l.contains id = true) : id ∈ l.ids := by
  obtain ⟨w, hw⟩ := Option.isSome_iff_exists.1 h
  obtain ⟨hmem, rfl⟩ := Loop.find?_spec hw
  exact List.mem_map_of_mem hmem

theorem not_contains (h : id ∉ l.ids) : l.contains id = false := by
  cases hc : l.contains id with
  | false => rfl
  | true => exact absurd (mem_ids_of_contains hc) h

theorem mem_ids_of_take {now : Nat} {job : Loop.Job Callback} (h : l.take id now = some (job, l')) :
    id ∈ l.ids := by
  refine mem_ids_of_contains ?_
  unfold Loop.take at h
  split at h
  · cases h
  · next w hw => exact Option.isSome_iff_exists.2 ⟨w, hw⟩

theorem tidy_of_ids (ht : l.Tidy) (hids : l'.ids = l.ids) (hlast : l'.lastId = l.lastId) : l'.Tidy := by
  refine ⟨by rw [hids]; exact ht.nodup, fun id hid => ?_⟩
  rw [hids] at hid
  rw [hlast]
  exact ht.le id hid

/-- Entries that do not concern the registry give no number, and neither start nor end a watch. -/
theorem foreign_spec (h : e.isForeign = true) (id : Nat) :
    e.number? = none ∧ e.starts id = false ∧ e.removes id = false ∧ e.ends id = false := by
  cases e <;> first | exact ⟨rfl, rfl, rfl, rfl⟩ | cases h

/-! ## What an entry keeps -/

theorem Final.cons (hf : Final l log) (ht : l'.Tidy) (hlast : l.lastId ≤ l'.lastId)
    (hids : ∀ id ∈ l'.ids, id ∈ l.ids ∨ l.lastId < id)
    (hnum : ∀ id, e.number? = some id → l.lastId < id ∧ id ≤ l'.lastId)
    (hthere : ∀ id, e.starts id = true ∨ e.removes id = true → id ∈ l.ids)
    (hends : ∀ id, e.ends id = true → id ≤ l.lastId ∧ id ∉ l'.ids) : Final l' (e :: log) := by
  have hlog : ∀ id, Ended id log → id ≤ l'.lastId ∧ id ∉ l'.ids := by
    intro id hid
    obtain ⟨hle, hnot⟩ := hf.ended id hid
    refine ⟨Nat.le_trans hle hlast, fun hm => ?_⟩
    rcases hids id hm with hm | hlt
    · exact hnot hm
    · omega
  constructor
  case tidy => exact ht
  case numbers =>
    cases hn : e.number? with
    | none => rw [Supervisor.numbers, List.filterMap_cons_none hn]; exact hf.numbers
    | some id =>
      rw [Supervisor.numbers, List.filterMap_cons_some hn]
      refine List.pairwise_cons.2 ⟨fun i hi => ?_, hf.numbers⟩
      exact Nat.lt_of_le_of_lt (hf.given i hi) (hnum id hn).1
  case given =>
    intro i hi
    obtain ⟨x, hx, hxi⟩ := List.mem_filterMap.1 hi
    rcases List.mem_cons.1 hx with rfl | hx
    · exact (hnum i hxi).2
    · exact Nat.le_trans (hf.given i (List.mem_filterMap.2 ⟨x, hx, hxi⟩)) hlast
  case ended =>
    rintro i ⟨x, hx, hxi⟩
    rcases List.mem_cons.1 hx with rfl | hx
    · exact ⟨Nat.le_trans (hends i hxi).1 hlast, (hends i hxi).2⟩
    · exact hlog i ⟨x, hx, hxi⟩
  case follows =>
    refine List.pairwise_cons.2 ⟨fun x hx i hxi => ?_, hf.follows⟩
    have hnot := (hf.ended i ⟨x, hx, hxi⟩).2
    refine ⟨Bool.eq_false_iff.2 fun hs => ?_, Bool.eq_false_iff.2 fun hr => ?_⟩
    · exact hnot (hthere i (.inl hs))
    · exact hnot (hthere i (.inr hr))

/-- The same numbers are registered, and nothing is told of them. -/
theorem Final.still (hf : Final l log) (hids : l'.ids = l.ids) (hlast : l'.lastId = l.lastId)
    (he : ∀ e ∈ es, e.isForeign = true) : Final l' (es ++ log) := by
  induction es with
  | nil =>
    refine ⟨tidy_of_ids hf.tidy hids hlast, hf.numbers, fun id hid => ?_, fun id hid => ?_, hf.follows⟩
    · rw [hlast]
      exact hf.given id hid
    · rw [hlast, hids]
      exact hf.ended id hid
  | cons e es ih =>
    have hrest := ih fun x hx => he x (List.mem_cons_of_mem _ hx)
    have hspec := foreign_spec (he e List.mem_cons_self)
    refine hrest.cons hrest.tidy (Nat.le_refl _) (fun _ h => .inl h) (fun id hn => ?_) (fun id hs => ?_)
      fun id hend => ?_
    · rw [(hspec id).1] at hn
      cases hn
    · rw [(hspec id).2.1, (hspec id).2.2.1] at hs
      rcases hs with hs | hs <;> cases hs
    · rw [(hspec id).2.2.2] at hend
      cases hend

theorem Final.same (hf : Final l log) (hids : l'.ids = l.ids) (hlast : l'.lastId = l.lastId) : Final l' log := by
  have hnone : ∀ e ∈ ([] : List Entry), e.isForeign = true := by simp
  exact hf.still hids hlast hnone

theorem Final.alike (hf : Final l log) (ha : Loop.Alike l l') : Final l' log := hf.same ha.ids ha.lastId

theorem Final.added (hf : Final l log) (priority : Loop.Priority) (src : Loop.Source Callback) (time : Nat) :
    Final (l.insert priority src).2 (.added time (l.lastId + 1) :: log) := by
  refine hf.cons (hf.tidy.insert priority src) (Nat.le_succ _) (fun id hid => ?_) (fun id hn => ?_) (fun id hs => ?_)
    fun id hend => ?_
  · rw [Loop.ids_insert] at hid
    rcases List.mem_append.1 hid with hid | hid
    · exact .inl hid
    · rw [List.mem_singleton.1 hid]
      exact .inr (Nat.lt_succ_self _)
  · cases hn
    exact ⟨Nat.lt_succ_self _, Nat.le_refl _⟩
  · rcases hs with hs | hs <;> cases hs
  · cases hend

/-- An entry that tells at most of the end of the watch that is forgotten. -/
theorem Final.erased (hf : Final l log) (hnum : e.number? = none) (hstarts : ∀ i, e.starts i = true → i ∈ l.ids)
    (hremoves : ∀ i, e.removes i = true → i ∈ l.ids)
    (hends : ∀ i, e.ends i = true → i = id ∧ i ≤ l.lastId) : Final (l.erase id) (e :: log) := by
  have hsub : ∀ i ∈ (l.erase id).ids, i ∈ l.ids ∧ i ≠ id := by
    intro i hi
    obtain ⟨w, hw, rfl⟩ := List.mem_map.1 hi
    obtain ⟨hw, hne⟩ := Loop.mem_erase.1 hw
    exact ⟨List.mem_map_of_mem hw, hne⟩
  refine hf.cons (hf.tidy.erase id) (Nat.le_refl _) (fun i hi => .inl (hsub i hi).1) (fun i hn => ?_) (fun i hi => ?_)
    fun i hi => ?_
  · rw [hnum] at hn
    cases hn
  · exact hi.elim (hstarts i) (hremoves i)
  · obtain ⟨rfl, hle⟩ := hends i hi
    exact ⟨hle, fun hm => (hsub i hm).2 rfl⟩

theorem Final.taken {now : Nat} {job : Loop.Job Callback} (hf : Final l log) (time : Nat)
    (hl : l.take id now = some (job, l')) : Final l' (.started time id job.payload :: log) := by
  have hmem := mem_ids_of_take hl
  have hmine : ∀ i, (Entry.started time id job.payload).starts i = true → i ∈ l.ids := by
    intro i hi
    rwa [← (beq_iff_eq.1 hi : id = i)]
  rcases Loop.take_cases hf.tidy hl with ⟨w, pid, fd, st, cb, -, -, rfl, rfl⟩ | ⟨-, hp, -, ha⟩
  · refine hf.erased rfl hmine (fun i hi => by cases hi) fun i hi => ?_
    obtain rfl : id = i := by simpa [Entry.ends, Entry.reports] using hi
    exact ⟨rfl, hf.tidy.le id hmem⟩
  · have hkept := hf.alike ha
    refine hkept.cons hkept.tidy (Nat.le_refl _) (fun _ h => .inl h) (fun i hn => by cases hn) (fun i hi => ?_)
      fun i hi => ?_
    · rw [ha.ids]
      rcases hi with hi | hi
      · exact hmine i hi
      · cases hi
    · cases hpay : job.payload with
      | child pid st => exact absurd hpay (hp pid st)
      | _ => rw [hpay] at hi; cases hi

/-! ## What a step keeps -/

theorem Edit.final (hframes : ∀ id cb, .settle id cb ∈ o.stack → id ≤ s.loop.lastId) (h : Edit o s t)
    (hf : Final s.loop log) :
    ∃ es, t.journal = es ++ s.journal ∧ s.loop.lastId ≤ t.loop.lastId ∧ Final t.loop (es ++ log) := by
  cases h with
  | aside ha =>
    obtain ⟨es, hj, he⟩ := ha.journal
    have hids : t.loop.ids = s.loop.ids := by rw [Loop.ids, Loop.ids, ha.watches]
    exact ⟨es, hj, Nat.le_of_eq ha.lastId.symm, hf.still hids ha.lastId
      fun e hm => Entry.isForeign_of_isApart (he e hm)⟩
  | added priority src ha => exact ⟨[_], rfl, Nat.le_succ _, hf.added priority src s.kernel.now⟩
  | taken id now rest ran job l ho hl =>
    refine ⟨[_], rfl, ?_, hf.taken s.kernel.now hl⟩
    rcases Loop.take_cases hf.tidy hl with ⟨_, _, _, _, _, -, -, -, rfl⟩ | ⟨-, -, -, ha⟩
    · exact Nat.le_refl _
    · exact Nat.le_of_eq ha.lastId.symm
  | restored id cb ho =>
    have hkept := hf.alike (Loop.alike_restore s.loop id s.kernel.now cb)
    refine ⟨[_], rfl, Nat.le_refl _,
      hkept.cons hkept.tidy (Nat.le_refl _) (fun _ h => .inl h) (fun i hn => by cases hn)
      (fun i hi => ?_) fun i hi => ?_⟩
    · rcases hi with hi | hi <;> cases hi
    · simp [Entry.ends] at hi
  | ended id cb ho =>
    refine ⟨[_], rfl, Nat.le_refl _, hf.erased rfl (fun i hi => by cases hi) (fun i hi => by cases hi)
      fun i hi => ?_⟩
    obtain rfl : id = i := by simpa [Entry.ends] using hi
    exact ⟨rfl, hframes id cb ho.mem⟩
  | removed id ho =>
    have hfound : ∀ i, (id == i && s.loop.contains id) = true → id = i ∧ i ∈ s.loop.ids := by
      intro i hi
      obtain ⟨rfl, hc⟩ : id = i ∧ s.loop.contains id = true := by simpa using hi
      exact ⟨rfl, mem_ids_of_contains hc⟩
    refine ⟨[_], rfl, Nat.le_refl _, hf.erased rfl (fun i hi => by cases hi) (fun i hi => (hfound i hi).2)
      fun i hi => ?_⟩
    exact ⟨(hfound i hi).1.symm, hf.tidy.le i (hfound i hi).2⟩
  | collected =>
    refine ⟨questions (s.loop.collect s.kernel).2.1, journal_collect s, Nat.le_refl _,
      hf.still (Loop.ids_collect _ _) rfl fun e he => ?_⟩
    obtain ⟨a, -, rfl⟩ := List.mem_map.1 (List.mem_reverse.1 he)
    rfl
  | forgot => exact ⟨[], rfl, Nat.le_refl _, hf.alike (Loop.alike_forgetFired _)⟩
  | reported rs =>
    have ha := Loop.alike_record s.loop rs
    exact ⟨[], rfl, Nat.le_of_eq ha.lastId.symm, hf.alike ha⟩
  | slept k ho hk => exact ⟨[], rfl, Nat.le_refl _, hf⟩
  | rung id payload ho => exact ⟨[], rfl, Nat.le_refl _, hf⟩
  | lowered id ho => exact ⟨[], rfl, Nat.le_refl _, hf⟩

theorem Final.step (hf : Final s.loop log) (hframes : ∀ id cb, .settle id cb ∈ s.stack → id ≤ s.loop.lastId) :
    Final s.step.loop (s.news ++ log) := by
  have key : ∀ t, Edits s s t → ∃ es, t.journal = es ++ s.journal ∧ s.loop.lastId ≤ t.loop.lastId ∧
      Final t.loop (es ++ log) := by
    intro t h
    induction h with
    | refl => exact ⟨[], rfl, Nat.le_refl _, hf⟩
    | tail _ he ih =>
      obtain ⟨es, hj, hle, hf'⟩ := ih
      obtain ⟨more, hj', hle', hf''⟩ := he.final (fun id cb ho => Nat.le_trans (hframes id cb ho) hle) hf'
      refine ⟨more ++ es, by rw [hj', hj, List.append_assoc], Nat.le_trans hle hle', ?_⟩
      rwa [List.append_assoc]
  obtain ⟨es, hj, -, hf'⟩ := key _ (step_edits s)
  rwa [news_eq hj]

/-- A frame of a callback under way has a number that was given. -/
theorem le_of_settle {G : Machine → Prop} (h : Run G s log) {cb : Callback} (hm : .settle id cb ∈ s.stack) :
    id ≤ s.loop.lastId := by
  refine (custody_run h).sound.le id (.inl (List.mem_append_right _ ?_))
  exact List.mem_flatMap.2 ⟨_, hm, List.mem_cons_self⟩

theorem final_run (h : Run (fun _ => True) s log) : Final s.loop log := by
  have hboth : Run (fun _ => True) s log ∧ Final s.loop log := by
    refine Run.invariant (P := fun s log => Run (fun _ => True) s log ∧ Final s.loop log) (fun s hi => ?_)
      (fun s log t log' ⟨hr, hf⟩ hm => ⟨hr.move hm, ?_⟩) h
    · refine ⟨Run.init hi, ?_⟩
      have hempty : s.loop.watches = [] := by cases hi <;> rfl
      exact ⟨⟨by simp [Loop.ids, hempty], by simp [Loop.ids, hempty]⟩, .nil, by simp [numbers],
        by simp [Ended], .nil⟩
    · cases hm with
      | step => exact hf.step fun id cb hcb => le_of_settle hr hcb
      | elsewhere k => exact hf
      | rejoin inner a h => exact hf.same rfl rfl
      | start op h => exact hf
      | ending h => exact hf
  exact hboth.2

/-! ## What the user is answered -/

theorem registered_step (h : s.registers = true) :
    s.step.control = .value (.answer (.watch (s.loop.lastId + 1))) ∧
      s.news = [.added s.kernel.now (s.loop.lastId + 1)] := by
  have key : s.step.control = .value (.answer (.watch (s.loop.lastId + 1))) ∧
      s.step.journal = [.added s.kernel.now (s.loop.lastId + 1)] ++ s.journal := by
    unfold registers at h
    split at h
    case h_5 => cases h
    all_goals
      next hc =>
      unfold step
      rw [hc]
      exact ⟨rfl, rfl⟩
  exact ⟨key.1, news_eq key.2⟩

theorem grants_of_registers (h : s.registers = true) : s.grants = some (s.loop.lastId + 1) := by
  rw [grants, if_pos h, (registered_step h).1]

theorem removes_step (h : s.Removes id) : s.loop.contains id = true ∧ s.news = [.removed id true] := by
  obtain ⟨tag, hc, htag, ha⟩ := h
  have hstep : s.step = (s.removeWatch id).yieldAnswer (.flag (s.loop.contains id)) := by
    unfold step
    rw [hc]
    show s.withTag tag _ = _
    rw [withTag, htag]
  rw [hstep] at ha
  obtain hfound : s.loop.contains id = true := by
    injection ha with ha
    injection ha with ha
    injection ha
  refine ⟨hfound, news_eq ?_⟩
  rw [hstep, ← hfound]
  rfl

theorem starts_contains (h : s.Starts id) : s.loop.contains id = true := by
  obtain ⟨rest, now, ran, job, l, -, hl⟩ := h
  cases hc : s.loop.contains id with
  | true => rfl
  | false =>
    have hnone : s.loop.find? id = none := by simpa [Loop.contains] using hc
    rw [Loop.take, hnone] at hl
    cases hl

/-- What ends a watch is told by the journal. -/
theorem Ends.news (ht : s.loop.Tidy) (h : s.Ends id) : Ended id s.news := by
  cases h with
  | removed h =>
    rw [(removes_step h).2]
    exact ⟨_, List.mem_cons_self, by simp [Entry.ends]⟩
  | returned cb K hc hst =>
    have hnews : s.news = [.settled s.kernel.now id false] := news_eq (by rw [step_value hc hst]; rfl)
    rw [hnews]
    exact ⟨_, List.mem_cons_self, by simp [Entry.ends]⟩
  | reported rest now ran job l hc hl honce =>
    rcases Loop.take_cases ht hl with ⟨w, pid, fd, st, cb, -, -, rfl, rfl⟩ | ⟨hno, -⟩
    · have hnews : s.news = [.started s.kernel.now id (.child pid st)] := by
        refine news_eq ?_
        unfold step
        rw [hc]
        show (s.dispatch (id :: rest) now ran).journal = _
        unfold dispatch
        dsimp only
        rw [hl]
        rfl
      rw [hnews]
      exact ⟨_, List.mem_cons_self, by simp [Entry.ends, Entry.reports]⟩
    · rw [hno] at honce
      cases honce

theorem ended_of_ends (ht : Trail past s log) {m : Machine} (hm : m ∈ past) (hend : m.Ends id) :
    Ended id log := by
  induction ht with
  | init => exact absurd hm List.not_mem_nil
  | step ht ih =>
    rcases List.mem_cons.1 hm with rfl | hm
    · exact ended_append.2 (.inl (hend.news (final_run ht.run).tidy))
    · exact ended_append.2 (.inr (ih hm))
  | pause _ hp ih =>
    rcases pause_cases hp with ⟨hg, -⟩ | ⟨-, rfl⟩
    · exact hg.elim
    · exact ih hm

/-- The numbers that the user was given are among those that were given at all. -/
theorem grants_sublist (ht : Trail past s log) : (past.filterMap grants).Sublist (numbers log) := by
  induction ht with
  | init => exact List.nil_sublist _
  | @step past s log _ ih =>
    have hsplit : numbers (s.news ++ log) = numbers s.news ++ numbers log := List.filterMap_append
    rw [hsplit]
    cases hr : s.registers with
    | false =>
      have hnone : s.grants = none := by rw [grants, hr]; rfl
      rw [List.filterMap_cons_none hnone]
      exact ih.trans (List.sublist_append_right _ _)
    | true =>
      rw [List.filterMap_cons_some (grants_of_registers hr), (registered_step hr).2]
      exact ih.cons_cons _
  | pause _ hm ih =>
    rcases pause_cases hm with ⟨hg, -⟩ | ⟨-, rfl⟩
    · exact hg.elim
    · exact ih

theorem contains_of_ended (ht : Trail past s log) (h : Ended id log) : s.loop.contains id = false :=
  not_contains ((final_run ht.run).ended id h).2

theorem silent_trail (ht : Trail past s log) : past.Pairwise fun newer older => ∀ id, older.Ends id →
    newer.loop.contains id = false ∧ ¬ newer.Starts id ∧ ¬ newer.Removes id := by
  induction ht with
  | init => exact .nil
  | step ht ih =>
    refine List.pairwise_cons.2 ⟨fun m hm id hend => ?_, ih⟩
    have hnot := contains_of_ended ht (ended_of_ends ht hm hend)
    refine ⟨hnot, fun hs => ?_, fun hr => ?_⟩
    · rw [starts_contains hs] at hnot
      cases hnot
    · rw [(removes_step hr).1] at hnot
      cases hnot
  | pause _ _ ih => exact ih

theorem Trail.finality (ht : Trail past s log) : Finality past s log := by
  have hf := final_run ht.run
  exact ⟨hf.numbers.sublist (grants_sublist ht), hf.numbers, fun m hm id hend => ended_of_ends ht hm hend,
    fun id hid => contains_of_ended ht hid, silent_trail ht, hf.follows⟩

/-- Whatever callbacks do, and however deep passes are nested: numbers are given in increasing order, and a
watch that has ended is not registered, does not start and is not removed ever after. -/
theorem removal_is_final (hr : Run (fun _ => True) s log) :
    (∃ past, Trail past s log) ∧ ∀ past, Trail past s log → Finality past s log :=
  ⟨trail_of_run hr, fun _ ht => ht.finality⟩

/-- Some steps of a machine, with the machines stepped from and what has happened. -/
def tramp : (n : Nat) → List Machine × Machine × List Entry → List Machine × Machine × List Entry
  | 0, x => x
  | n + 1, x => tramp n (x.2.1 :: x.1, x.2.1.step, x.2.1.news ++ x.2.2)

theorem Trail.tramp (n : Nat) {x : List Machine × Machine × List Entry} (ht : Trail x.1 x.2.1 x.2.2) :
    Trail (tramp n x).1 (tramp n x).2.1 (tramp n x).2.2 := by
  induction n generalizing x with
  | zero => exact ht
  | succ n ih => exact ih ht.step

/-- The first steps of an operation upon a machine at rest, with the machines stepped from. -/
def hike (x : List Machine × Machine × List Entry) (op : Op) (n : Nat) : List Machine × Machine × List Entry :=
  tramp n (x.1, x.2.1.start op, x.2.2)

theorem Trail.hike {x : List Machine × Machine × List Entry} (ht : Trail x.1 x.2.1 x.2.2) (hi : x.2.1.isIdle = true)
    (op : Op) (n : Nat) : Trail (hike x op n).1 (hike x op n).2.1 (hike x op n).2.2 :=
  Trail.tramp n (x := (x.1, x.2.1.start op, x.2.2)) (ht.pause (.start op hi))

/-- Idle work has removed itself, has let the loop make another pass, and has asked to be called again. -/
def resigned : List Machine × Machine × List Entry :=
  let x := tread ([], .fresh .standard 10000000 [] (.fresh true), [])
    (.idle 0 (.mk "i" [true] [[.remove "i", .iterate false]]))
  tramp 14 (x.1, x.2.1.start (.iterate false), x.2.2)

theorem finality_of_resigned : Run (fun _ => True) resigned.2.1 resigned.2.2 ∧ resigned.2.1.isIdle = true ∧
    Finality resigned.1 resigned.2.1 resigned.2.2 ∧ resigned.1.filterMap grants = [1] ∧
    resigned.2.1.loop.contains 1 = false ∧
    (resigned.2.2.any fun e => match e with | .settled _ 1 again => again | _ => false) = true := by
  have hfirst : Trail _ _ _ := Trail.tread (x := ([], .fresh .standard 10000000 [] (.fresh true), []))
    (.init (.fresh .standard 10000000 [] (.fresh true) true)) rfl
    (.idle 0 (.mk "i" [true] [[.remove "i", .iterate false]]))
  have ht : Trail resigned.1 resigned.2.1 resigned.2.2 :=
    Trail.tramp 14 (x := (_, _, _)) (hfirst.pause (.start (.iterate false) rfl))
  have hend : Ended 1 resigned.2.2 := by
    have hany : (resigned.2.2.any fun e => e.ends 1) = true := by decide
    simpa [Ended] using hany
  have hfinal := (removal_is_final ht.run).2 _ ht
  exact ⟨ht.run, by decide, hfinal, by decide, hfinal.gone 1 hend, by decide⟩

end Machine

end Overseer
