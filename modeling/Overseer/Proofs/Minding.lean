import Overseer.Proofs.Quiet

/-!
# How a handle minds its child

A handle that runs knows the ward on its child, or the exit is under way to it; a handle that is
reaped has the status that waitpid has told.  This stays so as long as the ward is there or its exit
comes under way, whatever else happens to the loop.

    Minds l rs log h x  =  the handle h, which is x, minds its child upon the loop l
    Onward              =  a loop, reaps and log that a handle goes on with

Main statement: `Minds.onward`.
-/

namespace Overseer.Machine

open Supervisor
open Kernel (Wait)

structure Minds (l : Loop Callback) (rs : List Reaping) (log : List Entry) (h : Nat) (x : Handle) :
    Prop where
  child : ∀ id, x.childWatch = some id → id ≤ l.lastId ∧ x.state = .running ∧
    ∀ k ∈ l.own, k.id = id → k.callback = .reap h x.generation ∧ x.pid = some k.pid
  running : x.state = .running → ∃ p id, x.pid = some p ∧ x.childWatch = some id ∧
    .spawned h x.generation p ∈ log ∧
      ((∃ k ∈ l.own, k.id = id) ∨ ∃ st, ⟨h, x.generation, p, st⟩ ∈ rs)
  reaped : x.state = .reaped → ∃ st, x.status = some st ∧ Told h x.generation st log
  stdin : ∀ p, x.stdin = some p → .spawned h x.generation p ∈ log

/-- No ward that is there already changes hands, and the one of the handle `x` stays or is taken to be
handed to it. -/
structure Onward (h : Nat) (x : Handle) (l l' : Loop Callback) (rs rs' : List Reaping)
    (log log' : List Entry) : Prop where
  lastId : l.lastId ≤ l'.lastId
  log : ∃ es, log' = es ++ log
  back : ∀ k' ∈ l'.own, k'.id ≤ l.lastId →
    ∃ k ∈ l.own, k.id = k'.id ∧ k.pid = k'.pid ∧ k.callback = k'.callback
  ward : ∀ k ∈ l.own, x.childWatch = some k.id →
    (∃ k' ∈ l'.own, k'.id = k.id) ∨ ∃ st, ⟨h, x.generation, k.pid, st⟩ ∈ rs'
  reaping : ∀ p st, x.state = .running → ⟨h, x.generation, p, st⟩ ∈ rs →
    ⟨h, x.generation, p, st⟩ ∈ rs'

variable {s t : Machine} {log log' : List Entry} {l l' : Loop Callback} {rs rs' : List Reaping}

/-! ## Lemmas -/

theorem Minds.onward {h : Nat} {x y : Handle} (hm : Minds l rs log h x)
    (ho : Onward h x l l' rs rs' log log') (hf : Fewer x y) : Minds l' rs' log' h y := by
  obtain ⟨es, rfl⟩ := ho.log
  constructor
  case child =>
    intro id hid
    rw [hf.childWatch] at hid
    obtain ⟨hle, hrun, hward⟩ := hm.child id hid
    rw [hf.state, hf.generation, hf.pid]
    refine ⟨Nat.le_trans hle ho.lastId, hrun, ?_⟩
    intro k' hk' hid'
    have hold : k'.id ≤ l.lastId := by omega
    obtain ⟨k, hk, hkid, hpid, hcb⟩ := ho.back k' hk' hold
    rw [← hcb, ← hpid]
    exact hward k hk (hkid.trans hid')
  case running =>
    intro hrun
    rw [hf.state] at hrun
    obtain ⟨p, id, hpid, hcw, hsp, hwhere⟩ := hm.running hrun
    rw [hf.generation, hf.pid, hf.childWatch]
    refine ⟨p, id, hpid, hcw, List.mem_append_right _ hsp, ?_⟩
    rcases hwhere with ⟨k, hk, rfl⟩ | ⟨st, hst⟩
    · rcases ho.ward k hk hcw with hk' | ⟨st, hst⟩
      · exact .inl hk'
      · have hkp : x.pid = some k.pid := ((hm.child k.id hcw).2.2 k hk rfl).2
        rw [hpid] at hkp
        cases hkp
        exact .inr ⟨st, hst⟩
    · exact .inr ⟨st, ho.reaping p st hrun hst⟩
  case reaped =>
    intro hst
    rw [hf.state] at hst
    obtain ⟨st, hs, ht⟩ := hm.reaped hst
    rw [hf.generation, hf.status]
    exact ⟨st, hs, ht.append es⟩
  case stdin =>
    intro p hp
    rw [hf.generation]
    exact List.mem_append_right _ (hm.stdin p (hf.stdin p hp))

/-- A handle that was never started minds nobody. -/
theorem minds_fresh {h : Nat} {x : Handle} (hx : x.life = Handle.fresh.life) : Minds l rs log h x := by
  obtain ⟨hstate, -, -, -, -, hstdin, -, -, hcw⟩ := Life.mk.inj hx
  constructor
  case child =>
    intro id hid
    rw [hcw] at hid
    cases hid
  case running =>
    intro hrun
    rw [hstate] at hrun
    cases hrun
  case reaped =>
    intro hst
    rw [hstate] at hst
    cases hst
  case stdin =>
    intro p hp
    rw [hstdin] at hp
    cases hp

/-! ## Wards afterwards -/

theorem mem_spawned_questions {h g : Nat} {p : Int} {asked : List (Int × Wait)} :
    .spawned h g p ∈ questions asked ++ log ↔ .spawned h g p ∈ log := by
  constructor
  · intro hm
    rcases List.mem_append.1 hm with hm | hm
    · exact absurd hm spawned_not_mem_questions
    · exact hm
  · exact List.mem_append_right _

/-- The own wards after a collection: those that had a status, and those that have been asked
about. -/
theorem own_collect {l : Loop Callback} {k : Kernel} {w' : Ward} (h : w' ∈ (l.collect k).1.own) :
    (w' ∈ l.own ∧ w'.status ≠ none) ∨
      ∃ w ∈ l.own, w.status = none ∧ ∃ a, (w.pid, a) ∈ l.asks k ∧ a ≠ .failed 4 ∧
        w' = { w with status := Loop.statusOf a } := by
  obtain ⟨hmem, hown⟩ := Loop.mem_own.1 h
  rcases Loop.collect_ward hmem with ⟨hw, hn⟩ | ⟨w, hw, hn, a, ha, hne, rfl⟩
  · exact .inl ⟨Loop.mem_own.2 ⟨hw, hown⟩, hn⟩
  · exact .inr ⟨w, Loop.mem_own.2 ⟨hw, hown⟩, hn, a, ha, hne, rfl⟩

/-- An own ward that was open has got a final answer, or is still open. -/
theorem collect_own {l : Loop Callback} {k : Kernel} {w : Ward} (h : w ∈ l.own) :
    (w.status ≠ none ∧ w ∈ (l.collect k).1.own) ∨
      ∃ a, (w.pid, a) ∈ l.asks k ∧ { w with status := Loop.statusOf a } ∈ (l.collect k).1.own ∧
        (a.isFinal = true ∨ Loop.statusOf a = none) := by
  obtain ⟨hw, hown⟩ := Loop.mem_own.1 h
  obtain ⟨hkept, hasked⟩ := Loop.ward_collect (k := k) hw
  by_cases hs : w.status = none
  · obtain ⟨a, ha, hne, hw'⟩ := hasked hs
    refine .inr ⟨a, ha, Loop.mem_own.2 ⟨hw', hown⟩, ?_⟩
    cases a with
    | running => exact .inr rfl
    | ended raw => exact .inl rfl
    | failed e =>
      refine .inl ?_
      simpa [Wait.isFinal] using hne
  · exact .inl ⟨hs, Loop.mem_own.2 ⟨hkept hs, hown⟩⟩

theorem mem_own_erase {l : Loop Callback} {id : Nat} {k : Ward} :
    k ∈ (l.erase id).own ↔ k ∈ l.own ∧ k.id ≠ id := by
  rw [Loop.mem_own, Loop.mem_own, Loop.mem_wards_erase]
  constructor
  · rintro ⟨⟨hk, hid⟩, ho⟩
    exact ⟨⟨hk, ho⟩, hid⟩
  · rintro ⟨⟨hk, ho⟩, hid⟩
    exact ⟨⟨hk, hid⟩, ho⟩

theorem heard_spawned {good : Wait → Bool} {p : Int} {h g : Nat} {pid : Int} {before after : List Entry}
    (hb : ∀ e ∈ before, e.isPlain = true) (ha : ∀ e ∈ after, e.isPlain = true) :
    heard good p (after ++ .spawned h g pid :: (before ++ log)) = (pid != p && heard good p log) := by
  rw [heard_aside fun e he => Entry.isAside_of_isPlain (ha e he)]
  show (pid != p && heard good p (before ++ log)) = _
  rw [heard_aside fun e he => Entry.isAside_of_isPlain (hb e he)]

theorem mem_spawned {h g h' g' : Nat} {pid p : Int} {before after : List Entry}
    (hb : ∀ e ∈ before, e.isPlain = true) (ha : ∀ e ∈ after, e.isPlain = true)
    (hm : Entry.spawned h' g' p ∈ after ++ .spawned h g pid :: (before ++ log)) :
    p = pid ∨ Entry.spawned h' g' p ∈ log := by
  rcases List.mem_cons.1 (mem_spawned_aside (fun e he => Entry.isAside_of_isPlain (ha e he)) hm) with he | hm
  · exact .inl (by injection he)
  · exact .inr (mem_spawned_aside (fun e he => Entry.isAside_of_isPlain (hb e he)) hm)

theorem spawned_not_mem_plain {es : List Entry} (he : ∀ e ∈ es, e.isPlain = true) (h g : Nat) (p : Int) :
    .spawned h g p ∉ es := by
  intro hm
  cases he _ hm

theorem Adopted.mem_own {h : Nat} {e : Execution} {pid : Int} (ha : Adopted s t h e pid) {w : Ward} :
    w ∈ t.loop.own ↔
      w ∈ s.loop.own ∨ w = ⟨t.loop.lastId, pid, none, .reap h ((s.handle h).generation + 1)⟩ := by
  rw [Loop.own, ha.wards, List.filter_append, List.mem_append]
  refine or_congr Iff.rfl ?_
  rw [List.mem_filter, List.mem_singleton]
  constructor
  · exact fun h => h.1
  · rintro rfl
    exact ⟨rfl, rfl⟩

theorem Adopted.cases {h : Nat} {e : Execution} {pid : Int} (ha : Adopted s t h e pid) (i : Nat) :
    t.handle i = s.handle i ∨ (i = h ∧ h < s.handles.length) := by
  by_cases hi : i = h
  · rcases Nat.lt_or_ge h s.handles.length with hl | hl
    · exact .inr ⟨hi, hl⟩
    · exact .inl (ha.others i (.inr hl))
  · exact .inl (ha.others i (.inl hi))

theorem Closed.mem_own {h : Nat} (hcl : Closed s t h) {w : Ward} : w ∈ t.loop.own ↔
    (w ∈ s.loop.own ∧ w.id ∉ (s.handle h).watches) ∨
      ∃ p, (s.handle h).left? = some p ∧ w = ⟨t.loop.lastId, p, none, .detached⟩ := by
  rw [Loop.own, hcl.wards, List.filter_append, List.mem_append]
  refine or_congr ?_ ?_
  · rw [List.mem_filter, List.mem_filter, Loop.own, List.mem_filter]
    constructor
    · rintro ⟨⟨hw, hid⟩, ho⟩
      exact ⟨⟨hw, ho⟩, by simpa using hid⟩
    · rintro ⟨⟨hw, ho⟩, hid⟩
      exact ⟨⟨hw, by simpa using hid⟩, ho⟩
  · rw [List.mem_filter, List.mem_map]
    constructor
    · rintro ⟨⟨p, hp, rfl⟩, -⟩
      exact ⟨p, Option.mem_toList.1 hp, rfl⟩
    · rintro ⟨p, hp, rfl⟩
      exact ⟨⟨p, Option.mem_toList.2 hp, rfl⟩, rfl⟩

/-- The new detached ward has a number of its own. -/
theorem Closed.lastId_lt {h : Nat} (hcl : Closed s t h) {p : Int} (hp : (s.handle h).left? = some p) :
    s.loop.lastId < t.loop.lastId := by
  rw [hcl.lastId, hp]
  exact Nat.lt_succ_self _

theorem Closed.lastId_le {h : Nat} (hcl : Closed s t h) : s.loop.lastId ≤ t.loop.lastId := by
  rw [hcl.lastId]
  exact Nat.le_add_right _ _

end Overseer.Machine
