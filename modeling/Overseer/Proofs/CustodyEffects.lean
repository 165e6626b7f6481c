import Overseer.Proofs.Minding

/-!
# Custody and effects

Whoever has started a child keeps a ward on it until waitpid has given its final answer.  The exit
then stands on the ward, or is under way to the handle.

    handle h     →  a handle minds its child
    open ward    →  nobody has been told of the end of its child, which still bears its pid
    spawned p    →  waitpid has given a final answer about p, or an own ward on p is open
    reap         →  waitpid has told its status of this generation

Main statement: `Custody.effect` (every effect keeps custody).
-/

namespace Overseer.Machine

open Supervisor

structure Custody (σ : Scene) (log : List Entry) : Prop where
  sound : σ.Sound
  handle : ∀ h, Minds σ.machine.loop σ.reapings log h (σ.machine.handle h)
  untold : ∀ k ∈ σ.machine.loop.own, ∀ h g, k.callback = .reap h g → k.status = none →
    collected k.pid log = false
  reaper : ∀ h g p, .spawned h g p ∈ log →
    answered p log = true ∨ ∃ k ∈ σ.machine.loop.own, k.pid = p ∧ k.status = none
  ward : ∀ k ∈ σ.machine.loop.own, ∀ h g, k.callback = .reap h g →
    (k.status = none → Bears h g k.pid log) ∧ ∀ st, k.status = some st → Told h g st log
  reaping : ∀ x ∈ σ.reapings, Told x.h x.g x.status log

variable {o s t : Machine} {σ τ : Scene} {held : List Nat} {rs : List Reaping} {log : List Entry}

/-- What is claimed afterwards was claimed before, or is the number of no own ward. -/
theorem sound_onward (hs : σ.Sound) (ht : τ.machine.loop.Tidy)
    (hlast : σ.machine.loop.lastId ≤ τ.machine.loop.lastId)
    (hclaims : ∀ id, τ.Claims id → σ.Claims id ∨
      (id ≤ τ.machine.loop.lastId ∧ ∀ k ∈ τ.machine.loop.own, k.id ≠ id))
    (hback : ∀ k' ∈ τ.machine.loop.own, k'.id ≤ σ.machine.loop.lastId →
      ∃ k ∈ σ.machine.loop.own, k.id = k'.id) : τ.Sound := by
  refine ⟨ht, ?_, ?_⟩
  · intro id hid
    rcases hclaims id hid with hold | ⟨hle, -⟩
    · exact Nat.le_trans (hs.le id hold) hlast
    · exact hle
  · intro id hid k' hk' he
    rcases hclaims id hid with hold | ⟨-, hnew⟩
    · have hle := hs.le id hold
      rw [← he] at hle
      obtain ⟨k, hk, hkid⟩ := hback k' hk' hle
      exact hs.apart id hold k hk (hkid.trans he)
    · exact hnew k' hk' he

/-! ## Quiet effects -/

theorem Quiet.onward (hq : Quiet σ τ) (h : Nat) (es : List Entry) :
    Onward h (σ.machine.handle h) σ.machine.loop τ.machine.loop σ.reapings τ.reapings log (es ++ log) := by
  constructor
  case lastId => exact hq.lastId
  case log => exact ⟨es, rfl⟩
  case back =>
    intro k' hk' _
    rw [hq.own] at hk'
    exact ⟨k', hk', rfl, rfl, rfl⟩
  case ward =>
    intro k hk _
    rw [← hq.own] at hk
    exact .inl ⟨k, hk, rfl⟩
  case reaping =>
    intro p st hrun hx
    rcases hq.stale _ hx with hx' | hstale
    · exact hx'
    · exact absurd ⟨hrun, rfl⟩ hstale

theorem Custody.quiet {es : List Entry} (hc : Custody σ log) (hq : Quiet σ τ)
    (he : ∀ e ∈ es, e.isAside = true) : Custody τ (es ++ log) := by
  constructor
  case sound =>
    refine sound_onward hc.sound hq.tidy hq.lastId (fun id hid => ?_) fun k hk _ => ?_
    · rw [hq.own]
      exact hq.claims id hid
    · rw [hq.own] at hk
      exact ⟨k, hk, rfl⟩
  case handle => exact fun h => (hc.handle h).onward (hq.onward h es) (hq.handles h)
  case untold =>
    intro k hk h g hcb hn
    rw [hq.own] at hk
    rw [collected, heard_aside he]
    exact hc.untold k hk h g hcb hn
  case reaper =>
    intro h g p hp
    rw [answered, heard_aside he, hq.own]
    exact hc.reaper h g p (mem_spawned_aside he hp)
  case ward =>
    intro k hk h g hcb
    rw [hq.own] at hk
    obtain ⟨hbears, htold⟩ := hc.ward k hk h g hcb
    exact ⟨fun hn => (hbears hn).append fun _ _ _ hm => (by cases he _ hm),
      fun st hst => (htold st hst).append es⟩
  case reaping => exact fun x hx => (hc.reaping x (hq.reapings x hx)).append es

/-! ## Collections -/

/-- An own ward after a collection is one before it, up to its status. -/
theorem own_of_collect {k' : Ward} (h : k' ∈ s.collect.loop.own) : ∃ k ∈ s.loop.own,
    k.id = k'.id ∧ k.pid = k'.pid ∧ k.callback = k'.callback := by
  rcases own_collect h with ⟨hk, -⟩ | ⟨k, hk, -, a, -, -, rfl⟩
  · exact ⟨k', hk, rfl, rfl, rfl⟩
  · exact ⟨k, hk, rfl, rfl, rfl⟩

theorem collect_onward (s : Machine) (h : Nat) : Onward h (s.handle h) s.loop s.collect.loop rs rs log
    (questions (s.loop.asks s.kernel) ++ log) := by
  constructor
  case lastId => exact Nat.le_refl _
  case log => exact ⟨_, rfl⟩
  case back => exact fun k' hk' _ => own_of_collect hk'
  case ward =>
    intro k hk _
    rcases collect_own (k := s.kernel) hk with ⟨-, hk'⟩ | ⟨a, -, hk', -⟩
    · exact .inl ⟨k, hk', rfl⟩
    · exact .inl ⟨_, hk', rfl⟩
  case reaping => exact fun _ _ _ hx => hx

theorem untold_collect (hc : Custody ⟨s, held, rs⟩ log) {k' : Ward} (hk' : k' ∈ s.collect.loop.own)
    {h g : Nat} (hcb : k'.callback = .reap h g) (hn : k'.status = none) :
    collected k'.pid (questions (s.loop.asks s.kernel) ++ log) = false := by
  have hnobody : ∀ a, (k'.pid, a) ∈ s.loop.asks s.kernel → a.isEnd = false :=
    fun a => Loop.not_ended_of_open (Loop.mem_own.1 hk').1 hn
  have hbefore : collected k'.pid log = false := by
    rcases own_collect hk' with ⟨-, hne⟩ | ⟨k, hk, hn', a, -, -, rfl⟩
    · exact absurd hn hne
    · exact hc.untold k hk h g hcb hn'
  rw [collected, heard_questions_append, Bool.or_eq_false_iff]
  refine ⟨?_, hbefore⟩
  rw [List.any_eq_false]
  intro x hx
  by_cases hxp : x.1 = k'.pid
  · simp [hxp, hnobody x.2 (by rw [← hxp]; exact hx)]
  · simp [hxp]

theorem Custody.collected (hc : Custody ⟨s, held, rs⟩ log) :
    Custody ⟨s.collect, held, rs⟩ (questions (s.loop.asks s.kernel) ++ log) := by
  constructor
  case sound =>
    refine sound_onward hc.sound hc.sound.tidy.collect (Nat.le_refl _) (fun id hid => .inl hid) ?_
    intro k' hk' _
    obtain ⟨k, hk, hid, -, -⟩ := own_of_collect hk'
    exact ⟨k, hk, hid⟩
  case handle => exact fun h => (hc.handle h).onward (collect_onward s h) (.refl _)
  case untold => exact fun k' hk' h g hcb hn => untold_collect hc hk' hcb hn
  case reaper =>
    intro h g p hp
    rw [answered, heard_questions_append, Bool.or_eq_true]
    rcases hc.reaper h g p (mem_spawned_questions.1 hp) with ha | ⟨k, hk, rfl, hn⟩
    · exact .inl (.inr ha)
    · rcases collect_own (k := s.kernel) hk with ⟨hne, -⟩ | ⟨a, ha, hk', hfin | hopen⟩
      · exact absurd hn hne
      · refine .inl (.inl (List.any_eq_true.2 ⟨_, ha, ?_⟩))
        simp [hfin]
      · exact .inr ⟨_, hk', rfl, hopen⟩
  case ward =>
    intro k' hk' h g hcb
    rcases own_collect hk' with ⟨hk, hne⟩ | ⟨k, hk, hn, a, ha, -, rfl⟩
    · exact ⟨fun hn => absurd hn hne, fun st hst => ((hc.ward k' hk h g hcb).2 st hst).append _⟩
    · have hbears := (hc.ward k hk h g hcb).1 hn
      exact ⟨fun _ => hbears.append fun _ _ _ => spawned_not_mem_questions,
        fun st hst => .of_question ha hst hbears⟩
  case reaping => exact fun x hx => (hc.reaping x hx).append _

/-! ## Exits on their way -/

theorem eq_of_own_id (hc : Custody ⟨s, held, rs⟩ log) {k w : Ward} (hw : w ∈ s.loop.own)
    (hk : k ∈ s.loop.wards) (hid : w.id = k.id) : w = k :=
  Loop.ward_eq_of_id_eq hc.sound.tidy (Loop.mem_own.1 hw).1 hk hid

/-- The ward that is taken belongs to one handle, and its exit is on its way to that one. -/
theorem taken_onward (hc : Custody ⟨s, held, rs⟩ log) {k : Ward} (hk : k ∈ s.loop.wards) (st : ExitStatus)
    (h : Nat) (e : Entry) : Onward h (s.handle h) s.loop (s.loop.erase k.id) rs
      (k.callback.reapings k.pid st ++ rs) log (e :: log) := by
  constructor
  case lastId => exact Nat.le_refl _
  case log => exact ⟨[e], rfl⟩
  case back => exact fun k' hk' _ => ⟨k', (mem_own_erase.1 hk').1, rfl, rfl, rfl⟩
  case ward =>
    intro w hw hcw
    by_cases hwk : w.id = k.id
    · obtain rfl := eq_of_own_id hc hw hk hwk
      obtain ⟨hcb, -⟩ := ((hc.handle h).child w.id hcw).2.2 w hw rfl
      refine .inr ⟨st, List.mem_append_left _ ?_⟩
      rw [hcb]
      exact List.mem_cons_self
    · exact .inl ⟨w, mem_own_erase.2 ⟨hw, hwk⟩, rfl⟩
  case reaping => exact fun p st _ hx => List.mem_append_right _ hx

theorem Custody.taken {k : Ward} {st : ExitStatus} (time : Nat) (hc : Custody ⟨s, held, rs⟩ log)
    (hk : k ∈ s.loop.wards) (hst : k.status = some st) :
    Custody ⟨Machine.record { s with loop := s.loop.erase k.id } (.started time k.id (.child k.pid st)),
      held, k.callback.reapings k.pid st ++ rs⟩ (.started time k.id (.child k.pid st) :: log) := by
  constructor
  case sound =>
    exact sound_onward hc.sound (hc.sound.tidy.erase k.id) (Nat.le_refl _) (fun id hid => .inl hid)
      fun w hw _ => ⟨w, (mem_own_erase.1 hw).1, rfl⟩
  case handle => exact fun h => (hc.handle h).onward (taken_onward hc hk st h _) (.refl _)
  case untold =>
    intro w hw h g hcb hn
    exact hc.untold w (mem_own_erase.1 hw).1 h g hcb hn
  case reaper =>
    intro h g p hp
    have hp : Entry.spawned h g p ∈ log := by simpa using hp
    rcases hc.reaper h g p hp with ha | ⟨w, hw, hwp, hn⟩
    · exact .inl ha
    · refine .inr ⟨w, mem_own_erase.2 ⟨hw, fun hwk => ?_⟩, hwp, hn⟩
      rw [eq_of_own_id hc hw hk hwk, hst] at hn
      cases hn
  case ward =>
    intro w hw h g hcb
    obtain ⟨hbears, htold⟩ := hc.ward w (mem_own_erase.1 hw).1 h g hcb
    have hnone : ∀ i g' q, Entry.spawned i g' q ∉ [Entry.started time k.id (.child k.pid st)] := by
      simp
    exact ⟨fun hn => (hbears hn).append hnone, fun st' hst' => (htold st' hst').append [_]⟩
  case reaping =>
    intro x hx
    rcases List.mem_append.1 hx with hx | hx
    · cases hcb : k.callback with
      | reap h g =>
        rw [hcb] at hx
        obtain rfl := List.mem_singleton.1 hx
        have hown : k ∈ s.loop.own := Loop.mem_own.2 ⟨hk, by rw [Ward.isOwn, hcb]⟩
        exact ((hc.ward k hown h g hcb).2 st hst).append [_]
      | _ =>
        rw [hcb] at hx
        cases hx
    · exact (hc.reaping x hx).append [_]

/-- The handle takes the exit that was on its way. -/
theorem Custody.handed {h : Nat} {pid : Int} {st : ExitStatus} (hc : Custody ⟨s, held, rs⟩ log)
    (hx : ⟨h, (s.handle h).generation, pid, st⟩ ∈ rs) (hrun : (s.handle h).state = .running) :
    Custody ⟨s.mapHandle h fun x => { x with state := .reaped, status := some st, childWatch := none },
      held, rs⟩ log := by
  have hself := handle_mapHandle_self s (h := h)
    (fun x => { x with state := .reaped, status := some st, childWatch := none }) (lt_of_running hrun)
  have hothers := fun i (hi : i ≠ h) => handle_mapHandle_of_ne s (h := h) (i := i)
    (fun x => { x with state := .reaped, status := some st, childWatch := none }) (.inl hi)
  have hloop : (s.mapHandle h fun x =>
      { x with state := .reaped, status := some st, childWatch := none }).loop = s.loop := rfl
  have htags : (s.mapHandle h fun x =>
      { x with state := .reaped, status := some st, childWatch := none }).tags = s.tags := rfl
  generalize s.mapHandle h _ = t at hself hothers hloop htags ⊢
  have hpipe : ∀ i str p, (t.handle i).pipe str = some p → (s.handle i).pipe str = some p := by
    intro i str p hp
    by_cases hi : i = h
    · rw [hi, hself] at hp
      rw [hi]
      cases str <;> exact hp
    · rw [hothers i hi] at hp
      exact hp
  constructor
  case sound =>
    refine sound_onward hc.sound (by rw [hloop]; exact hc.sound.tidy) (Nat.le_of_eq (by rw [hloop]))
      (fun id hid => .inl (claims_of_pipes htags hpipe id hid)) fun k hk _ => ⟨k, ?_, rfl⟩
    rw [hloop] at hk
    exact hk
  case handle =>
    intro i
    dsimp only
    rw [hloop]
    by_cases hi : i = h
    · subst hi
      rw [hself]
      exact ⟨fun id hid => (by cases hid), fun hst => (by cases hst), fun _ => ⟨st, rfl, hc.reaping _ hx⟩,
        (hc.handle i).stdin⟩
    · rw [hothers i hi]
      exact hc.handle i
  case untold => rw [hloop]; exact hc.untold
  case reaper => rw [hloop]; exact hc.reaper
  case ward => rw [hloop]; exact hc.ward
  case reaping => exact hc.reaping

/-! ## New children -/

/-- What was claimed is claimed, and so are the pipes of the new child. -/
theorem Adopted.claims {h : Nat} {e : Execution} {pid : Int} (ha : Adopted s t h e pid) {id : Nat}
    (hid : Scene.Claims ⟨t, held, rs⟩ id) :
    Scene.Claims ⟨s, held, rs⟩ id ∨ (s.loop.lastId < id ∧ id < t.loop.lastId) := by
  rcases hid with hid | hid | ⟨i, st, p, hp, rfl⟩
  · exact .inl (.inl hid)
  · exact .inl (.inr (.inl (by rw [← ha.tags]; exact hid)))
  · rcases ha.cases i with hi | ⟨rfl, hl⟩
    · refine .inl (.inr (.inr ⟨i, st, p, ?_, rfl⟩))
      rw [← hi]
      exact hp
    · obtain ⟨out, err, hlife, hnew⟩ := ha.life hl
      refine .inr (hnew p ?_)
      cases st with
      | out => exact .inl ((congrArg Life.out hlife).symm.trans hp)
      | err => exact .inr ((congrArg Life.err hlife).symm.trans hp)

/-- The new ward has a number that no ward had. -/
theorem Adopted.own_of_le {h : Nat} {e : Execution} {pid : Int} (ha : Adopted s t h e pid) {k : Ward}
    (hk : k ∈ t.loop.own) (hle : k.id ≤ s.loop.lastId) : k ∈ s.loop.own := by
  rcases ha.mem_own.1 hk with hk | rfl
  · exact hk
  · have := ha.lastId
    dsimp only at hle
    omega

theorem Adopted.sound {h : Nat} {e : Execution} {pid : Int} (ha : Adopted s t h e pid)
    (hs : Scene.Sound ⟨s, held, rs⟩) : Scene.Sound ⟨t, held, rs⟩ := by
  have hlast := ha.lastId
  refine sound_onward hs (ha.tidy hs.tidy) (Nat.le_of_lt hlast) (fun id hid => ?_)
    fun k hk hle => ⟨k, ha.own_of_le hk hle, rfl⟩
  rcases ha.claims hid with hid | ⟨hlow, hhigh⟩
  · exact .inl hid
  · refine .inr ⟨Nat.le_of_lt hhigh, ?_⟩
    intro k hk
    rcases ha.mem_own.1 hk with hk | rfl
    · have := hs.tidy.le _ (Loop.id_mem_ids (Loop.mem_own.1 hk).1)
      dsimp only at this
      omega
    · dsimp only
      omega

/-- The handle that has the new child minds it, and the others go on as before. -/
theorem Adopted.minds {h : Nat} {e : Execution} {pid : Int} {before after : List Entry}
    (hc : Custody ⟨s, held, rs⟩ log) (ha : Adopted s t h e pid) (i : Nat) : Minds t.loop rs
      (after ++ .spawned h ((s.handle h).generation + 1) pid :: (before ++ log)) i (t.handle i) := by
  have hlast := ha.lastId
  rcases ha.cases i with hi | ⟨rfl, hl⟩
  · rw [hi]
    refine (hc.handle i).onward ⟨Nat.le_of_lt hlast,
      ⟨after ++ .spawned h ((s.handle h).generation + 1) pid :: before, by simp⟩,
      fun k hk hle => ⟨k, ha.own_of_le hk hle, rfl, rfl, rfl⟩,
      fun k hk _ => .inl ⟨k, ha.mem_own.2 (.inl hk), rfl⟩, fun _ _ _ hx => hx⟩ (.refl _)
  · obtain ⟨out, err, hlife, -⟩ := ha.life hl
    obtain ⟨hstate, hgen, hpid, -, -, hin, -, -, hcw⟩ := Life.mk.inj hlife
    have hspawned : Entry.spawned i (t.handle i).generation pid ∈
        after ++ Entry.spawned i ((s.handle i).generation + 1) pid :: (before ++ log) := by
      rw [hgen]
      exact List.mem_append_right _ List.mem_cons_self
    constructor
    case child =>
      intro id hid
      rw [hcw] at hid
      cases hid
      refine ⟨Nat.le_refl _, hstate, ?_⟩
      intro k hk hkid
      rcases ha.mem_own.1 hk with hk | rfl
      · have := hc.sound.tidy.le _ (Loop.id_mem_ids (Loop.mem_own.1 hk).1)
        dsimp only at this
        omega
      · exact ⟨by rw [hgen], hpid⟩
    case running =>
      intro _
      exact ⟨pid, t.loop.lastId, hpid, hcw, hspawned, .inl ⟨_, ha.mem_own.2 (.inr rfl), rfl⟩⟩
    case reaped =>
      intro hst
      rw [hstate] at hst
      cases hst
    case stdin =>
      intro p hp
      rw [hin] at hp
      split at hp
      · cases hp
        exact hspawned
      · cases hp

theorem Custody.adopted {h : Nat} {e : Execution} {pid : Int} {before after : List Entry}
    (hc : Custody ⟨s, held, rs⟩ log) (ha : Adopted s t h e pid)
    (hbefore : ∀ e ∈ before, e.isPlain = true) (hafter : ∀ e ∈ after, e.isPlain = true) :
    Custody ⟨t, held, rs⟩ (after ++ .spawned h ((s.handle h).generation + 1) pid :: (before ++ log)) := by
  have htold : ∀ {i g st}, Told i g st log →
      Told i g st (after ++ .spawned h ((s.handle h).generation + 1) pid :: (before ++ log)) := by
    intro i g st ht
    have := ht.append (after ++ .spawned h ((s.handle h).generation + 1) pid :: before)
    simpa using this
  constructor
  case sound => exact ha.sound hc.sound
  case handle => exact ha.minds hc
  case untold =>
    intro w hw i g hcb hn
    rw [Supervisor.collected, heard_spawned hbefore hafter]
    rcases ha.mem_own.1 hw with hw | rfl
    · have := hc.untold w hw i g hcb hn
      rw [Supervisor.collected] at this
      simp [this]
    · simp
  case reaper =>
    intro i g p hp
    rw [answered, heard_spawned hbefore hafter]
    by_cases hpp : p = pid
    · exact .inr ⟨_, ha.mem_own.2 (.inr rfl), hpp.symm, rfl⟩
    · have hp : Entry.spawned i g p ∈ log := (mem_spawned hbefore hafter hp).resolve_left hpp
      rcases hc.reaper i g p hp with hans | ⟨w, hw, hwp, hn⟩
      · rw [answered] at hans
        have : pid ≠ p := fun h => hpp h.symm
        exact .inl (by simp [this, hans])
      · exact .inr ⟨w, ha.mem_own.2 (.inl hw), hwp, hn⟩
  case ward =>
    intro w hw i g hcb
    rcases ha.mem_own.1 hw with hw | rfl
    · obtain ⟨hbears, ht⟩ := hc.ward w hw i g hcb
      refine ⟨?_, fun st hst => htold (ht st hst)⟩
      intro hn
      have hopen : Supervisor.collected w.pid (before ++ log) = false := by
        rw [Supervisor.collected, heard_aside fun e he => Entry.isAside_of_isPlain (hbefore e he)]
        exact hc.untold w hw i g hcb hn
      exact ((hbears hn).append (spawned_not_mem_plain hbefore)).spawned hopen
        (spawned_not_mem_plain hafter)
    · cases hcb
      exact ⟨fun _ => .of_spawned (spawned_not_mem_plain hafter), fun st hst => by cases hst⟩
  case reaping => exact fun x hx => htold (hc.reaping x hx)

/-! ## Closing -/

/-- Of the own wards, a handle that is closed lets go of its own one only. -/
theorem Custody.eq_childWatch (hc : Custody ⟨s, held, rs⟩ log) {h : Nat} {w : Ward} (hw : w ∈ s.loop.own)
    (hid : w.id ∈ (s.handle h).watches) : (s.handle h).childWatch = some w.id := by
  have hpipe : ∀ st p, (s.handle h).pipe st = some p → p.watch ≠ w.id := by
    intro st p hp he
    exact hc.sound.apart p.watch (.inr (.inr ⟨h, st, p, hp, rfl⟩)) w hw he.symm
  unfold Handle.watches at hid
  rcases List.mem_append.1 hid with hid | hid
  · exfalso
    rcases List.mem_append.1 hid with hid | hid
    · obtain ⟨p, hp, hpw⟩ := List.mem_map.1 hid
      exact hpipe .out p (Option.mem_toList.1 hp) hpw
    · obtain ⟨p, hp, hpw⟩ := List.mem_map.1 hid
      exact hpipe .err p (Option.mem_toList.1 hp) hpw
  · exact Option.mem_toList.1 hid

/-- A ward reports to one handle, so another handle keeps its own. -/
theorem Custody.kept_ward (hc : Custody ⟨s, held, rs⟩ log) {h i : Nat} (hi : i ≠ h) {w : Ward}
    (hw : w ∈ s.loop.own) (hcw : (s.handle i).childWatch = some w.id) : w.id ∉ (s.handle h).watches := by
  intro hmem
  have hcb := (((hc.handle h).child w.id (hc.eq_childWatch hw hmem)).2.2 w hw rfl).1
  have hcb' := (((hc.handle i).child w.id hcw).2.2 w hw rfl).1
  rw [hcb] at hcb'
  injection hcb' with hih
  exact hi hih.symm

theorem Closed.own_of_le {h : Nat} (hcl : Closed s t h) {k : Ward} (hk : k ∈ t.loop.own)
    (hle : k.id ≤ s.loop.lastId) : k ∈ s.loop.own := by
  rcases hcl.mem_own.1 hk with ⟨hk, -⟩ | ⟨p, hp, rfl⟩
  · exact hk
  · have := hcl.lastId_lt hp
    dsimp only at hle
    omega

theorem Closed.sound {h : Nat} (hcl : Closed s t h) (hs : Scene.Sound ⟨s, held, rs⟩) :
    Scene.Sound ⟨t, held, rs⟩ := by
  have hnone : ∀ st, (t.handle h).pipe st = none := by
    intro st
    cases st with
    | out => exact congrArg Life.out hcl.handle
    | err => exact congrArg Life.err hcl.handle
  have hpipe : ∀ i st p, (t.handle i).pipe st = some p → (s.handle i).pipe st = some p := by
    intro i st p hp
    by_cases hi : i = h
    · rw [hi, hnone] at hp
      cases hp
    · rw [hcl.others i hi] at hp
      exact hp
  exact sound_onward hs (hcl.tidy hs.tidy) hcl.lastId_le
    (fun id hid => .inl (claims_of_pipes hcl.tags hpipe id hid))
    fun k hk hle => ⟨k, hcl.own_of_le hk hle, rfl⟩

/-- The handle that is closed minds nobody any more, and the others go on as before. -/
theorem Closed.minds {h : Nat} (hc : Custody ⟨s, held, rs⟩ log) (hcl : Closed s t h) (i : Nat)
    (es : List Entry) : Minds t.loop rs (es ++ log) i (t.handle i) := by
  by_cases hi : i = h
  · subst hi
    obtain ⟨hstate, -, -, -, -, hin, -, -, hcw⟩ := Life.mk.inj hcl.handle
    constructor
    case child =>
      intro id hid
      rw [hcw] at hid
      cases hid
    case running =>
      intro hrun
      rw [hstate] at hrun
      cases hrun
    case reaped =>
      intro hst
      rw [hstate] at hst
      cases hst
    case stdin =>
      intro p hp
      rw [hin] at hp
      cases hp
  · rw [hcl.others i hi]
    exact (hc.handle i).onward ⟨hcl.lastId_le, ⟨es, rfl⟩,
      fun k hk hle => ⟨k, hcl.own_of_le hk hle, rfl, rfl, rfl⟩,
      fun k hk hcw => .inl ⟨k, hcl.mem_own.2 (.inl ⟨hk, hc.kept_ward hi hk hcw⟩), rfl⟩,
      fun _ _ _ hx => hx⟩ (.refl _)

theorem Custody.closed {h : Nat} {es : List Entry} (hc : Custody ⟨s, held, rs⟩ log) (hcl : Closed s t h)
    (he : ∀ e ∈ es, e.isPlain = true) : Custody ⟨t, held, rs⟩ (es ++ log) := by
  have haside : ∀ e ∈ es, e.isAside = true := fun e h => Entry.isAside_of_isPlain (he e h)
  constructor
  case sound => exact hcl.sound hc.sound
  case handle => exact fun i => hcl.minds hc i es
  case untold =>
    intro w hw i g hcb hn
    rw [Supervisor.collected, heard_aside haside]
    rcases hcl.mem_own.1 hw with ⟨hw, -⟩ | ⟨p, hp, rfl⟩
    · exact hc.untold w hw i g hcb hn
    · cases hcb
  case reaper =>
    intro i g p hp
    rw [answered, heard_aside haside]
    rcases hc.reaper i g p (mem_spawned_aside haside hp) with hans | ⟨w, hw, hwp, hn⟩
    · exact .inl hans
    · by_cases hmem : w.id ∈ (s.handle h).watches
      · -- the ward of a child that runs is let go of, and a detached one takes its place
        obtain ⟨-, hrun, hown⟩ := (hc.handle h).child w.id (hc.eq_childWatch hw hmem)
        have hleft : (s.handle h).left? = some p := by
          rw [Handle.left?, if_pos hrun, ← hwp]
          exact (hown w hw rfl).2
        exact .inr ⟨_, hcl.mem_own.2 (.inr ⟨p, hleft, rfl⟩), rfl, rfl⟩
      · exact .inr ⟨w, hcl.mem_own.2 (.inl ⟨hw, hmem⟩), hwp, hn⟩
  case ward =>
    intro w hw i g hcb
    rcases hcl.mem_own.1 hw with ⟨hw, -⟩ | ⟨p, hp, rfl⟩
    · obtain ⟨hbears, ht⟩ := hc.ward w hw i g hcb
      exact ⟨fun hn => (hbears hn).append (spawned_not_mem_plain he),
        fun st hst => (ht st hst).append es⟩
    · cases hcb
  case reaping => exact fun x hx => (hc.reaping x hx).append es

/-! ## Every effect -/

/-- Each effect keeps custody, of the log that it leaves behind. -/
theorem Custody.effect (hc : Custody σ log) (h : Effect o σ τ) :
    ∃ news, τ.machine.journal = news ++ σ.machine.journal ∧ Custody τ (news ++ log) := by
  rcases effect_cases h hc.sound with ⟨hq, es, he, haside⟩ | hch
  · exact ⟨es, he, hc.quiet hq haside⟩
  · cases hch with
    | collected => exact ⟨_, journal_collect _, hc.collected⟩
    | taken time k st hk hst => exact ⟨[_], rfl, hc.taken time hk hst⟩
    | @adopted s t held rs i c e pid ha ho he hk hs =>
      obtain ⟨before, after, hj, hb, ha'⟩ := ha.journal
      refine ⟨after ++ .spawned i ((s.handle i).generation + 1) pid :: before, ?_, ?_⟩
      · rw [hj]
        simp
      · have := hc.adopted ha hb ha'
        simpa using this
    | closed hcl hlive ho hs hrs =>
      obtain ⟨es, he, hp⟩ := hcl.journal
      exact ⟨es, he, hc.closed hcl hp⟩
    | reaped h pid st hx hrun => exact ⟨[], rfl, hc.handed hx hrun⟩

end Overseer.Machine
