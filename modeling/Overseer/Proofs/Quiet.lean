import Overseer.Proofs.SpawnAndClose

/-!
# Quiet effects

Most effects tell nothing new of any child: the supervisor's own wards are as they were, each handle
has the life it had but for pipes let go of, and only stale reaps are given up.

    own l        =  the wards of l that report to a handle or are detached
    Claims σ id  =  a call under way, a tag or a pipe may forget the watch id
    Sound σ      =  numbers are given once, and no own ward is claimed by anyone else

Main statement: `effect_cases` (an effect is quiet, or one of five changes).
-/

namespace Overseer

open Supervisor
open Kernel (Stream)

namespace Supervisor

/-- Entries that do not change which children there are, nor what is known of them. -/
def Entry.isAside : Entry → Bool
  | .signalled .. => true
  | e => e.isPlain

theorem Entry.isAside_of_isPlain {e : Entry} (h : e.isPlain = true) : e.isAside = true := by
  cases e <;> first | rfl | exact h

theorem heard_aside {good : Kernel.Wait → Bool} {pid : Int} {es log : List Entry}
    (he : ∀ e ∈ es, e.isAside = true) : heard good pid (es ++ log) = heard good pid log := by
  induction es with
  | nil => rfl
  | cons e es ih =>
    have hrest := ih fun x hx => he x (List.mem_cons_of_mem _ hx)
    have hfirst : e.isAside = true := he e List.mem_cons_self
    rw [← hrest, List.cons_append]
    cases e with
    | spawned h g p => cases hfirst
    | asked p a => cases hfirst
    | _ => rfl

/-- A spawn stands in the older part when the newer one is aside. -/
theorem mem_spawned_aside {h g : Nat} {p : Int} {es log : List Entry}
    (he : ∀ e ∈ es, e.isAside = true) (hm : Entry.spawned h g p ∈ es ++ log) :
    Entry.spawned h g p ∈ log := by
  rcases List.mem_append.1 hm with hm | hm
  · cases he _ hm
  · exact hm

end Supervisor

namespace Loop

def own (l : Loop Callback) : List Ward := l.wards.filter Ward.isOwn

theorem mem_own {l : Loop Callback} {k : Ward} : k ∈ l.own ↔ k ∈ l.wards ∧ k.isOwn = true :=
  List.mem_filter

theorem own_of_wards {l l' : Loop Callback} (h : l'.wards = l.wards) : l'.own = l.own := by
  rw [own, own, h]

/-- Forgetting a watch that is nobody's own ward. -/
theorem own_erase {l : Loop Callback} {id : Nat} (h : ∀ k ∈ l.own, k.id ≠ id) :
    (l.erase id).own = l.own := by
  unfold own at *
  rw [wards_erase, List.filter_filter]
  refine List.filter_congr fun k hk => ?_
  by_cases ho : k.isOwn = true
  · simp [ho, h k (List.mem_filter.2 ⟨hk, ho⟩)]
  · simp [ho]

theorem own_insert {l : Loop Callback} {priority : Priority} {src : Source Callback}
    (h : ∀ k, Watch.ward? ⟨l.lastId + 1, priority, src⟩ = some k → k.isOwn = false) :
    (l.insert priority src).2.own = l.own := by
  rw [own, wards_insert, List.filter_append]
  cases hk : Watch.ward? ⟨l.lastId + 1, priority, src⟩ with
  | none => simp [own]
  | some k => simp [own, h k hk]

end Loop

/-- Some call under way, tag or pipe may forget this watch. -/
def Scene.Claims (σ : Scene) (id : Nat) : Prop :=
  id ∈ σ.held ∨ id ∈ σ.machine.tags.map (·.2) ∨
    ∃ h st p, (σ.machine.handle h).pipe st = some p ∧ p.watch = id

structure Scene.Sound (σ : Scene) : Prop where
  tidy : σ.machine.loop.Tidy
  le : ∀ id, σ.Claims id → id ≤ σ.machine.loop.lastId
  apart : ∀ id, σ.Claims id → ∀ k ∈ σ.machine.loop.own, k.id ≠ id

namespace Machine

/-- The same handle, perhaps with fewer pipes. -/
structure Fewer (x y : Handle) : Prop where
  state : y.state = x.state
  generation : y.generation = x.generation
  pid : y.pid = x.pid
  target : y.target = x.target
  status : y.status = x.status
  childWatch : y.childWatch = x.childWatch
  stdin : ∀ p, y.stdin = some p → x.stdin = some p
  pipe : ∀ st p, y.pipe st = some p → x.pipe st = some p

structure Quiet (σ τ : Scene) : Prop where
  tidy : τ.machine.loop.Tidy
  lastId : σ.machine.loop.lastId ≤ τ.machine.loop.lastId
  own : τ.machine.loop.own = σ.machine.loop.own
  claims : ∀ id, τ.Claims id → σ.Claims id ∨
    (id ≤ τ.machine.loop.lastId ∧ ∀ k ∈ σ.machine.loop.own, k.id ≠ id)
  handles : ∀ h, Fewer (σ.machine.handle h) (τ.machine.handle h)
  reapings : ∀ x ∈ τ.reapings, x ∈ σ.reapings
  stale : ∀ x ∈ σ.reapings, x ∈ τ.reapings ∨
    ¬ ((σ.machine.handle x.h).state = .running ∧ (σ.machine.handle x.h).generation = x.g)

/-- What tells something new of a child. -/
inductive Change (o : Machine) : Scene → Scene → Prop
  | collected {s : Machine} {held : List Nat} {rs : List Reaping} :
      Change o ⟨s, held, rs⟩ ⟨s.collect, held, rs⟩
  | taken {s : Machine} {held : List Nat} {rs : List Reaping} (time : Nat) (k : Ward)
      (st : ExitStatus) (hk : k ∈ s.loop.wards) (hst : k.status = some st) :
      Change o ⟨s, held, rs⟩
        ⟨Machine.record { s with loop := s.loop.erase k.id } (.started time k.id (.child k.pid st)),
          held, k.callback.reapings k.pid st ++ rs⟩
  | adopted {s t : Machine} {held : List Nat} {rs : List Reaping} {h : Nat} {c : Command}
      {e : Execution} {pid : Int} (ha : Adopted s t h e pid) (ho : o.spawning? = some c)
      (he : e.newGroup = c.flags.contains Command.Flags.newGroup) (hk : pid = o.kernel.nextPid)
      (hs : SameChildren o s) : Change o ⟨s, held, rs⟩ ⟨t, held, rs⟩
  | closed {s t : Machine} {held : List Nat} {rs : List Reaping} {h : Nat} (hc : Closed s t h)
      (hlive : (s.handle h).state = .running ∨ (s.handle h).state = .reaped)
      (ho : (s.handle h).state = .running → h ∈ o.closing) (hs : SameChildren o s)
      (hrs : rs = o.reapings) : Change o ⟨s, held, rs⟩ ⟨t, held, rs⟩
  | reaped {s : Machine} {held : List Nat} {rs : List Reaping} (h : Nat) (pid : Int)
      (st : ExitStatus) (hx : ⟨h, (s.handle h).generation, pid, st⟩ ∈ rs)
      (hrun : (s.handle h).state = .running) :
      Change o ⟨s, held, rs⟩
        ⟨s.mapHandle h fun x => { x with state := .reaped, status := some st, childWatch := none },
          held, rs⟩

/-! ## Lemmas -/

theorem Fewer.refl (x : Handle) : Fewer x x :=
  ⟨rfl, rfl, rfl, rfl, rfl, rfl, fun _ h => h, fun _ _ h => h⟩

theorem Fewer.of_life {x y : Handle} (h : y.life = x.life) : Fewer x y := by
  obtain ⟨h1, h2, h3, h4, h5, h6, h7, h8, h9⟩ := Life.mk.inj h
  refine ⟨h1, h2, h3, h4, h5, h9, fun p hp => by rw [← h6]; exact hp, ?_⟩
  intro st p hp
  cases st with
  | out => exact h7.symm.trans hp
  | err => exact h8.symm.trans hp

theorem fewer_dropPipe (x : Handle) (st : Stream) : Fewer x (x.dropPipe st) := by
  cases st with
  | out =>
    refine ⟨rfl, rfl, rfl, rfl, rfl, rfl, fun _ h => h, ?_⟩
    intro st p hp
    cases st with
    | out => cases hp
    | err => exact hp
  | err =>
    refine ⟨rfl, rfl, rfl, rfl, rfl, rfl, fun _ h => h, ?_⟩
    intro st p hp
    cases st with
    | out => exact hp
    | err => cases hp

theorem fewer_mapHandle (s : Machine) (h i : Nat) {f : Handle → Handle} (hf : ∀ x, Fewer x (f x)) :
    Fewer (s.handle i) ((s.mapHandle h f).handle i) := by
  rw [handle_mapHandle]
  split
  · next hi =>
    rw [hi.1]
    exact hf _
  · exact .refl _

variable {o s t : Machine} {held : List Nat} {rs rs' : List Reaping}

/-- Claims of a scene with the same claimed numbers and handles with fewer pipes. -/
theorem claims_of_pipes (ht : t.tags = s.tags)
    (hh : ∀ h st p, (t.handle h).pipe st = some p → (s.handle h).pipe st = some p) (id : Nat)
    (hc : Scene.Claims ⟨t, held, rs'⟩ id) : Scene.Claims ⟨s, held, rs⟩ id := by
  rcases hc with h | h | ⟨h, st, p, hp, hid⟩
  · exact .inl h
  · rw [ht] at h
    exact .inr (.inl h)
  · exact .inr (.inr ⟨h, st, p, hh h st p hp, hid⟩)

/-- A change of the registry and of pipes that leaves the own wards alone. -/
theorem quiet_of_own (ht : t.loop.Tidy) (hle : s.loop.lastId ≤ t.loop.lastId)
    (ho : t.loop.own = s.loop.own) (htags : t.tags = s.tags)
    (hh : ∀ h, Fewer (s.handle h) (t.handle h)) : Quiet ⟨s, held, rs⟩ ⟨t, held, rs⟩ :=
  ⟨ht, hle, ho, fun id hc => .inl (claims_of_pipes htags (fun h => (hh h).pipe) id hc), hh, fun _ hx => hx,
    fun _ hx => .inl hx⟩

/-- An entry alone is quiet. -/
theorem quiet_record (ht : s.loop.Tidy) (e : Entry) :
    Quiet ⟨s, held, rs⟩ ⟨s.record e, held, rs⟩ :=
  quiet_of_own ht (Nat.le_refl _) rfl rfl fun _ => .refl _

theorem Still.alike (h : Still s t) : Loop.Alike s.loop t.loop :=
  ⟨h.lastId, by rw [h.watches]⟩

theorem quiet_still (h : Still s t) (ht : s.loop.Tidy) : Quiet ⟨s, held, rs⟩ ⟨t, held, rs⟩ :=
  quiet_of_own (h.alike.tidy ht) (Nat.le_of_eq h.lastId.symm) (Loop.own_of_wards h.alike.wards) h.tags
    fun i => .of_life (h.life i)

/-- A new number is claimed by nobody else. -/
theorem quiet_insert {priority : Loop.Priority} {src : Loop.Source Callback}
    (hsrc : ∀ k, Loop.Watch.ward? ⟨s.loop.lastId + 1, priority, src⟩ = some k → k.isOwn = false)
    (ht : s.loop.Tidy) :
    Quiet ⟨s, held, rs⟩ ⟨(s.addWatch priority src).2, (s.loop.lastId + 1) :: held, rs⟩ := by
  refine ⟨ht.insert priority src, Nat.le_succ _, Loop.own_insert hsrc, fun id hc => ?_,
    fun _ => .refl _, fun _ hx => hx, fun _ hx => .inl hx⟩
  rcases hc with hc | hc
  · rcases List.mem_cons.1 hc with rfl | hc
    · refine .inr ⟨Nat.le_refl _, ?_⟩
      intro k hk hid
      have := ht.le _ (Loop.id_mem_ids (Loop.mem_own.1 hk).1)
      omega
    · exact .inl (.inl hc)
  · exact .inl (.inr hc)

theorem mem_upsert {tag : String} {id i : Nat} {tags : List (String × Nat)}
    (h : i ∈ (Command.upsert tag id tags).map (·.2)) : i = id ∨ i ∈ tags.map (·.2) := by
  induction tags with
  | nil => exact .inl (by simpa [Command.upsert] using h)
  | cons r tags ih =>
    unfold Command.upsert at h
    split at h
    · rcases List.mem_cons.1 h with h | h
      · exact .inl h
      · exact .inr (List.mem_cons_of_mem _ h)
    · rcases List.mem_cons.1 h with h | h
      · exact .inr (by rw [h]; exact List.mem_cons_self)
      · rcases ih h with h | h
        · exact .inl h
        · exact .inr (List.mem_cons_of_mem _ h)

theorem quiet_releaseStream {h : Nat} {st : Stream} (hs : Scene.Sound ⟨s, held, rs⟩) :
    Quiet ⟨s, held, rs⟩ ⟨s.releaseStream h st, held, rs⟩ := by
  unfold releaseStream
  split
  · exact quiet_of_own hs.tidy (Nat.le_refl _) rfl rfl fun _ => .refl _
  · next p hp =>
    have hclaim : Scene.Claims ⟨s, held, rs⟩ p.watch := .inr (.inr ⟨h, st, p, hp, rfl⟩)
    refine quiet_of_own (hs.tidy.erase p.watch) (Nat.le_refl _) (Loop.own_erase (hs.apart _ hclaim)) rfl ?_
    exact fun i => fewer_mapHandle s h i fun x => fewer_dropPipe x st

theorem quiet_closeStdin {h : Nat} (ht : s.loop.Tidy) :
    Quiet ⟨s, held, rs⟩ ⟨s.closeStdin h, held, rs⟩ := by
  obtain ⟨hloop, htags, -, -, hothers, hself⟩ := closeStdin_spec s h
  refine quiet_of_own (by rw [hloop]; exact ht) (Nat.le_of_eq (by rw [hloop]))
    (by rw [hloop]) htags fun i => ?_
  by_cases hi : i = h
  · rw [hi, hself]
    refine ⟨rfl, rfl, rfl, rfl, rfl, rfl, ?_, ?_⟩
    · intro p hp
      cases hp
    · intro st p hp
      cases st with
      | out => exact hp
      | err => exact hp
  · rw [hothers i hi]
    exact .refl _

/-- A watch that is not on a child may be lent out. -/
theorem quiet_lent {w : Loop.Watch Callback} (hw : w ∈ s.loop.watches) (hn : w.ward? = none)
    (ht : s.loop.Tidy) : Quiet ⟨s, held, rs⟩ ⟨s, w.id :: held, rs⟩ := by
  refine ⟨ht, Nat.le_refl _, rfl, ?_, fun _ => .refl _, fun _ hx => hx, fun _ hx => .inl hx⟩
  intro id hc
  rcases hc with hc | hc
  · rcases List.mem_cons.1 hc with rfl | hc
    · refine .inr ⟨ht.le _ (List.mem_map_of_mem hw), ?_⟩
      intro k hk hid
      obtain ⟨v, hv, hvk⟩ := Loop.mem_wards.1 (Loop.mem_own.1 hk).1
      have hvw : v = w := Loop.eq_of_id_eq ht hv hw (by rw [← hid, Loop.ward?_id hvk])
      rw [hvw, hn] at hvk
      cases hvk
    · exact .inl (.inl hc)
  · exact .inl (.inr hc)

/-- An effect is quiet, and then the journal gets nothing but entries that are aside, or it is one of
the five changes. -/
theorem effect_cases {σ τ : Scene} (h : Effect o σ τ) (hs : σ.Sound) :
    (Quiet σ τ ∧ ∃ es, τ.machine.journal = es ++ σ.machine.journal ∧ ∀ e ∈ es, e.isAside = true) ∨
      Change o σ τ := by
  have ht := hs.tidy
  cases h with
  | still hst => exact .inl ⟨quiet_still hst ht, [], hst.journal, by simp⟩
  | recorded e he =>
    exact .inl ⟨quiet_record ht e, [e], rfl, by simpa using Entry.isAside_of_isPlain he⟩
  | signalled h sig r ho hsame hrs hrun =>
    exact .inl ⟨quiet_record ht _, [_], rfl, by simp [Entry.isAside]⟩
  | added priority src hsrc =>
    refine .inl ⟨quiet_insert (fun k hk => ?_) ht, [_], rfl, by simp [Entry.isAside, Entry.isPlain]⟩
    cases src with
    | child pid fd st cb => exact absurd rfl (hsrc pid fd st cb)
    | _ => cases hk
  | watched pid priority x ho =>
    refine .inl ⟨quiet_insert (fun k hk => ?_) ht, [_], rfl, by simp [Entry.isAside, Entry.isPlain]⟩
    cases hk
    rfl
  | tagged tag id hid =>
    refine .inl ⟨⟨ht, Nat.le_refl _, rfl, fun i hc => .inl ?_, fun _ => .refl _, fun _ hx => hx,
      fun _ hx => .inl hx⟩, [], rfl, by simp⟩
    rcases hc with hc | hc | hc
    · exact .inl hc
    · rcases mem_upsert hc with rfl | hc
      · exact .inl hid
      · exact .inr (.inl hc)
    · exact .inr (.inr hc)
  | @forgotten s held rs id hid =>
    have hclaim : Scene.Claims ⟨s, held, rs⟩ id := hid.elim .inl fun h => .inr (.inl h)
    exact .inl ⟨quiet_of_own (ht.erase id) (Nat.le_refl _) (Loop.own_erase (hs.apart id hclaim)) rfl
      fun _ => .refl _, [], rfl, by simp⟩
  | released h st =>
    refine .inl ⟨quiet_releaseStream hs, ?_⟩
    dsimp only
    unfold releaseStream
    split
    · exact ⟨[], rfl, by simp⟩
    · exact ⟨[_], rfl, by simp [Entry.isAside, Entry.isPlain]⟩
  | inputClosed h =>
    exact .inl ⟨quiet_closeStdin ht, [], (closeStdin_spec _ h).2.2.1, by simp⟩
  | lent w hw hn => exact .inl ⟨quiet_lent hw hn ht, [], rfl, by simp⟩
  | retouched l hl =>
    exact .inl ⟨quiet_of_own (hl.tidy ht) (Nat.le_of_eq hl.lastId.symm) (Loop.own_of_wards hl.wards)
      rfl fun _ => .refl _, [], rfl, by simp⟩
  | collected => exact .inr .collected
  | @taken s held rs time w pid fd st cb hw hsrc =>
    have hk : w.ward? = some ⟨w.id, pid, some st, cb⟩ := by rw [Loop.Watch.ward?, hsrc]
    exact .inr (.taken time ⟨w.id, pid, some st, cb⟩ st
      (Loop.mem_wards.2 ⟨w, (Loop.find?_spec hw).1, hk⟩) rfl)
  | adopted h c e pid ho he hk hsame => exact .inr (.adopted (adopted_adopt _ h c e pid) ho he hk hsame)
  | @closed s held rs h ho hsame hrs =>
    by_cases hlive : (s.handle h).state = .running ∨ (s.handle h).state = .reaped
    · exact .inr (.closed (closed_close s hlive) hlive ho hsame hrs)
    · rw [close_eq_self s hlive]
      exact .inl ⟨quiet_of_own ht (Nat.le_refl _) rfl rfl fun _ => .refl _, [], rfl, by simp⟩
  | reaped h pid st hx hrun => exact .inr (.reaped h pid st hx hrun)
  | dropped hsub =>
    refine .inl ⟨⟨ht, Nat.le_refl _, rfl, fun id hc => .inl ?_, fun _ => .refl _, fun _ hx => hx,
      fun _ hx => .inl hx⟩, [], rfl, by simp⟩
    exact hc.elim (fun h => .inl (hsub id h)) .inr
  | shed hsub hstale =>
    exact .inl ⟨⟨ht, Nat.le_refl _, rfl, fun _ hc => .inl hc, fun _ => .refl _, hsub, hstale⟩, [], rfl,
      by simp⟩

end Machine

end Overseer
