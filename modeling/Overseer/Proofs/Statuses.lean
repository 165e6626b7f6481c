import Mathlib.Data.List.Perm.Basic
import Overseer.Proofs.ParkedStatuses
import Overseer.Proofs.Reapers

/-!
# Every exit is handed over once

On a loop whose child watches are all made by handles, what waitpid has told is parked on a watch or
has been passed to one callback, and no pid is asked about again after its end.  The one thing that
breaks this is to close a handle that has an exit in hand.

    Tended s     =  the next step watches no child for the user, and gives no pid on which an open
                    ward waits
    Orderly s    =  moreover it closes no handle with an exit in hand

    handed log ~ parked wards ++ passed log,  and each question stands behind no end of its pid

Main statement: `exits_handed_once`.
-/

namespace Overseer

open Supervisor

namespace Machine

def watchesChild (s : Machine) : Bool :=
  match s.control with
  | .perform (.childWatch ..) => true
  | _ => false

/-- The next step watches no child for the user, and starts no child under a pid on which an open
ward waits. -/
structure Tended (s : Machine) : Prop where
  own : s.watchesChild = false
  fresh : s.spawning?.isSome = true → s.kernel.nextPid ∉ openPids s.loop.wards

/-- Moreover it closes no handle that runs with its exit in hand. -/
structure Orderly (s : Machine) : Prop extends Tended s where
  closing : ∀ h ∈ s.closing, (s.handle h).state = .running → s.exitInHand h = false

instance : DecidablePred Tended := fun s =>
  decidable_of_iff (s.watchesChild = false ∧
    (s.spawning?.isSome = true → s.kernel.nextPid ∉ openPids s.loop.wards))
    ⟨fun h => ⟨h.1, h.2⟩, fun h => ⟨h.own, h.fresh⟩⟩

instance : DecidablePred Orderly := fun s =>
  decidable_of_iff (Tended s ∧
    ∀ h ∈ s.closing, (s.handle h).state = .running → s.exitInHand h = false)
    ⟨fun h => ⟨h.1, h.2⟩, fun h => ⟨h.toTended, h.closing⟩⟩

/-- Every status that was handed over is parked or passed on, and every open ward waits for a pid of
its own that is not collected. -/
structure Settled (σ : Scene) (log : List Entry) : Prop where
  own : ∀ k ∈ σ.machine.loop.wards, k.isOwn = true
  distinct : (openPids σ.machine.loop.wards).Nodup
  untold : ∀ p ∈ openPids σ.machine.loop.wards, collected p log = false
  once : OnceAsked log
  conserved : (handed log).Perm (parked σ.machine.loop.wards ++ passed log)

variable {o s t : Machine} {σ τ : Scene} {held : List Nat} {rs : List Reaping} {log : List Entry}

theorem own_effect (hno : o.watchesChild = false)
    (hown : ∀ k ∈ σ.machine.loop.wards, k.isOwn = true) (h : Effect o σ τ) :
    ∀ k ∈ τ.machine.loop.wards, k.isOwn = true := by
  cases h with
  | @still s t held rs hst =>
    dsimp only at *
    rw [hst.alike.wards]
    exact hown
  | @added s held rs priority src hsrc =>
    have hwards := (aside_addWatch s priority hsrc).wards
    dsimp only at *
    rw [hwards]
    exact hown
  | watched pid priority x ho =>
    rw [watchesChild, ho] at hno
    cases hno
  | forgotten id hid => exact fun k hk => hown k (Loop.mem_wards_erase.1 hk).1
  | released i st =>
    dsimp only
    unfold releaseStream
    split
    · exact hown
    · exact fun k hk => hown k (Loop.mem_wards_erase.1 hk).1
  | @inputClosed s held rs i =>
    have hloop := (closeStdin_spec s i).1
    dsimp only at *
    rw [hloop]
    exact hown
  | @retouched s held rs l hl =>
    intro k hk
    have hk : k ∈ l.wards := hk
    rw [hl.wards] at hk
    exact hown k hk
  | collected =>
    intro k hk
    rcases Loop.collect_ward hk with ⟨hk, -⟩ | ⟨w, hw, -, a, -, -, rfl⟩
    · exact hown k hk
    · exact hown w hw
  | taken time w pid fd st cb hw hsrc => exact fun k hk => hown k (Loop.mem_wards_erase.1 hk).1
  | @adopted s held rs i c e pid ho he hk hs =>
    have hwards := (adopted_adopt s i c e pid).wards
    dsimp only at *
    rw [hwards]
    intro k hk
    rcases List.mem_append.1 hk with hk | hk
    · exact hown k hk
    · rw [List.mem_singleton.1 hk]
      rfl
  | @closed s held rs i ho hs hrs =>
    by_cases hlive : (s.handle i).state = .running ∨ (s.handle i).state = .reaped
    · have hwards := (closed_close s hlive).wards
      dsimp only at *
      rw [hwards]
      intro k hk
      rcases List.mem_append.1 hk with hk | hk
      · exact hown k (List.mem_filter.1 hk).1
      · obtain ⟨p, -, rfl⟩ := List.mem_map.1 hk
        rfl
    · dsimp only
      rw [close_eq_self s hlive]
      exact hown
  | _ => exact hown

theorem own_eq_wards {l : Loop Callback} (h : ∀ k ∈ l.wards, k.isOwn = true) : l.own = l.wards :=
  List.filter_eq_self.2 h

theorem Settled.quiet {es : List Entry} (hs : Settled σ log) (hq : Quiet σ τ)
    (hown : ∀ k ∈ τ.machine.loop.wards, k.isOwn = true) (he : ∀ e ∈ es, e.isAside = true) :
    Settled τ (es ++ log) := by
  have hwards : τ.machine.loop.wards = σ.machine.loop.wards := by
    rw [← own_eq_wards hown, hq.own, own_eq_wards hs.own]
  constructor
  case own => exact hown
  case distinct => rw [hwards]; exact hs.distinct
  case untold =>
    intro p hp
    rw [collected, heard_aside he]
    exact hs.untold p (by rw [← hwards]; exact hp)
  case once => exact hs.once.aside he
  case conserved =>
    rw [handed_aside he, passed_aside he, hwards]
    exact hs.conserved

theorem mem_openPids {ws : List Ward} {p : Int} :
    p ∈ openPids ws ↔ ∃ k ∈ ws, k.pid = p ∧ k.status = none := by
  unfold openPids
  rw [List.mem_filterMap]
  refine exists_congr fun k => and_congr_right fun _ => ?_
  unfold Ward.open?
  cases k.status <;> simp

theorem Settled.collected (hs : Settled ⟨s, held, rs⟩ log)
    (hown : ∀ k ∈ s.collect.loop.wards, k.isOwn = true) :
    Settled ⟨s.collect, held, rs⟩ (questions (s.loop.asks s.kernel) ++ log) := by
  constructor
  case own => exact hown
  case distinct =>
    exact hs.distinct.sublist (Loop.openPids_collectIn s.loop.watches s.kernel)
  case untold =>
    intro p hp
    have hbefore := hs.untold p ((Loop.openPids_collectIn s.loop.watches s.kernel).subset hp)
    obtain ⟨k, hk, rfl, hn⟩ := mem_openPids.1 hp
    rw [Supervisor.collected, heard_questions_append, Bool.or_eq_false_iff]
    refine ⟨List.any_eq_false.2 fun x hx => ?_, hbefore⟩
    by_cases hxp : x.1 = k.pid
    · have hend : x.2.isEnd = false := Loop.not_ended_of_open hk hn (by rw [← hxp]; exact hx)
      simp [hend]
    · simp [hxp]
  case once =>
    exact Loop.onceAsked_collectIn s.loop.watches s.kernel hs.once hs.distinct hs.untold
  case conserved =>
    rw [passed_questions]
    refine (handed_questions _ _).trans ?_
    have hcol := Loop.parked_collectIn s.loop.watches s.kernel
    refine (hs.conserved.append_left _).trans ?_
    rw [← List.append_assoc]
    exact hcol.symm.append_right _

theorem nodup_ids_wards {l : Loop Callback} (ht : l.Tidy) : (l.wards.map (·.id)).Nodup := by
  refine ht.nodup.sublist ?_
  unfold Loop.ids Loop.wards
  generalize l.watches = ws
  induction ws with
  | nil => exact .refl _
  | cons w r ih =>
    cases hw : w.ward? with
    | none =>
      rw [List.filterMap_cons_none hw]
      exact ih.cons _
    | some k =>
      rw [List.filterMap_cons_some hw, List.map_cons, List.map_cons, Loop.ward?_id hw]
      exact ih.cons_cons _

/-- A ward in front of the others. -/
theorem perm_cons_filter {ws : List Ward} {k : Ward} (hn : (ws.map (·.id)).Nodup) (hk : k ∈ ws) :
    ws.Perm (k :: ws.filter fun m => m.id != k.id) := by
  induction ws with
  | nil => cases hk
  | cons m r ih =>
    obtain ⟨hnot, hn⟩ := List.nodup_cons.1 hn
    rcases List.mem_cons.1 hk with rfl | hk
    · have hrest : r.filter (fun m => m.id != k.id) = r := by
        refine List.filter_eq_self.2 fun m hm => ?_
        have hne : m.id ≠ k.id := fun he => hnot (List.mem_map.2 ⟨m, hm, he⟩)
        simpa using hne
      rw [List.filter_cons_of_neg (by simp), hrest]
    · have hne : m.id ≠ k.id := fun he => hnot (List.mem_map.2 ⟨k, hk, he.symm⟩)
      rw [List.filter_cons_of_pos (by simpa using hne)]
      exact ((ih hn hk).cons m).trans (List.Perm.swap k m _)

/-- A status that is taken from its ward is passed to a callback. -/
theorem Settled.taken {k : Ward} {st : ExitStatus} (time : Nat) (hs : Settled ⟨s, held, rs⟩ log)
    (ht : s.loop.Tidy) (hk : k ∈ s.loop.wards) (hst : k.status = some st) :
    Settled ⟨Machine.record { s with loop := s.loop.erase k.id } (.started time k.id (.child k.pid st)),
      held, k.callback.reapings k.pid st ++ rs⟩ (.started time k.id (.child k.pid st) :: log) := by
  have hwards : (s.loop.erase k.id).wards = s.loop.wards.filter fun m => m.id != k.id :=
    Loop.wards_erase s.loop k.id
  have hperm := perm_cons_filter (nodup_ids_wards ht) hk
  have hopen : ∀ p, p ∈ openPids (s.loop.erase k.id).wards → p ∈ openPids s.loop.wards := by
    intro p hp
    rw [hwards] at hp
    exact ((List.filter_sublist).filterMap _).subset hp
  constructor
  case own => exact fun m hm => hs.own m (Loop.mem_wards_erase.1 hm).1
  case distinct =>
    show (openPids (s.loop.erase k.id).wards).Nodup
    rw [hwards]
    exact hs.distinct.sublist ((List.filter_sublist).filterMap _)
  case untold =>
    intro p hp
    exact hs.untold p (hopen p hp)
  case once =>
    exact hs.once.cons fun p a he => by cases he
  case conserved =>
    show (handed log).Perm (parked (s.loop.erase k.id).wards ++ (k.pid, st) :: passed log)
    have hparked : (parked s.loop.wards).Perm ((k.pid, st) :: parked (s.loop.erase k.id).wards) := by
      rw [hwards]
      have := hperm.filterMap Ward.parked?
      rwa [List.filterMap_cons_some (b := (k.pid, st)) (by rw [Ward.parked?, hst]; rfl)] at this
    refine (hs.conserved.trans (hparked.append_right _)).trans ?_
    exact List.perm_middle.symm

/-- A new child waits for a pid of its own. -/
theorem Settled.adopted {h : Nat} {e : Execution} {pid : Int} {before after : List Entry}
    (hs : Settled ⟨s, held, rs⟩ log) (ha : Adopted s t h e pid) (hfresh : pid ∉ openPids s.loop.wards)
    (hown : ∀ k ∈ t.loop.wards, k.isOwn = true) (hbefore : ∀ e ∈ before, e.isPlain = true)
    (hafter : ∀ e ∈ after, e.isPlain = true) :
    Settled ⟨t, held, rs⟩ (after ++ .spawned h ((s.handle h).generation + 1) pid :: (before ++ log)) := by
  have hopen : openPids t.loop.wards = openPids s.loop.wards ++ [pid] := by
    rw [ha.wards, openPids_append]
    rfl
  have hparked : parked t.loop.wards = parked s.loop.wards := by
    rw [ha.wards, parked_append]
    exact List.append_nil _
  have hb : ∀ e ∈ before, e.isAside = true := fun e h => Entry.isAside_of_isPlain (hbefore e h)
  have hf : ∀ e ∈ after, e.isAside = true := fun e h => Entry.isAside_of_isPlain (hafter e h)
  constructor
  case own => exact hown
  case distinct =>
    rw [hopen]
    refine hs.distinct.append (List.nodup_singleton _) fun p hp hp' => ?_
    rw [List.mem_singleton.1 hp'] at hp
    exact hfresh hp
  case untold =>
    intro p hp
    dsimp only at hp
    rw [hopen] at hp
    rw [Supervisor.collected, heard_spawned hbefore hafter]
    rcases List.mem_append.1 hp with hp | hp
    · have := hs.untold p hp
      rw [Supervisor.collected] at this
      simp [this]
    · simp [List.mem_singleton.1 hp]
  case once =>
    exact ((hs.once.aside hb).cons fun p a he => by cases he).aside hf
  case conserved =>
    rw [handed_aside hf, passed_aside hf, hparked]
    show (handed (before ++ log)).Perm (parked s.loop.wards ++ passed (before ++ log))
    rw [handed_aside hb, passed_aside hb]
    exact hs.conserved

/-- A handle that runs and has no exit in hand has its ward, and the ward is open. -/
theorem open_ward_of_running {h : Nat} (hc : Custody ⟨s, held, rs⟩ log) (hsame : SameChildren o s)
    (hrs : rs = o.reapings) (hrun : (s.handle h).state = .running) (hno : o.exitInHand h = false) :
    ∃ k ∈ s.loop.own, (s.handle h).childWatch = some k.id ∧ (s.handle h).pid = some k.pid ∧
      k.status = none := by
  obtain ⟨p, id, hpid, hcw, -, hwhere⟩ := (hc.handle h).running hrun
  have hwards : s.loop.wards = o.loop.wards := by rw [Loop.wards, Loop.wards, hsame.watches]
  have hgen : (s.handle h).generation = (o.handle h).generation :=
    congrArg Life.generation (hsame.life h)
  unfold exitInHand at hno
  rw [Bool.or_eq_false_iff, ← hwards, ← hgen] at hno
  rcases hwhere with ⟨k, hk, rfl⟩ | ⟨st, hst⟩
  · obtain ⟨hcb, hkp⟩ := ((hc.handle h).child k.id hcw).2.2 k hk rfl
    refine ⟨k, hk, hcw, hkp, ?_⟩
    cases hst : k.status with
    | none => rfl
    | some st =>
      have hparks := List.any_eq_false.1 hno.1 k (Loop.mem_own.1 hk).1
      have hcb : k.callback = .reap h (s.handle h).generation := hcb
      simp [Ward.parks, hcb, hst] at hparks
  · subst hrs
    have := List.any_eq_false.1 hno.2 _ hst
    simp at this

theorem eq_of_openPids {ws : List Ward} (hn : (openPids ws).Nodup) {k m : Ward} (hk : k ∈ ws)
    (hm : m ∈ ws) (hks : k.status = none) (hms : m.status = none) (hp : k.pid = m.pid) : k = m := by
  induction ws with
  | nil => cases hk
  | cons w r ih =>
    rw [openPids_cons] at hn
    have hrest : (openPids r).Nodup := hn.sublist (List.sublist_append_right _ _)
    have hapart : ∀ v ∈ r, w.status = none → v.status = none → w.pid ≠ v.pid := by
      intro v hv hws hvs he
      rw [hws] at hn
      exact (List.nodup_cons.1 hn).1 (mem_openPids.2 ⟨v, hv, he.symm, hvs⟩)
    rcases List.mem_cons.1 hk with hkw | hkr
    · rcases List.mem_cons.1 hm with hmw | hmr
      · exact hkw.trans hmw.symm
      · exact absurd (by rw [← hkw, hp]) (hapart m hmr (by rw [← hkw]; exact hks) hms)
    · rcases List.mem_cons.1 hm with hmw | hmr
      · exact absurd (by rw [← hmw, hp]) (hapart k hkr (by rw [← hmw]; exact hms) hks)
      · exact ih hrest hkr hmr

/-- A ward that goes with a close is open. -/
theorem Settled.gone {h : Nat} (hs : Settled ⟨s, held, rs⟩ log) (hc : Custody ⟨s, held, rs⟩ log)
    (hsame : SameChildren o s) (hrs : rs = o.reapings)
    (hno : (s.handle h).state = .running → o.exitInHand h = false) {k : Ward} (hk : k ∈ s.loop.wards)
    (hid : k.id ∈ (s.handle h).watches) : k.status = none := by
  have hko : k ∈ s.loop.own := Loop.mem_own.2 ⟨hk, hs.own k hk⟩
  have hcw := hc.eq_childWatch hko hid
  obtain ⟨-, hrun, hmine⟩ := (hc.handle h).child k.id hcw
  obtain ⟨m, hm, hmcw, hmp, hmn⟩ := open_ward_of_running hc hsame hrs hrun (hno hrun)
  have hkm : k = m := by
    refine Loop.ward_eq_of_id_eq hc.sound.tidy hk (Loop.mem_own.1 hm).1 ?_
    exact Option.some.inj (hcw.symm.trans hmcw)
  rw [hkm]
  exact hmn

/-- The child that is left behind by a close had an open ward, which goes. -/
theorem left_ward {h : Nat} (hc : Custody ⟨s, held, rs⟩ log) (hsame : SameChildren o s)
    (hrs : rs = o.reapings) (hno : (s.handle h).state = .running → o.exitInHand h = false) {p : Int}
    (hp : (s.handle h).left? = some p) :
    ∃ k ∈ s.loop.wards, k.pid = p ∧ k.status = none ∧ k.id ∈ (s.handle h).watches := by
  unfold Handle.left? at hp
  split at hp
  · next hrun =>
    obtain ⟨k, hk, hcw, hkp, hn⟩ := open_ward_of_running hc hsame hrs hrun (hno hrun)
    refine ⟨k, (Loop.mem_own.1 hk).1, Option.some.inj (hkp.symm.trans hp), hn, ?_⟩
    unfold Handle.watches
    rw [hcw]
    exact List.mem_append_right _ List.mem_cons_self
  · cases hp

/-- A close that drops open wards only leaves what is parked as it was. -/
theorem Closed.parked {h : Nat} (hcl : Closed s t h)
    (hgone : ∀ k ∈ s.loop.wards, k.id ∈ (s.handle h).watches → k.status = none) :
    parked t.loop.wards = parked s.loop.wards := by
  rw [hcl.wards, parked_append, parked_detached, List.append_nil, Supervisor.parked,
    List.filterMap_filter]
  refine List.filterMap_congr fun k hk => ?_
  by_cases hid : k.id ∈ (s.handle h).watches
  · rw [Ward.parked?, hgone k hk hid]
    simp
  · simp [hid]

theorem Closed.openPids {h : Nat} (hcl : Closed s t h) : openPids t.loop.wards =
    openPids (s.loop.wards.filter fun k => !(s.handle h).watches.contains k.id) ++
      (s.handle h).left?.toList := by
  rw [hcl.wards, openPids_append, openPids_detached]

/-- Closing loses no status, as long as no exit is in hand. -/
theorem Settled.closed {h : Nat} {es : List Entry} (hs : Settled ⟨s, held, rs⟩ log)
    (hc : Custody ⟨s, held, rs⟩ log) (hcl : Closed s t h) (hsame : SameChildren o s)
    (hrs : rs = o.reapings) (hno : (s.handle h).state = .running → o.exitInHand h = false)
    (hown : ∀ k ∈ t.loop.wards, k.isOwn = true) (he : ∀ e ∈ es, e.isPlain = true) :
    Settled ⟨t, held, rs⟩ (es ++ log) := by
  have haside : ∀ e ∈ es, e.isAside = true := fun e h => Entry.isAside_of_isPlain (he e h)
  have hleft : ∀ p ∈ (s.handle h).left?.toList, ∃ k ∈ s.loop.wards, k.pid = p ∧ k.status = none ∧
      k.id ∈ (s.handle h).watches :=
    fun p hp => left_ward hc hsame hrs hno (Option.mem_toList.1 hp)
  constructor
  case own => exact hown
  case distinct =>
    rw [hcl.openPids]
    refine List.Nodup.append ?_ ?_ fun p hp hp' => ?_
    · exact hs.distinct.sublist ((List.filter_sublist).filterMap _)
    · cases (s.handle h).left? with
      | none => exact List.nodup_nil
      | some p => exact List.nodup_singleton p
    · -- the ward of the child that is left behind has gone, and no other one waits for the pid
      obtain ⟨k, hk, hkp, hn, hid⟩ := hleft p hp'
      obtain ⟨m, hm, hmp, hmn⟩ := mem_openPids.1 hp
      obtain ⟨hm, hmid⟩ := List.mem_filter.1 hm
      have hkm := eq_of_openPids hs.distinct hk hm hn hmn (hkp.trans hmp.symm)
      rw [← hkm] at hmid
      simp [hid] at hmid
  case untold =>
    intro p hp
    rw [Supervisor.collected, heard_aside haside]
    dsimp only at hp
    rw [hcl.openPids] at hp
    rcases List.mem_append.1 hp with hp | hp
    · exact hs.untold p (((List.filter_sublist).filterMap _).subset hp)
    · obtain ⟨k, hk, hkp, hn, -⟩ := hleft p hp
      exact hs.untold p (mem_openPids.2 ⟨k, hk, hkp, hn⟩)
  case once => exact hs.once.aside haside
  case conserved =>
    have hgone := fun k (hk : k ∈ s.loop.wards) hid => hs.gone hc hsame hrs hno hk hid
    rw [handed_aside haside, passed_aside haside, hcl.parked hgone]
    exact hs.conserved

theorem Settled.effect {news : List Entry} (hg : Orderly o) (hc : Custody σ log) (hs : Settled σ log)
    (he : Effect o σ τ) (hj : τ.machine.journal = news ++ σ.machine.journal) :
    Settled τ (news ++ log) := by
  have hown := own_effect hg.own hs.own he
  have hnews : ∀ es : List Entry, τ.machine.journal = es ++ σ.machine.journal → news = es :=
    fun _ h => List.append_cancel_right (hj.symm.trans h)
  rcases effect_cases he hc.sound with ⟨hq, es, hes, haside⟩ | hch
  · rw [hnews es hes]
    exact hs.quiet hq hown haside
  · cases hch with
    | collected =>
      rw [hnews _ (journal_collect _)]
      exact hs.collected hown
    | taken time k st hk hst =>
      rw [hnews [_] rfl]
      exact hs.taken time hc.sound.tidy hk hst
    | @adopted s t held rs i c e pid ha ho he hk hsame =>
      obtain ⟨before, after, hja, hb, haf⟩ := ha.journal
      have hfresh : pid ∉ openPids s.loop.wards := by
        rw [hk, Loop.wards, hsame.watches]
        exact hg.fresh (by rw [ho]; rfl)
      rw [hnews (after ++ .spawned i ((s.handle i).generation + 1) pid :: before) (by simp [hja])]
      have := hs.adopted ha hfresh hown hb haf
      simpa using this
    | @closed s t held rs i hcl hlive ho hsame hrs =>
      obtain ⟨es, hes, hp⟩ := hcl.journal
      rw [hnews es hes]
      refine hs.closed hc hcl hsame hrs (fun hrun => hg.closing i (ho hrun) ?_) hown hp
      exact (congrArg Life.state (hsame.life i)).symm.trans hrun
    | reaped i pid st hx hrun =>
      rw [hnews [] rfl]
      exact ⟨hown, hs.distinct, hs.untold, hs.once, hs.conserved⟩

theorem settled_run (hr : Run Orderly s log) : Settled s.scene log := by
  refine run_keeps (fun s hi => ?_) (fun s t log hb hs => ?_)
    (fun o σ τ log news hg hc hs he hj => hs.effect hg hc he hj) hr
  · have hwatches : s.loop.watches = [] := by cases hi <;> rfl
    have hwards : s.scene.machine.loop.wards = [] := by
      show s.loop.wards = []
      rw [Loop.wards, hwatches]
      rfl
    refine ⟨?_, ?_, ?_, onceAsked_nil, ?_⟩ <;> rw [hwards]
    · exact fun k hk => by cases hk
    · exact List.nodup_nil
    · exact fun p hp => by cases hp
    · exact .refl _
  · have hwards : t.scene.machine.loop.wards = s.scene.machine.loop.wards := by
      show t.loop.wards = s.loop.wards
      rw [Loop.wards, Loop.wards, hb.watches]
    obtain ⟨hown, hdistinct, huntold, honce, hconserved⟩ := hs
    refine ⟨?_, ?_, ?_, honce, ?_⟩ <;> rw [hwards] <;> assumption

/-- A step that closes a handle does so on a machine with the same handle. -/
theorem step_closing {h : Nat} (hh : h ∈ s.closing) :
    ∃ t : Machine, s.step.loop = (t.close h).loop ∧ t.handle h = s.handle h := by
  unfold closing at hh
  split at hh
  · next name hctl =>
    obtain rfl := List.mem_singleton.1 hh
    refine ⟨(s.resolve name).2, ?_, handle_resolve s name _⟩
    rw [step, hctl]
    rfl
  · next st h' rest hctl hst =>
    obtain rfl := List.mem_singleton.1 hh
    refine ⟨{ s with stack := rest }, ?_, rfl⟩
    rw [step, hctl, hst]
    rfl
  · next r h' rest hctl hst =>
    obtain rfl := List.mem_singleton.1 hh
    refine ⟨{ s with stack := rest }, ?_, rfl⟩
    rw [step, hctl, hst]
    cases r <;> rfl
  · cases hh

/-- A handle that runs leaves its child to a new open ward when it is closed. -/
theorem awaits_of_closing {h : Nat} {p : Int} (hh : h ∈ s.closing)
    (hrun : (s.handle h).state = .running) (hp : (s.handle h).pid = some p) : s.step.loop.awaits p := by
  obtain ⟨t, hloop, hsame⟩ := step_closing hh
  have hcl : Closed t (t.close h) h := closed_close t (.inl (by rw [hsame]; exact hrun))
  have hleft : (t.handle h).left? = some p := by rw [hsame, Handle.left?, if_pos hrun, hp]
  rw [hloop]
  refine awaits_of_ward (k := ⟨(t.close h).loop.lastId, p, none, .detached⟩) ?_ rfl
  rw [hcl.wards, hleft]
  exact List.mem_append_right _ List.mem_cons_self

/-! ## Main theorem -/

/-- In every state of an orderly run each status that waitpid has handed over is parked on a watch or
has been passed to one callback, a parked status is told of the child that its watch reports, and no
pid was asked about after its end.  A step that closes a handle with its exit in hand breaks this: the
next pass asks about the pid once more. -/
theorem exits_handed_once (hr : Run Orderly s log) :
    (handed log).Perm (parked s.loop.wards ++ passed log) ∧ OnceAsked log ∧
    (∀ k ∈ s.loop.wards, ∀ h g st, k.callback = .reap h g → k.status = some st → Told h g st log) ∧
    ∀ h ∈ s.closing, (s.handle h).state = .running → s.exitInHand h = true → ∃ p st,
      (s.handle h).pid = some p ∧ Told h (s.handle h).generation st log ∧
      ∀ mayBlock, ∃ es, (s.step.pass mayBlock).journal = es ++ s.step.journal ∧ ∃ a, .asked p a ∈ es := by
  have hc := custody_run hr
  have hs := settled_run hr
  refine ⟨hs.conserved, hs.once, ?_, ?_⟩
  · intro k hk h g st hcb hst
    exact (hc.ward k (Loop.mem_own.2 ⟨hk, hs.own k hk⟩) h g hcb).2 st hst
  · intro h hh hrun hin
    obtain ⟨p, -, hp, -, -, -⟩ := (hc.handle h).running hrun
    obtain ⟨st, ht⟩ := told_of_exitInHand hc hin
    exact ⟨p, st, hp, ht, fun b => pass_asks (awaits_of_closing hh hrun hp) b⟩

/-- A machine with an idle watch of the user, which closes the handle, and with the child of that
handle, which has ended: the pass has collected the exit and carries out the close next. -/
def careless : Machine × List Entry :=
  carry (carry (carry (carry (.fresh .standard 10000000 [] (.fresh true), [])
    (.idle 0 (.mk "k" [true] [[.close "a"]])) 1)
    (.spawn "a" (.ofArgs ["/bin/true"]) ⟨.standard, []⟩ none) 1)
    (.event (.child 4001 (.exit 768 []))) 1) (.iterate false) 4

/-- The same machine at rest after that pass, and two steps into one more. -/
def bereft : Machine × List Entry :=
  carry (walk 9 careless) (.iterate false) 2

theorem careless_run : Run Orderly careless.1 careless.2 :=
  Run.carry (Run.carry (Run.carry (Run.carry (Run.init (.fresh .standard 10000000 [] (.fresh true) true)) rfl
    (by decide)) (by decide) (by decide)) (by decide) (by decide)) (by decide) (by decide)

theorem bereft_run : Run Tended bereft.1 bereft.2 :=
  Run.carry (Run.walk (Run.mono (fun _ h => h.toTended) careless_run) (by decide)) (by decide) (by decide)

/-- Up to its close the machine has handed each exit to one place; the close is one that breaks this. -/
theorem careless_handed_once_and_asks_again :
    ((handed careless.2).Perm (parked careless.1.loop.wards ++ passed careless.2) ∧
      OnceAsked careless.2) ∧
    0 ∈ careless.1.closing ∧ careless.1.exitInHand 0 = true ∧ ∃ p st,
      (careless.1.handle 0).pid = some p ∧ Told 0 (careless.1.handle 0).generation st careless.2 ∧
      ∀ mayBlock, ∃ es, (careless.1.step.pass mayBlock).journal = es ++ careless.1.step.journal ∧
        ∃ a, .asked p a ∈ es := by
  obtain ⟨hp, ho, -, hclose⟩ := exits_handed_once careless_run
  have hcl : 0 ∈ careless.1.closing := by decide
  have hin : careless.1.exitInHand 0 = true := by decide
  exact ⟨⟨hp, ho⟩, hcl, hin, hclose 0 hcl rfl hin⟩

/-- The exit status of the child in `bereft` is neither parked nor passed, and its pid was asked about
once more. -/
theorem closed_status_lost : Run Tended bereft.1 bereft.2 ∧
    (4001, .exited 3) ∈ handed bereft.2 ∧
    (4001, .exited 3) ∉ parked bereft.1.loop.wards ++ passed bereft.2 ∧ ¬ OnceAsked bereft.2 := by
  refine ⟨bereft_run, by decide, by decide, ?_⟩
  intro h
  have hsplit : bereft.2 = bereft.2.take 1 ++ .asked 4001 (.failed 10) :: bereft.2.drop 2 := rfl
  have hno := h _ _ _ _ hsplit
  have hyes : collected 4001 (bereft.2.drop 2) = true := by decide
  rw [hyes] at hno
  cases hno

end Machine

end Overseer
