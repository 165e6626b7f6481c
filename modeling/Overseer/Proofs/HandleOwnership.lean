import Overseer.Proofs.Ownership

/-!
# Owners of the watches of a handle

A handle that adopts a child becomes the owner of the watches on its streams and on the child.  When
it is closed these are forgotten, and a child that still runs is left to a watch that no handle owns.

Main statements: `Ledger.adopted`, `Ledger.closed`.
-/

namespace Overseer

open Supervisor
open Loop (Form)

namespace Machine

variable {s t : Machine} {σ : Stage} {D : List Duty} {d : Option (Nat × Event)} {id : Nat} {f : Form} {r : Role}
  {given : Nat → Prop} {left left' : Nat → Nat → Int → Prop} {log es : List Entry}

theorem mem_watches {x : Handle} : id ∈ x.watches ↔
    (∃ st p, x.pipe st = some p ∧ p.watch = id) ∨ x.childWatch = some id := by
  unfold Handle.watches
  simp only [List.mem_append, List.mem_map, Option.mem_toList]
  constructor
  · rintro ((⟨p, hp, hid⟩ | ⟨p, hp, hid⟩) | hid)
    · exact .inl ⟨.out, p, hp, hid⟩
    · exact .inl ⟨.err, p, hp, hid⟩
    · exact .inr hid
  · rintro (⟨st, p, hp, hid⟩ | hid)
    · cases st with
      | out => exact .inl (.inl ⟨p, hp, hid⟩)
      | err => exact .inl (.inr ⟨p, hp, hid⟩)
    · exact .inr hid

/-- The ledger is kept when a child is adopted. -/
theorem Ledger.adopted {h : Nat} {e : Execution} {pid : Int} (hl : Ledger given left ⟨s, D, none⟩ log)
    (hs : Stage.Slots ⟨s, D, none⟩) (hc : Claimed ⟨s, D, none⟩) (ha : Adoption s t h e pid)
    (hstate : (s.handle h).state = .notStarted ∨ (s.handle h).state = .closed)
    (hends : ∀ id, ¬ Ended id es) :
    Traffic ⟨s, D, none⟩ ⟨t, D, none⟩ (fun _ => False) ∧ Ledger given left ⟨t, D, none⟩ (es ++ log) := by
  obtain ⟨out, err, hlife⟩ := ha.life
  have hgen : (t.handle h).generation = (s.handle h).generation + 1 := congrArg Life.generation hlife
  have hpid : (t.handle h).pid = some pid := congrArg Life.pid hlife
  have hcwt : (t.handle h).childWatch = some t.loop.lastId := congrArg Life.childWatch hlife
  have hlt : s.loop.lastId < t.loop.lastId := ha.lastId
  have ht : Traffic ⟨s, D, none⟩ ⟨t, D, none⟩ fun _ => False := by
    refine traffic_of_lent hs (Nat.le_of_lt hlt) (fun id hid _ => ha.old id hid) (fun _ h => h.elim)
      (fun id w hid hw => ?_) rfl
    have hw : t.loop.look id = some w := hw
    rcases ha.new id hid (by rw [hw]; rfl) with rfl | ⟨st, p, hp, rfl⟩
    · cases hw.symm.trans ha.child
      exact ⟨rfl, Nat.le_refl _⟩
    · obtain ⟨-, -, -, hle, hlook⟩ := ha.pipe st p hp
      cases hw.symm.trans hlook
      exact ⟨rfl, Nat.le_of_lt hle⟩
  -- the handle had no watch before
  have hnochild : (s.handle h).childWatch = none := by
    cases hid : (s.handle h).childWatch with
    | none => rfl
    | some id =>
      have hrun : (s.handle h).state = .running := (hc.child h id hid).2
      rw [hrun] at hstate
      rcases hstate with hst | hst <;> cases hst
  have hborn : Newborn ⟨t, D, none⟩ h (s.handle h) := by
    constructor
    case pipeless => exact hl.vacant h hstate
    case childless => exact hnochild
    case generation => exact Nat.lt_of_lt_of_eq (Nat.lt_succ_self _) hgen.symm
    case running => exact congrArg Life.state hlife
    case pipe =>
      intro st p hp
      obtain ⟨rfl, -, -, -, hlook⟩ := ha.pipe st p hp
      show Stage.Books _ _ _ (.stream h st (t.handle h).generation)
      rw [hgen]
      exact ⟨.stream h st ((s.handle h).generation + 1), rfl, .inl hlook⟩
    case child =>
      intro id hid f r hb
      cases hcwt.symm.trans hid
      show r = .reap h (t.handle h).generation
      rw [hgen]
      exact (eq_of_slot ht.slots ha.child hb).2
  refine ⟨ht, hl.extend hs hc ht (fun i => ?_) (fun id hid => .inl ?_) (fun id hid => .inl hid) (fun id hid => hid)
    rfl hends (fun id hg => hg) (fun id hg => .inl hg) (fun i id p hg => hg) (fun i id p hg => .inl hg)
    (fun i id p i' p' _ hg hg' => hl.apart i id p i' p' hg hg') fun id f r hid hb => ?_⟩
  · by_cases hi : i = h
    · subst hi
      exact .inr hborn
    · exact .inl (ha.others i hi)
  · rwa [← ha.tags]
  · obtain ⟨w, hw, -⟩ := look_of_books hb
    have hw : t.loop.look id = some w := hw
    rcases ha.new id hid (by rw [hw]; rfl) with rfl | ⟨st, p, hp, rfl⟩
    · obtain ⟨rfl, rfl⟩ := eq_of_slot ht.slots ha.child hb
      exact ⟨hgen.symm, hcwt, pid, hpid, rfl⟩
    · obtain ⟨rfl, rfl⟩ := eq_of_slot ht.slots (ha.pipe st p hp).2.2.2.2 hb
      exact ⟨hgen.symm, p, hp, rfl⟩

/-- The watches of a handle are kept for it. -/
theorem Ledger.role_of_watch {h : Nat} (hl : Ledger given left σ log) (hs : σ.Slots)
    (hid : id ∈ (σ.machine.handle h).watches) (hb : σ.Books id f r) :
    (∃ st g, r = .stream h st g) ∨ ∃ g, r = .reap h g := by
  rcases mem_watches.1 hid with ⟨st, p, hp, rfl⟩ | hcw
  · exact .inl ⟨st, _, (eq_of_books hs hb (hl.pipe h st p hp)).2⟩
  · exact .inr ⟨_, hl.child h id hcw f r hb⟩

/-- The ledger is kept when all watches of a handle are removed and the handle is closed. -/
theorem Ledger.stripped {h : Nat} {u : Machine} (hl : Ledger given left ⟨u, D, none⟩ log)
    (hs : Stage.Slots ⟨u, D, none⟩)
    (hlook : ∀ id, t.loop.look id = if id ∈ (u.handle h).watches then none else u.loop.look id)
    (hlast : t.loop.lastId = u.loop.lastId) (htags : t.tags = u.tags)
    (hothers : ∀ i, i ≠ h → t.handle i = u.handle i)
    (hself : (t.handle h).life = { (u.handle h).life with state := .closed, stdin := none, out := none, err := none,
                                                          childWatch := none })
    (hwatch : ∀ id, (u.handle h).childWatch = some id → id ≤ u.loop.lastId)
    (hends : ∀ id, Ended id es → id ∈ (u.handle h).watches) : Ledger given left ⟨t, D, none⟩ (es ++ log) := by
  have hlost : ∀ id, id ∈ (u.handle h).watches → t.loop.look id = none := fun id hid => by
    rw [hlook, if_pos hid]
  have ht : Traffic ⟨u, D, none⟩ ⟨t, D, none⟩ fun id => id ∈ (u.handle h).watches :=
    traffic_erased hs hlast hlost (fun id hid => by rw [hlook, if_neg hid]) (.refl _) fun _ hx => .inr hx
  have role : ∀ id f r, id ∈ (u.handle h).watches → Stage.Books ⟨u, D, none⟩ id f r →
      (∃ st g, r = .stream h st g) ∨ ∃ g, r = .reap h g := fun id f r hid hb => hl.role_of_watch hs hid hb
  refine hl.carry hs ht (fun id hid => ?_) (fun i => ?_) htags (fun _ h => h) (fun _ h => .inl h)
    (fun _ h => .inl h) (fun id hend => ⟨hends id hend, ?_⟩) (fun id f hid hb => ?_) (fun id f hid hb => ?_)
  · show t.loop.look id = none
    have hnone : u.loop.look id = none := look_of_lt hs hid
    rw [hlook, hnone, ite_self]
  · by_cases hi : i = h
    · subst hi
      have hstate : (t.handle i).state = .closed := congrArg Life.state hself
      have hnone : ∀ st, (t.handle i).pipe st = none := by
        intro st
        cases st with
        | out => exact congrArg Life.out hself
        | err => exact congrArg Life.err hself
      refine ⟨congrArg Life.generation hself, congrArg Life.pid hself,
        fun st => .inr ⟨hnone st, fun p hp => mem_watches.2 (.inl ⟨st, p, hp, rfl⟩)⟩,
        .inr ⟨congrArg Life.childWatch hself, fun id hid => hlost id (mem_watches.2 (.inr hid))⟩,
        fun _ => .inr hnone⟩
    · refine trimmed_of_handle (hothers i hi) fun st p hp hid => ?_
      rcases role p.watch _ _ hid (hl.pipe i st p hp) with ⟨st', g, hr⟩ | ⟨g, hr⟩
      · injection hr with hr
        exact hi hr
      · cases hr
  · rcases mem_watches.1 (hends id hend) with ⟨st, p, hp, rfl⟩ | hcw
    · exact le_of_books hs (hl.pipe h st p hp)
    · exact hwatch id hcw
  · rcases role id f _ hid hb with ⟨st, g, hr⟩ | ⟨g, hr⟩ <;> cases hr
  · rcases role id f _ hid hb with ⟨st, g, hr⟩ | ⟨g, hr⟩ <;> cases hr

theorem traffic_closed {h : Nat} (hs : Stage.Slots ⟨s, D, d⟩) (htidy : s.loop.Tidy)
    (hlive : (s.handle h).state = .running ∨ (s.handle h).state = .reaped)
    (hle : ∀ id ∈ (s.handle h).watches, id ≤ s.loop.lastId) :
    Traffic ⟨s, D, d⟩ ⟨s.close h, D, d⟩ fun id => id ∈ (s.handle h).watches := by
  have hlook := (closure_close s htidy hlive).look
  have hlast := (closed_close s hlive).lastId
  refine traffic_of_lent hs (hlast ▸ Nat.le_add_right _ _) (fun id hid hm => ?_) (fun id hid => ?_)
    (fun id w hid hw => ?_) rfl
  · have hid : id ≤ s.loop.lastId := hid
    exact (hlook id).trans ((if_neg (by omega)).trans (if_neg hm))
  · have := hle id hid
    exact (hlook id).trans ((if_neg (by omega)).trans (if_pos hid))
  · have hw : (s.close h).loop.look id = some w := hw
    have hnone : s.loop.look id = none := look_of_lt hs hid
    rw [hlook, hnone, ite_self] at hw
    split at hw
    · next he =>
      cases hchild : (s.handle h).left? with
      | none =>
        rw [hchild] at hw
        cases hw
      | some p =>
        rw [hchild] at hw hlast
        cases hw
        exact ⟨rfl, Nat.le_of_eq (he.trans hlast.symm)⟩
    · cases hw

/-- The ledger is kept when a handle is closed; the child that it leaves has a watch of its own. -/
theorem Ledger.closed {h : Nat} (hl : Ledger given left ⟨s, D, none⟩ log) (hs : Stage.Slots ⟨s, D, none⟩)
    (hf : Footing ⟨s, D, none⟩ log)
    (hlive : (s.handle h).state = .running ∨ (s.handle h).state = .reaped)
    (hends : ∀ id, Ended id es → id ∈ (s.handle h).watches)
    (hleft : ∀ i id p, left' i id p ↔ left i id p ∨
      (i = h ∧ id = s.loop.lastId + 1 ∧ (s.handle h).left? = some p)) :
    Traffic ⟨s, D, none⟩ ⟨s.close h, D, none⟩ (fun id => id ∈ (s.handle h).watches) ∧
      Ledger given left' ⟨s.close h, D, none⟩ (es ++ log) := by
  have hcl := closure_close s hf.tidy hlive
  have hcd := closed_close s hlive
  have hcw := fun (id : Nat) hid => (hf.claimed.child h id hid).1
  have hle : ∀ id ∈ (s.handle h).watches, id ≤ s.loop.lastId := by
    intro id hid
    rcases mem_watches.1 hid with ⟨st, p, hp, rfl⟩ | hid
    · exact le_of_books hs (hl.pipe h st p hp)
    · exact hcw id hid
  refine ⟨traffic_closed hs hf.tidy hlive hle, ?_⟩
  cases hchild : (s.handle h).left? with
  | none =>
    obtain rfl : left' = left := by
      funext i id p
      simp [hleft, hchild]
    refine hl.stripped hs (fun id => ?_) ?_ hcd.tags hcd.others hcd.handle hcw hends
    · rw [hcl.look, hchild]
      by_cases hid : id = s.loop.lastId + 1
      · have hlt : s.loop.lastId < id := by omega
        rw [if_pos hid, Loop.look_of_lt hf.tidy hlt, ite_self]
        rfl
      · rw [if_neg hid]
    · rw [hcd.lastId, hchild]
      rfl
  | some pid =>
    have hinsert := Loop.look_insert hf.tidy Loop.Priority.normal
      (.child pid (s.kernel.deathFd pid) none Callback.detached)
    have htraffic : Traffic ⟨s, D, none⟩ ⟨(s.watchChild pid Loop.Priority.normal .detached).2, D, none⟩
        fun _ => False := by
      have hslot : (Loop.Source.child pid (s.kernel.deathFd pid) none Callback.detached).outline.slot.isSome := rfl
      exact traffic_added hs hf.tidy hslot rfl rfl
    have hgrown : Ledger given left' ⟨(s.watchChild pid Loop.Priority.normal .detached).2, D, none⟩
        ([] ++ log) := by
      have hlook : (s.watchChild pid Loop.Priority.normal .detached).2.loop.look (s.loop.lastId + 1) =
          some ⟨.child pid, some .detached⟩ := (hinsert _).trans (if_pos rfl)
      refine hl.grow (i := h) hs hf.claimed htraffic rfl hlook (.inr (.inr ⟨rfl, pid, rfl⟩)) (fun _ => rfl)
        (fun id hid => .inl hid) (fun id => ?_) rfl (fun id => not_ended (by simp)) (fun id => ?_) fun i id p => ?_
      · simp [Callback.role]
      · simp [Callback.role]
      · rw [hleft, hchild]
        simp [Callback.role]
    refine hgrown.stripped htraffic.slots (fun id => ?_) ?_ hcd.tags hcd.others hcd.handle
      (fun id hid => Nat.le_succ_of_le (hcw id hid)) hends
    · refine (hcl.look id).trans ?_
      rw [hchild]
      show _ = if id ∈ (s.handle h).watches then none else _
      refine Eq.trans ?_ (congrArg (fun w => if id ∈ (s.handle h).watches then none else w) (hinsert id).symm)
      by_cases hid : id = s.loop.lastId + 1
      · have hno : id ∉ (s.handle h).watches := fun hm => by
          have := hle id hm
          omega
        rw [if_pos hid, if_neg hno, if_pos hid]
        rfl
      · rw [if_neg hid, if_neg hid]
    · rw [hcd.lastId, hchild]
      rfl

end Machine

end Overseer
