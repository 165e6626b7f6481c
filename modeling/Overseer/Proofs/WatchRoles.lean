import Overseer.Proofs.DeedInvariants

/-!
# For whom a watch is kept

A watch is kept for whoever its callback serves.  While the callback runs, the slot of the watch is
empty, and a duty has the callback, so that one still knows for whom the watch is kept.

    Books σ id f r    =  the watch id waits for f and is kept for r
    Slots σ           =  a slot is empty exactly while one duty has the callback
    Traffic σ τ gone  =  the watches gone are forgotten, and the others are kept as before

Main statement: `traffic_of_look`.
-/

namespace Overseer

open Supervisor
open Kernel (Stream)
open Loop (Form Outline)

namespace Supervisor

/-- For whom a watch is kept: the user, a call that waits, a captured stream, or a child that its handle
awaits or has left to itself. -/
inductive Role
  | user
  | call
  | stream (h : Nat) (st : Stream) (g : Nat)
  | reap (h g : Nat)
  | detached

def Callback.role : Callback → Role
  | script _ => .user
  | raise => .call
  | stream h st g => .stream h st g
  | reap h g => .reap h g
  | detached => .detached

/-- The callback that a duty has, and the watch from which it is. -/
def Duty.lent? : Duty → Option (Nat × Callback)
  | restore id cb => some (id, cb)
  | _ => none

/-- The callbacks that are lent out, the innermost first. -/
def lentOut (D : List Duty) : List (Nat × Callback) := D.filterMap Duty.lent?

@[simp] theorem Callback.role_next (cb : Callback) : cb.next.role = cb.role := by
  cases cb <;> rfl

theorem lentOut_callback (cb : Callback) (id : Nat) (payload : Loop.Payload) (D : List Duty) :
    lentOut (cb.duties id payload ++ D) = lentOut D := by
  cases cb <;> cases payload <;> rfl

theorem lentOut_append (A D : List Duty) : lentOut (A ++ D) = lentOut A ++ lentOut D :=
  List.filterMap_append

theorem mem_lentOut {D : List Duty} {id : Nat} {cb : Callback} :
    (id, cb) ∈ lentOut D ↔ .restore id cb ∈ D := by
  rw [lentOut, List.mem_filterMap]
  constructor
  · rintro ⟨d, hm, hd⟩
    cases d <;> cases hd
    exact hm
  · exact fun hm => ⟨_, hm, rfl⟩

end Supervisor

/-- The watch `id` waits for `f` and is kept for `r`. -/
def Stage.Books (σ : Stage) (id : Nat) (f : Form) (r : Role) : Prop :=
  ∃ cb, cb.role = r ∧ (σ.machine.loop.look id = some ⟨f, some cb⟩ ∨
    (σ.machine.loop.look id = some ⟨f, none⟩ ∧ (id, cb) ∈ lentOut σ.duties))

/-- A slot is empty exactly while its callback is lent out, and a callback is lent out once. -/
structure Stage.Slots (σ : Stage) : Prop where
  lent : ∀ id f, σ.machine.loop.look id = some ⟨f, none⟩ → ∃ cb, (id, cb) ∈ lentOut σ.duties
  empty : ∀ x ∈ lentOut σ.duties, ∀ o, σ.machine.loop.look x.1 = some o → o.slot = none
  once : ((lentOut σ.duties).map (·.1)).Nodup
  le : ∀ id w, σ.machine.loop.look id = some w → id ≤ σ.machine.loop.lastId
  lentLe : ∀ x ∈ lentOut σ.duties, x.1 ≤ σ.machine.loop.lastId

namespace Machine

/-- The watches `gone` are forgotten, and all others that there were are kept as before. -/
structure Traffic (σ τ : Stage) (gone : Nat → Prop) : Prop where
  slots : τ.Slots
  lastId : σ.machine.loop.lastId ≤ τ.machine.loop.lastId
  kept : ∀ id f r, id ≤ σ.machine.loop.lastId → ¬ gone id → (τ.Books id f r ↔ σ.Books id f r)
  lost : ∀ id, gone id → τ.machine.loop.look id = none

variable {o s t : Machine} {σ τ : Stage} {D D' : List Duty} {d : Option (Nat × Event)} {id : Nat} {f f' : Form}
  {r r' : Role} {cb : Callback} {gone : Nat → Prop}

/-! ## Books -/

theorem look_of_books (hb : σ.Books id f r) :
    ∃ o, σ.machine.loop.look id = some o ∧ o.form = f := by
  obtain ⟨cb, -, hl | ⟨hl, -⟩⟩ := hb
  · exact ⟨_, hl, rfl⟩
  · exact ⟨_, hl, rfl⟩

theorem not_books (hn : σ.machine.loop.look id = none) : ¬ σ.Books id f r := by
  intro hb
  obtain ⟨o, ho, -⟩ := look_of_books hb
  rw [hn] at ho
  cases ho

theorem le_of_books (hs : σ.Slots) (hb : σ.Books id f r) : id ≤ σ.machine.loop.lastId := by
  obtain ⟨w, hw, -⟩ := look_of_books hb
  exact hs.le id w hw

theorem look_of_lt (hs : σ.Slots) (hid : σ.machine.loop.lastId < id) : σ.machine.loop.look id = none := by
  cases hw : σ.machine.loop.look id with
  | none => rfl
  | some w =>
    have := hs.le id w hw
    omega

theorem books_of_slot (hl : σ.machine.loop.look id = some ⟨f, some cb⟩) : σ.Books id f cb.role :=
  ⟨cb, rfl, .inl hl⟩

theorem books_of_look (hs : σ.Slots) {w : Outline Callback} (hl : σ.machine.loop.look id = some w) :
    ∃ r, σ.Books id w.form r := by
  obtain ⟨form, slot⟩ := w
  cases slot with
  | none =>
    obtain ⟨cb, hm⟩ := hs.lent id form hl
    exact ⟨cb.role, cb, rfl, .inr ⟨hl, hm⟩⟩
  | some cb => exact ⟨cb.role, books_of_slot hl⟩

theorem eq_of_lent (hs : σ.Slots) {cb' : Callback} (hm : (id, cb) ∈ lentOut σ.duties)
    (hm' : (id, cb') ∈ lentOut σ.duties) : cb = cb' :=
  congrArg Prod.snd (List.inj_on_of_nodup_map hs.once hm hm' rfl)

/-- A watch is kept for one only. -/
theorem eq_of_books (hs : σ.Slots) (hb : σ.Books id f r) (hb' : σ.Books id f' r') : f = f' ∧ r = r' := by
  obtain ⟨cb, rfl, hl | ⟨hl, hm⟩⟩ := hb
  · obtain ⟨cb', rfl, hl' | ⟨hl', -⟩⟩ := hb'
    · rw [hl] at hl'
      cases hl'
      exact ⟨rfl, rfl⟩
    · rw [hl] at hl'
      cases hl'
  · obtain ⟨cb', rfl, hl' | ⟨hl', hm'⟩⟩ := hb'
    · rw [hl] at hl'
      cases hl'
    · rw [hl] at hl'
      cases hl'
      exact ⟨rfl, by rw [eq_of_lent hs hm hm']⟩

/-- A watch whose callback is lent out is kept for whom the callback serves, and is not on a child. -/
theorem books_of_lent (hs : σ.Slots) (hm : (id, cb) ∈ lentOut σ.duties) (hb : σ.Books id f r) :
    r = cb.role ∧ f.isChild = false := by
  obtain ⟨w, hw, rfl⟩ := look_of_books hb
  have hnone := hs.empty _ hm w hw
  have hempty : σ.machine.loop.look id = some ⟨w.form, none⟩ := by
    rw [← hnone]
    exact hw
  refine ⟨(eq_of_books hs hb ⟨cb, rfl, .inr ⟨hempty, hm⟩⟩).2, ?_⟩
  · obtain ⟨v, -, -, rfl⟩ := Loop.exists_of_look hw
    revert hnone
    cases v.source <;> simp [Loop.Source.outline, Form.isChild]

theorem Traffic.none (ht : Traffic σ τ gone) (hle : id ≤ σ.machine.loop.lastId)
    (hn : σ.machine.loop.look id = none) : τ.machine.loop.look id = none := by
  by_cases hg : gone id
  · exact ht.lost id hg
  · cases ho : τ.machine.loop.look id with
    | none => rfl
    | some w =>
      obtain ⟨r, hb⟩ := books_of_look ht.slots ho
      exact absurd ((ht.kept id _ r hle hg).1 hb) (not_books hn)

/-! ## Traffic -/

/-- Where callbacks are lent out as before, but for watches that are gone, what is registered tells all. -/
theorem traffic_of_look (hs : σ.Slots) (hlast : σ.machine.loop.lastId ≤ τ.machine.loop.lastId)
    (hold : ∀ id, id ≤ σ.machine.loop.lastId → ¬ gone id →
      τ.machine.loop.look id = σ.machine.loop.look id)
    (hgone : ∀ id, gone id → τ.machine.loop.look id = none)
    (hnew : ∀ id w, σ.machine.loop.lastId < id → τ.machine.loop.look id = some w →
      w.slot.isSome ∧ id ≤ τ.machine.loop.lastId)
    (hsub : (lentOut τ.duties).Sublist (lentOut σ.duties))
    (hkeep : ∀ x ∈ lentOut σ.duties, gone x.1 ∨ x ∈ lentOut τ.duties) : Traffic σ τ gone := by
  constructor
  case slots =>
    constructor
    case lent =>
      intro id f hl
      by_cases hg : gone id
      · rw [hgone id hg] at hl
        cases hl
      · by_cases hid : id ≤ σ.machine.loop.lastId
        · rw [hold id hid hg] at hl
          obtain ⟨cb, hm⟩ := hs.lent id f hl
          exact ⟨cb, (hkeep _ hm).resolve_left hg⟩
        · have hsome := (hnew id _ (Nat.lt_of_not_le hid) hl).1
          cases hsome
    case empty =>
      intro x hx w hw
      have hx := hsub.subset hx
      by_cases hg : gone x.1
      · rw [hgone x.1 hg] at hw
        cases hw
      · rw [hold x.1 (hs.lentLe x hx) hg] at hw
        exact hs.empty x hx w hw
    case once => exact hs.once.sublist (hsub.map _)
    case le =>
      intro id w hw
      rcases Nat.lt_or_ge σ.machine.loop.lastId id with hlt | hid
      · exact (hnew id w hlt hw).2
      · exact Nat.le_trans hid hlast
    case lentLe => exact fun x hx => Nat.le_trans (hs.lentLe x (hsub.subset hx)) hlast
  case lastId => exact hlast
  case kept =>
    intro id f r hid hg
    have hmem : ∀ cb, (id, cb) ∈ lentOut τ.duties ↔ (id, cb) ∈ lentOut σ.duties := fun cb =>
      ⟨fun hm => hsub.subset hm, fun hm => (hkeep _ hm).resolve_left hg⟩
    unfold Stage.Books
    simp only [hold id hid hg, hmem]
  case lost => exact hgone

/-- The same callbacks are lent out, and the registry is as it was, but for watches that are gone and
new ones. -/
theorem traffic_of_lent (hs : σ.Slots) (hlast : σ.machine.loop.lastId ≤ τ.machine.loop.lastId)
    (hold : ∀ id, id ≤ σ.machine.loop.lastId → ¬ gone id →
      τ.machine.loop.look id = σ.machine.loop.look id)
    (hgone : ∀ id, gone id → τ.machine.loop.look id = none)
    (hnew : ∀ id w, σ.machine.loop.lastId < id → τ.machine.loop.look id = some w →
      w.slot.isSome ∧ id ≤ τ.machine.loop.lastId)
    (hlent : lentOut τ.duties = lentOut σ.duties) : Traffic σ τ gone :=
  traffic_of_look hs hlast hold hgone hnew (by rw [hlent]) fun x hx => .inr (by rwa [hlent])

/-- No watch is added, and those that are gone are forgotten. -/
theorem traffic_erased (hs : σ.Slots) (hlast : τ.machine.loop.lastId = σ.machine.loop.lastId)
    (hgone : ∀ id, gone id → τ.machine.loop.look id = none)
    (hold : ∀ id, ¬ gone id → τ.machine.loop.look id = σ.machine.loop.look id)
    (hsub : (lentOut τ.duties).Sublist (lentOut σ.duties))
    (hkeep : ∀ x ∈ lentOut σ.duties, gone x.1 ∨ x ∈ lentOut τ.duties) : Traffic σ τ gone := by
  refine traffic_of_look hs (Nat.le_of_eq hlast.symm) (fun id _ => hold id) hgone (fun id w hid hw => ?_) hsub hkeep
  by_cases hg : gone id
  · rw [hgone id hg] at hw
    cases hw
  · rw [hold id hg, look_of_lt hs hid] at hw
    cases hw

theorem Turn.lentOut (h : Turn s D D') : lentOut D' = Supervisor.lentOut D := by
  cases h <;> rfl

/-- No watch is forgotten, and none is new. -/
theorem Level.traffic (hs : Stage.Slots ⟨s, D, d⟩) (hl : Level s t) :
    Traffic ⟨s, D, d⟩ ⟨t, D, d⟩ fun _ => False :=
  traffic_erased hs hl.lastId (fun _ h => h.elim) (fun id _ => hl.look id) (.refl _) fun _ hx => .inr hx

theorem Turn.traffic (hs : Stage.Slots ⟨s, D, d⟩) (h : Turn s D D') :
    Traffic ⟨s, D, d⟩ ⟨s, D', d⟩ fun _ => False :=
  traffic_erased hs rfl (fun _ h => h.elim) (fun _ _ => rfl) (by rw [h.lentOut])
    fun _ hx => .inr (by rwa [h.lentOut])

/-- A watch is added. -/
theorem traffic_added (hs : Stage.Slots ⟨s, D, d⟩) (ht : s.loop.Tidy) {priority : Loop.Priority}
    {src : Loop.Source Callback} (hsrc : src.outline.slot.isSome)
    (hloop : t.loop = (s.loop.insert priority src).2) (hlent : lentOut D' = lentOut D) :
    Traffic ⟨s, D, d⟩ ⟨t, D', d⟩ fun _ => False := by
  have hlook : ∀ id, t.loop.look id = if id = s.loop.lastId + 1 then some src.outline else s.loop.look id := by
    rw [hloop]
    exact Loop.look_insert ht priority src
  have hlast : t.loop.lastId = s.loop.lastId + 1 := by
    rw [hloop]
    rfl
  refine traffic_of_lent hs (Nat.le_of_lt (Nat.lt_of_lt_of_eq (Nat.lt_succ_self _) hlast.symm))
    (fun id hid _ => ?_) (fun _ h => h.elim) (fun id w hid hw => ?_) hlent
  · have hid : id ≤ s.loop.lastId := hid
    exact (hlook id).trans (if_neg (by omega))
  · have hw : t.loop.look id = some w := hw
    rw [hlook] at hw
    split at hw
    · next he =>
      cases hw
      exact ⟨hsrc, Nat.le_of_eq (he.trans hlast.symm)⟩
    · cases (look_of_lt hs hid).symm.trans hw

/-- A callback is lent out. -/
theorem traffic_lent (hs : Stage.Slots ⟨s, D, d⟩) (ht : s.loop.Tidy) (time : Nat) {w : Loop.Watch Callback}
    (payload : Loop.Payload) {l : Loop Callback} (hw : w ∈ s.loop.watches)
    (hcb : w.source.outline.slot = some cb) (hl : Loop.Alike s.loop l)
    (hlook : ∀ id, l.look id = if id = w.id then (s.loop.look id).map Outline.vacate else s.loop.look id) :
    Traffic ⟨s, D, d⟩ ⟨Machine.record { s with loop := l } (.started time w.id payload),
      cb.duties w.id payload ++ .restore w.id cb.next :: D, d⟩ fun _ => False := by
  have hlent : lentOut (cb.duties w.id payload ++ .restore w.id cb.next :: D) = (w.id, cb.next) :: lentOut D :=
    lentOut_callback cb w.id payload _
  have hwlook : s.loop.look w.id = some ⟨w.source.outline.form, some cb⟩ := by
    rw [Loop.look_of_mem ht hw, ← hcb]
  have hself : l.look w.id = some ⟨w.source.outline.form, none⟩ := by
    rw [hlook, if_pos rfl, hwlook]
    rfl
  have hothers : ∀ id, id ≠ w.id → l.look id = s.loop.look id := fun id hid => by rw [hlook, if_neg hid]
  have hfirst : ∀ cb', (w.id, cb') ∉ lentOut D := by
    intro cb' hm
    have hnone := hs.empty _ hm _ hwlook
    cases hnone
  constructor
  case slots =>
    constructor
    case lent =>
      intro id f hl'
      rw [hlent]
      by_cases hid : id = w.id
      · exact ⟨cb.next, by rw [hid]; exact List.mem_cons_self⟩
      · obtain ⟨cb', hm⟩ := hs.lent id f ((hothers id hid).symm.trans hl')
        exact ⟨cb', List.mem_cons_of_mem _ hm⟩
    case empty =>
      intro x hx v hv
      have hv : l.look x.1 = some v := hv
      by_cases hid : x.1 = w.id
      · rw [hid, hself] at hv
        cases hv
        rfl
      · rw [hlent] at hx
        rcases List.mem_cons.1 hx with rfl | hx
        · exact absurd rfl hid
        · exact hs.empty x hx v ((hothers x.1 hid).symm.trans hv)
    case once =>
      rw [hlent, List.map_cons, List.nodup_cons]
      refine ⟨fun hm => ?_, hs.once⟩
      obtain ⟨x, hx, hid⟩ := List.mem_map.1 hm
      have hid : x.1 = w.id := hid
      exact hfirst x.2 (by rw [← hid]; exact hx)
    case le =>
      intro id v hv
      have hv : l.look id = some v := hv
      show id ≤ l.lastId
      rw [hl.lastId]
      by_cases hid : id = w.id
      · rw [hid]
        exact hs.le w.id _ hwlook
      · exact hs.le id v ((hothers id hid).symm.trans hv)
    case lentLe =>
      intro x hx
      show x.1 ≤ l.lastId
      rw [hl.lastId]
      rw [hlent] at hx
      rcases List.mem_cons.1 hx with rfl | hx
      · exact hs.le w.id _ hwlook
      · exact hs.lentLe x hx
  case lastId => exact Nat.le_of_eq hl.lastId.symm
  case kept =>
    intro id f r _ _
    by_cases hid : id = w.id
    · subst hid
      constructor
      · rintro ⟨cb', rfl, h | ⟨h, hm⟩⟩
        · cases hself.symm.trans h
        · cases hself.symm.trans h
          rw [hlent] at hm
          rcases List.mem_cons.1 hm with he | hm
          · cases he
            rw [Callback.role_next]
            exact books_of_slot hwlook
          · exact absurd hm (hfirst cb')
      · rintro ⟨cb', rfl, h | ⟨h, hm⟩⟩
        · cases hwlook.symm.trans h
          refine ⟨cb.next, Callback.role_next cb, .inr ⟨hself, ?_⟩⟩
          rw [hlent]
          exact List.mem_cons_self
        · exact absurd hm (hfirst cb')
    · have hmem : ∀ cb', (id, cb') ∈ (w.id, cb.next) :: lentOut D ↔ (id, cb') ∈ lentOut D := by
        simp [hid]
      have hlook' : l.look id = s.loop.look id := hothers id hid
      show (∃ cb', _ ∧ (l.look id = _ ∨ l.look id = _ ∧ (id, cb') ∈ lentOut (_ ++ _))) ↔ _
      simp only [hlent, hmem, hlook']
      rfl
  case lost => exact fun _ h => h.elim

/-- A callback is given back. -/
theorem traffic_restored (time now : Nat)
    (hs : Stage.Slots ⟨s, .verdict true :: .restore id cb :: D, d⟩) :
    Traffic ⟨s, .verdict true :: .restore id cb :: D, d⟩
      ⟨Machine.record { s with loop := s.loop.restore id now cb } (.settled time id true), D, d⟩
      fun _ => False := by
  have hlent : lentOut (.verdict true :: .restore id cb :: D) = (id, cb) :: lentOut D := rfl
  have hmine : (id, cb) ∈ lentOut (.verdict true :: .restore id cb :: D) := List.mem_cons_self
  have hlook := Loop.look_restore s.loop id now cb
  have hothers : ∀ i, i ≠ id → (s.loop.restore id now cb).look i = s.loop.look i := fun i hi => by
    rw [hlook, if_neg hi]
  have hfirst : ∀ cb', (id, cb') ∉ lentOut D := by
    intro cb' hm
    have honce := hs.once
    rw [hlent, List.map_cons, List.nodup_cons] at honce
    exact honce.1 (List.mem_map.2 ⟨_, hm, rfl⟩)
  have hself : ∀ w, (s.loop.restore id now cb).look id = some w ↔
      ∃ f, s.loop.look id = some ⟨f, none⟩ ∧ w = ⟨f, some cb⟩ := by
    intro w
    rw [hlook, if_pos rfl]
    cases hv : s.loop.look id with
    | none => simp
    | some v =>
      have hnone : v.slot = none := hs.empty _ hmine v hv
      obtain ⟨r, hb⟩ := books_of_look hs hv
      have hchild := (books_of_lent hs hmine hb).2
      obtain ⟨form, slot⟩ := v
      dsimp only at hnone hchild
      subst hnone
      simp [Outline.fill, hchild, eq_comm]
  constructor
  case slots =>
    constructor
    case lent =>
      intro i f hl
      by_cases hi : i = id
      · rw [hi] at hl
        obtain ⟨f', -, hw⟩ := (hself _).1 hl
        cases hw
      · obtain ⟨cb', hm⟩ := hs.lent i f ((hothers i hi).symm.trans hl)
        rw [hlent] at hm
        rcases List.mem_cons.1 hm with he | hm
        · cases he
          exact absurd rfl hi
        · exact ⟨cb', hm⟩
    case empty =>
      intro x hx w hw
      have hi : x.1 ≠ id := by
        rintro rfl
        exact hfirst x.2 hx
      exact hs.empty x (List.mem_cons_of_mem _ hx) w ((hothers x.1 hi).symm.trans hw)
    case once =>
      have honce := hs.once
      rw [hlent, List.map_cons, List.nodup_cons] at honce
      exact honce.2
    case le =>
      intro i w hw
      by_cases hi : i = id
      · subst hi
        obtain ⟨f, hf, -⟩ := (hself w).1 hw
        exact hs.le i _ hf
      · exact hs.le i w ((hothers i hi).symm.trans hw)
    case lentLe => exact fun x hx => hs.lentLe x (List.mem_cons_of_mem _ hx)
  case lastId => exact Nat.le_refl _
  case kept =>
    intro i f r _ _
    by_cases hi : i = id
    · subst hi
      constructor
      · rintro ⟨cb', rfl, h | ⟨-, hm⟩⟩
        · obtain ⟨f', hf', hw⟩ := (hself _).1 h
          cases hw
          exact ⟨cb, rfl, .inr ⟨hf', hmine⟩⟩
        · exact absurd hm (hfirst cb')
      · intro hb
        obtain ⟨rfl, -⟩ := books_of_lent hs hmine hb
        obtain ⟨w, hw, rfl⟩ := look_of_books hb
        have hnone := hs.empty _ hmine w hw
        refine books_of_slot ((hself _).2 ⟨w.form, ?_, rfl⟩)
        rw [← hnone]
        exact hw
    · have hmem : ∀ cb', (i, cb') ∈ (id, cb) :: lentOut D ↔ (i, cb') ∈ lentOut D := by
        simp [hi]
      have hlook' : (s.loop.restore id now cb).look i = s.loop.look i := hothers i hi
      show (∃ cb', _ ∧ ((s.loop.restore id now cb).look i = _ ∨ (s.loop.restore id now cb).look i = _ ∧ _)) ↔
        ∃ cb', _ ∧ (_ ∨ _ ∧ (i, cb') ∈ lentOut (.verdict true :: .restore id cb :: D))
      simp only [hlent, hmem, hlook']
  case lost => exact fun _ h => h.elim

end Machine

end Overseer
