import Overseer.Proofs.HandleDeeds
import Overseer.Proofs.WatchRoles

/-!
# Owners of watches

Every watch has an owner that knows it, and every owner has its watch.

    user            a watch that was given to the user and has not ended
    call            a watch that a call has still to clear
    stream h st g   the watch of the open pipe st of handle h, which is in generation g
    reap h g        the child watch of handle h
    detached        a watch on a child that was left to itself, and has not been reported yet

A deed forgets watches together with what made them somebody's, or it adds one.

Main statements: `Ledger.carry`, `Ledger.extend`.
-/

namespace Overseer

open Supervisor
open Loop (Form)

namespace Supervisor

/-- The child of the watch `id` is reported. -/
def Entry.reports (id : Nat) : Entry → Bool
  | started _ i (.child _ _) => i == id
  | _ => false

/-- The watch `id` ends: it is removed, its callback does not want to be called again, or its child is
reported. -/
def Entry.ends (id : Nat) : Entry → Bool
  | removed i found => i == id && found
  | settled _ i again => i == id && !again
  | e => e.reports id

def Reported (id : Nat) (log : List Entry) : Prop := ∃ e ∈ log, e.reports id = true

def Ended (id : Nat) (log : List Entry) : Prop := ∃ e ∈ log, e.ends id = true

variable {id : Nat} {es log : List Entry}

theorem Entry.ends_of_reports {e : Entry} (h : e.reports id = true) : e.ends id = true := by
  cases e with
  | started time i payload => exact h
  | _ => cases h

theorem Reported.ended (h : Reported id log) : Ended id log := by
  obtain ⟨e, he, hr⟩ := h
  exact ⟨e, he, Entry.ends_of_reports hr⟩

theorem ended_append : Ended id (es ++ log) ↔ Ended id es ∨ Ended id log := by
  simp [Ended, or_and_right, exists_or]

theorem reported_append : Reported id (es ++ log) ↔ Reported id es ∨ Reported id log := by
  simp [Reported, or_and_right, exists_or]

theorem not_ended {es : List Entry} (h : ∀ e ∈ es, e.ends id = false) : ¬ Ended id es := by
  rintro ⟨e, he, hends⟩
  rw [h e he] at hends
  cases hends

end Supervisor

namespace Machine

/-- The owner of the watch `id`, which waits for `f`, knows it. -/
def Owned (given : Nat → Prop) (left : Nat → Nat → Int → Prop) (σ : Stage) (log : List Entry) (id : Nat)
    (f : Form) : Role → Prop
  | .user => given id ∧ ¬ Ended id log
  | .call => .clear id ∈ σ.duties
  | .stream h st g => g = (σ.machine.handle h).generation ∧
      ∃ p, (σ.machine.handle h).pipe st = some p ∧ p.watch = id
  | .reap h g => g = (σ.machine.handle h).generation ∧ (σ.machine.handle h).childWatch = some id ∧
      ∃ pid, (σ.machine.handle h).pid = some pid ∧ f = .child pid
  | .detached => ∃ h p, left h id p ∧ f = .child p ∧ ¬ Reported id log

/-- Owners and watches know each other; `given` are the watches that were given to the user, and
`left h id p` says that the handle `h` has left the child `p` to the watch `id`. -/
structure Ledger (given : Nat → Prop) (left : Nat → Nat → Int → Prop) (σ : Stage) (log : List Entry) :
    Prop where
  owned : ∀ id f r, σ.Books id f r → Owned given left σ log id f r
  user : ∀ id, given id → ¬ Ended id log → ∃ f, σ.Books id f .user
  pipe : ∀ h st p, (σ.machine.handle h).pipe st = some p →
    σ.Books p.watch (.io (.output p.pid st) .readable) (.stream h st (σ.machine.handle h).generation)
  detached : ∀ h id p, left h id p → ¬ Reported id log → σ.Books id (.child p) .detached
  tag : ∀ id ∈ σ.machine.tags.map (·.2), ∀ f r, σ.Books id f r → r = .user
  clear : ∀ id, .clear id ∈ σ.duties → ∀ f r, σ.Books id f r → r = .call
  child : ∀ h id, (σ.machine.handle h).childWatch = some id → ∀ f r, σ.Books id f r →
    r = .reap h (σ.machine.handle h).generation
  reaping : ∀ x ∈ σ.duties.flatMap Duty.reapings, x.g ≤ (σ.machine.handle x.h).generation ∧
    (x.g = (σ.machine.handle x.h).generation → ∀ id, (σ.machine.handle x.h).childWatch = some id →
      σ.machine.loop.look id = none)
  vacant : ∀ h, (σ.machine.handle h).state = .notStarted ∨ (σ.machine.handle h).state = .closed →
    ∀ st, (σ.machine.handle h).pipe st = none
  bound : ∀ id, (given id ∨ Ended id log ∨ ∃ h p, left h id p) → id ≤ σ.machine.loop.lastId
  apart : ∀ h id p h' p', left h id p → left h' id p' → h = h' ∧ p = p'

/-- Numbers that tags, calls and handles know have been given. -/
structure Claimed (σ : Stage) : Prop where
  tag : ∀ id ∈ σ.machine.tags.map (·.2), id ≤ σ.machine.loop.lastId
  clear : ∀ id, .clear id ∈ σ.duties → id ≤ σ.machine.loop.lastId
  child : ∀ h id, (σ.machine.handle h).childWatch = some id →
    id ≤ σ.machine.loop.lastId ∧ (σ.machine.handle h).state = .running

/-- The handle `x` has become `y`, and has lost exactly what went with the watches `gone`. -/
structure Trimmed (gone : Nat → Prop) (t : Machine) (x y : Handle) : Prop where
  generation : y.generation = x.generation
  pid : y.pid = x.pid
  pipe : ∀ st, (y.pipe st = x.pipe st ∧ ∀ p, x.pipe st = some p → ¬ gone p.watch) ∨
    (y.pipe st = none ∧ ∀ p, x.pipe st = some p → gone p.watch)
  childWatch : y.childWatch = x.childWatch ∨
    (y.childWatch = none ∧ ∀ id, x.childWatch = some id → t.loop.look id = none)
  vacant : y.state = .notStarted ∨ y.state = .closed →
    (x.state = .notStarted ∨ x.state = .closed) ∨ ∀ st, y.pipe st = none

variable {t : Machine} {σ τ : Stage} {id : Nat} {f f₀ : Form} {r : Role} {cb : Callback}
  {gone given given' : Nat → Prop} {left left' : Nat → Nat → Int → Prop} {log es : List Entry}

/-! ## Watches that are forgotten -/

theorem trimmed_of_handle {x y : Handle} (hy : y = x) (hp : ∀ st p, x.pipe st = some p → ¬ gone p.watch) :
    Trimmed gone t x y := by
  subst hy
  exact ⟨rfl, rfl, fun st => .inl ⟨rfl, hp st⟩, .inl rfl, fun h => .inl h⟩

/-- The ledger is kept by a deed that adds no watch. -/
theorem Ledger.carry (hl : Ledger given left σ log) (hs : σ.Slots) (ht : Traffic σ τ gone)
    (hnew : ∀ id, σ.machine.loop.lastId < id → τ.machine.loop.look id = none)
    (hw : ∀ h, Trimmed gone τ.machine (σ.machine.handle h) (τ.machine.handle h))
    (htags : τ.machine.tags = σ.machine.tags)
    (hclear : ∀ id, .clear id ∈ τ.duties → .clear id ∈ σ.duties)
    (hcall : ∀ id, .clear id ∈ σ.duties → .clear id ∈ τ.duties ∨ τ.machine.loop.look id = none)
    (hreap : ∀ x ∈ τ.duties.flatMap Duty.reapings, x ∈ σ.duties.flatMap Duty.reapings ∨
      (x.g = (σ.machine.handle x.h).generation ∧
        ∀ id, (σ.machine.handle x.h).childWatch = some id → gone id))
    (hends : ∀ id, Ended id es → gone id ∧ id ≤ σ.machine.loop.lastId)
    (huser : ∀ id f, gone id → σ.Books id f .user → Ended id es)
    (hleft : ∀ id f, gone id → σ.Books id f .detached → Reported id es) :
    Ledger given left τ (es ++ log) := by
  have back : ∀ id f r, τ.Books id f r → ¬ gone id ∧ σ.Books id f r := by
    intro id f r hb
    have hg : ¬ gone id := fun hg => not_books (ht.lost id hg) hb
    have hle : id ≤ σ.machine.loop.lastId := by
      by_contra hlt
      exact not_books (hnew id (by omega)) hb
    exact ⟨hg, (ht.kept id f r hle hg).1 hb⟩
  have keep : ∀ id f r, σ.Books id f r → ¬ gone id → τ.Books id f r := fun id f r hb hg =>
    (ht.kept id f r (le_of_books hs hb) hg).2 hb
  have hchild : ∀ h id, (τ.machine.handle h).childWatch = some id →
      (σ.machine.handle h).childWatch = some id := by
    intro h id hcw
    rcases (hw h).childWatch with hsame | ⟨hnone, -⟩
    · exact hsame.symm.trans hcw
    · rw [hnone] at hcw
      cases hcw
  constructor
  case owned =>
    intro id f r hb
    obtain ⟨hg, hb₀⟩ := back id f r hb
    have ho := hl.owned id f r hb₀
    cases r with
    | user =>
      refine ⟨ho.1, fun hend => ?_⟩
      rcases ended_append.1 hend with hend | hend
      · exact hg (hends id hend).1
      · exact ho.2 hend
    | call => exact (hcall id ho).resolve_right fun hn => not_books hn hb
    | stream h st g =>
      obtain ⟨hgen, p, hp, hid⟩ := ho
      refine ⟨hgen.trans (hw h).generation.symm, p, ?_, hid⟩
      rcases (hw h).pipe st with ⟨hsame, -⟩ | ⟨-, hall⟩
      · exact hsame.trans hp
      · rw [← hid] at hg
        exact absurd (hall p hp) hg
    | reap h g =>
      obtain ⟨hgen, hcw, pid, hpid, hf⟩ := ho
      refine ⟨hgen.trans (hw h).generation.symm, ?_, pid, (hw h).pid.trans hpid, hf⟩
      rcases (hw h).childWatch with hsame | ⟨-, hnone⟩
      · exact hsame.trans hcw
      · exact absurd hb (not_books (hnone id hcw))
    | detached =>
      obtain ⟨h, p, hleft₀, hf, hrep⟩ := ho
      refine ⟨h, p, hleft₀, hf, fun hrep' => ?_⟩
      rcases reported_append.1 hrep' with hrep' | hrep'
      · exact hg (hends id hrep'.ended).1
      · exact hrep hrep'
  case user =>
    intro id hgiven hend
    obtain ⟨f, hb⟩ := hl.user id hgiven fun h => hend (ended_append.2 (.inr h))
    exact ⟨f, keep id f _ hb fun hg => hend (ended_append.2 (.inl (huser id f hg hb)))⟩
  case pipe =>
    intro h st p hp
    rw [(hw h).generation]
    rcases (hw h).pipe st with ⟨hsame, hstay⟩ | ⟨hnone, -⟩
    · have hp₀ := hsame.symm.trans hp
      exact keep _ _ _ (hl.pipe h st p hp₀) (hstay p hp₀)
    · rw [hnone] at hp
      cases hp
  case detached =>
    intro h id p hleft₀ hrep
    have hb := hl.detached h id p hleft₀ fun h => hrep (reported_append.2 (.inr h))
    exact keep _ _ _ hb fun hg => hrep (reported_append.2 (.inl (hleft id _ hg hb)))
  case tag =>
    intro id hid f r hb
    rw [htags] at hid
    exact hl.tag id hid f r (back id f r hb).2
  case clear => exact fun id hid f r hb => hl.clear id (hclear id hid) f r (back id f r hb).2
  case child =>
    intro h id hcw f r hb
    rw [(hw h).generation]
    exact hl.child h id (hchild h id hcw) f r (back id f r hb).2
  case reaping =>
    intro x hx
    rw [(hw x.h).generation]
    rcases hreap x hx with hx | ⟨hg, hgone⟩
    · obtain ⟨hle, hnone⟩ := hl.reaping x hx
      refine ⟨hle, fun hg id hcw => ?_⟩
      have hn := hnone hg id (hchild x.h id hcw)
      rcases Nat.lt_or_ge σ.machine.loop.lastId id with hlt | hid
      · exact hnew id hlt
      · exact ht.none hid hn
    · exact ⟨Nat.le_of_eq hg, fun _ id hcw => ht.lost id (hgone id (hchild x.h id hcw))⟩
  case vacant =>
    intro h hst st
    rcases (hw h).vacant hst with hold | hnone
    · rcases (hw h).pipe st with ⟨hsame, -⟩ | ⟨hnone, -⟩
      · rw [hsame]
        exact hl.vacant h hold st
      · exact hnone
    · exact hnone st
  case bound =>
    intro id hid
    refine Nat.le_trans ?_ ht.lastId
    rcases hid with hid | hid | hid
    · exact hl.bound id (.inl hid)
    · rcases ended_append.1 hid with hid | hid
      · exact (hends id hid).2
      · exact hl.bound id (.inr (.inl hid))
    · exact hl.bound id (.inr (.inr hid))
  case apart => exact hl.apart

theorem trimmed_of_sealed {x y : Handle} (hy : y.life.sealed = x.life.sealed)
    (hp : ∀ st p, x.pipe st = some p → ¬ gone p.watch) : Trimmed gone t x y := by
  have hpipe : ∀ st, y.pipe st = x.pipe st := by
    intro st
    cases st with
    | out => exact congrArg Life.out hy
    | err => exact congrArg Life.err hy
  have hstate : y.state = x.state := congrArg Life.state hy
  refine ⟨congrArg Life.generation hy, congrArg Life.pid hy, fun st => .inl ⟨hpipe st, hp st⟩,
    .inl (congrArg Life.childWatch hy), fun h => .inl ?_⟩
  rwa [hstate] at h

/-- The ledger is kept where no watch comes or goes. -/
theorem Ledger.still (hl : Ledger given left σ log) (hs : σ.Slots) (ht : Traffic σ τ fun _ => False)
    (hlast : τ.machine.loop.lastId = σ.machine.loop.lastId)
    (hlife : ∀ h, (τ.machine.handle h).life.sealed = (σ.machine.handle h).life.sealed)
    (htags : τ.machine.tags = σ.machine.tags)
    (hclear : ∀ id, .clear id ∈ τ.duties → .clear id ∈ σ.duties)
    (hcall : ∀ id, .clear id ∈ σ.duties → .clear id ∈ τ.duties ∨ τ.machine.loop.look id = none)
    (hreap : ∀ x ∈ τ.duties.flatMap Duty.reapings, x ∈ σ.duties.flatMap Duty.reapings)
    (hends : ∀ id, ¬ Ended id es) : Ledger given left τ (es ++ log) :=
  hl.carry hs ht (fun id hid => look_of_lt ht.slots (by rwa [hlast]))
    (fun h => trimmed_of_sealed (hlife h) fun _ _ _ h => h) htags hclear hcall (fun x hx => .inl (hreap x hx))
    (fun id h => absurd h (hends id)) (fun _ _ h => h.elim) (fun _ _ h => h.elim)

/-- The ledger is kept where one watch is forgotten that is no pipe's. -/
theorem Ledger.forget {x : Nat} (hl : Ledger given left σ log) (hs : σ.Slots)
    (ht : Traffic σ τ fun id => id = x) (hlast : τ.machine.loop.lastId = σ.machine.loop.lastId)
    (hhandles : ∀ h, τ.machine.handle h = σ.machine.handle h) (htags : τ.machine.tags = σ.machine.tags)
    (hpipe : ∀ f h st g, ¬ σ.Books x f (.stream h st g))
    (hclear : ∀ id, .clear id ∈ τ.duties → .clear id ∈ σ.duties)
    (hcall : ∀ id, .clear id ∈ σ.duties → .clear id ∈ τ.duties ∨ id = x)
    (hreap : ∀ y ∈ τ.duties.flatMap Duty.reapings, y ∈ σ.duties.flatMap Duty.reapings ∨
      (y.g = (σ.machine.handle y.h).generation ∧ (σ.machine.handle y.h).childWatch = some x))
    (hends : ∀ id, Ended id es → id = x ∧ x ≤ σ.machine.loop.lastId)
    (huser : ∀ f, σ.Books x f .user → Ended x es)
    (hleft : ∀ f, σ.Books x f .detached → Reported x es) : Ledger given left τ (es ++ log) := by
  refine hl.carry hs ht (fun id hid => look_of_lt ht.slots (by rwa [hlast]))
    (fun h => trimmed_of_handle (hhandles h) ?_) htags hclear (fun id hid => ?_) (fun y hy => ?_)
    (fun id hend => ?_) (fun id f hid hb => ?_) (fun id f hid hb => ?_)
  · rintro st p hp rfl
    exact hpipe _ _ _ _ (hl.pipe h st p hp)
  · exact (hcall id hid).imp_right (ht.lost id)
  · refine (hreap y hy).imp_right fun ⟨hg, hcw⟩ => ⟨hg, fun id hid => ?_⟩
    rw [hcw] at hid
    exact (Option.some.inj hid).symm
  · obtain ⟨rfl, hle⟩ := hends id hend
    exact ⟨rfl, hle⟩
  · subst hid
    exact huser f hb
  · subst hid
    exact hleft f hb

/-! ## A watch that is added -/

/-- A watch whose slot is not empty is kept for whom its callback serves. -/
theorem eq_of_slot (hs : σ.Slots) (hl : σ.machine.loop.look id = some ⟨f₀, some cb⟩) (hb : σ.Books id f r) :
    f = f₀ ∧ r = cb.role :=
  eq_of_books hs hb (books_of_slot hl)

theorem Footing.claimed (hf : Footing σ log) : Claimed σ := by
  refine ⟨fun id hid => hf.custody.sound.le id (.inr (.inl hid)), fun id hid => ?_, fun h id hid => ?_⟩
  · exact hf.custody.sound.le id (.inl (List.mem_flatMap.2 ⟨_, hid, List.mem_singleton_self _⟩))
  · obtain ⟨hle, hrun, -⟩ := (hf.custody.handle h).child id hid
    exact ⟨hle, hrun⟩

/-- The handle `h`, which was `x` and had no watch, runs in a new generation with watches of its own. -/
structure Newborn (τ : Stage) (h : Nat) (x : Handle) : Prop where
  pipeless : ∀ st, x.pipe st = none
  childless : x.childWatch = none
  generation : x.generation < (τ.machine.handle h).generation
  running : (τ.machine.handle h).state = .running
  pipe : ∀ st p, (τ.machine.handle h).pipe st = some p →
    τ.Books p.watch (.io (.output p.pid st) .readable) (.stream h st (τ.machine.handle h).generation)
  child : ∀ id, (τ.machine.handle h).childWatch = some id → ∀ f r, τ.Books id f r →
    r = .reap h (τ.machine.handle h).generation

/-- A watch of which nothing has been told is owned whatever else has been told. -/
theorem Owned.unended (ho : Owned given left τ [] id f r) (hno : ¬ Ended id log) :
    Owned given left τ log id f r := by
  cases r with
  | user => exact ⟨ho.1, hno⟩
  | detached =>
    obtain ⟨h, p, hleft, hf, -⟩ := ho
    exact ⟨h, p, hleft, hf, fun hr => hno hr.ended⟩
  | _ => exact ho

/-- The ledger is kept when watches are added with their owners. -/
theorem Ledger.extend (hl : Ledger given left σ log) (hs : σ.Slots) (hc : Claimed σ)
    (ht : Traffic σ τ fun _ => False)
    (hhandles : ∀ h, τ.machine.handle h = σ.machine.handle h ∨ Newborn τ h (σ.machine.handle h))
    (htags : ∀ id ∈ τ.machine.tags.map (·.2), id ∈ σ.machine.tags.map (·.2) ∨ ∀ f r, τ.Books id f r →
      r = .user)
    (hclear : ∀ id, .clear id ∈ τ.duties → .clear id ∈ σ.duties ∨ ∀ f r, τ.Books id f r → r = .call)
    (hcall : ∀ id, .clear id ∈ σ.duties → .clear id ∈ τ.duties)
    (hreap : τ.duties.flatMap Duty.reapings = σ.duties.flatMap Duty.reapings)
    (hends : ∀ id, ¬ Ended id es) (hgiven : ∀ id, given id → given' id)
    (hgiven' : ∀ id, given' id → given id ∨ (σ.machine.loop.lastId < id ∧ ∃ f, τ.Books id f .user))
    (hleft : ∀ h id p, left h id p → left' h id p)
    (hleft' : ∀ h id p, left' h id p → left h id p ∨
      (σ.machine.loop.lastId < id ∧ τ.Books id (.child p) .detached))
    (hapart : ∀ h id p h' p', σ.machine.loop.lastId < id → left' h id p → left' h' id p' → h = h' ∧ p = p')
    (hnew : ∀ id f r, σ.machine.loop.lastId < id → τ.Books id f r → Owned given' left' τ [] id f r) :
    Ledger given' left' τ (es ++ log) := by
  have keep : ∀ id f r, σ.Books id f r → τ.Books id f r := fun id f r hb =>
    (ht.kept id f r (le_of_books hs hb) not_false).2 hb
  have old : ∀ id f r, id ≤ σ.machine.loop.lastId → τ.Books id f r → σ.Books id f r := fun id f r hid hb =>
    (ht.kept id f r hid not_false).1 hb
  have hend : ∀ id, Ended id (es ++ log) ↔ Ended id log := fun id => by
    rw [ended_append, or_iff_right (hends id)]
  have hrep : ∀ id, Reported id (es ++ log) ↔ Reported id log := fun id => by
    rw [reported_append, or_iff_right fun h => hends id h.ended]
  constructor
  case owned =>
    intro id f r hb
    rcases Nat.lt_or_ge σ.machine.loop.lastId id with hid | hid
    · refine (hnew id f r hid hb).unended fun h => ?_
      have := hl.bound id (.inr (.inl ((hend id).1 h)))
      omega
    have ho := hl.owned id f r (old id f r hid hb)
    cases r with
    | user => exact ⟨hgiven id ho.1, fun h => ho.2 ((hend id).1 h)⟩
    | call => exact hcall id ho
    | stream h st g =>
      obtain ⟨hgen, p, hp, hpid⟩ := ho
      rcases hhandles h with hsame | hborn
      · rw [← hsame] at hgen hp
        exact ⟨hgen, p, hp, hpid⟩
      · cases (hborn.pipeless st).symm.trans hp
    | reap h g =>
      obtain ⟨hgen, hcw, pid, hpid, hform⟩ := ho
      rcases hhandles h with hsame | hborn
      · rw [← hsame] at hgen hcw hpid
        exact ⟨hgen, hcw, pid, hpid, hform⟩
      · cases hborn.childless.symm.trans hcw
    | detached =>
      obtain ⟨h, p, hleft₀, hform, hno⟩ := ho
      exact ⟨h, p, hleft h id p hleft₀, hform, fun h => hno ((hrep id).1 h)⟩
  case user =>
    intro id hg hno
    rcases hgiven' id hg with hg | ⟨-, hb⟩
    · obtain ⟨f, hb⟩ := hl.user id hg fun h => hno ((hend id).2 h)
      exact ⟨f, keep id f _ hb⟩
    · exact hb
  case pipe =>
    intro h st p hp
    rcases hhandles h with hsame | hborn
    · rw [hsame] at hp ⊢
      exact keep _ _ _ (hl.pipe h st p hp)
    · exact hborn.pipe st p hp
  case detached =>
    intro h id p hleft₀ hno
    rcases hleft' h id p hleft₀ with hleft₀ | ⟨-, hb⟩
    · exact keep _ _ _ (hl.detached h id p hleft₀ fun h => hno ((hrep id).2 h))
    · exact hb
  case tag =>
    intro id hid
    rcases htags id hid with hid | hrole
    · exact fun f r hb => hl.tag id hid f r (old id f r (hc.tag id hid) hb)
    · exact hrole
  case clear =>
    intro id hid
    rcases hclear id hid with hid | hrole
    · exact fun f r hb => hl.clear id hid f r (old id f r (hc.clear id hid) hb)
    · exact hrole
  case child =>
    intro h id hid f r hb
    rcases hhandles h with hsame | hborn
    · rw [hsame] at hid ⊢
      exact hl.child h id hid f r (old id f r (hc.child h id hid).1 hb)
    · exact hborn.child id hid f r hb
  case reaping =>
    intro x hx
    rw [hreap] at hx
    obtain ⟨hle, hnone⟩ := hl.reaping x hx
    rcases hhandles x.h with hsame | hborn
    · rw [hsame]
      exact ⟨hle, fun hg id hid => ht.none (hc.child x.h id hid).1 (hnone hg id hid)⟩
    · have hlt := hborn.generation
      exact ⟨by omega, fun hg => by omega⟩
  case vacant =>
    intro h hst
    rcases hhandles h with hsame | hborn
    · rw [hsame] at hst ⊢
      exact hl.vacant h hst
    · rw [hborn.running] at hst
      rcases hst with hst | hst <;> cases hst
  case bound =>
    rintro id (hg | hg | ⟨h, p, hg⟩)
    · rcases hgiven' id hg with hg | ⟨-, f, hb⟩
      · exact Nat.le_trans (hl.bound id (.inl hg)) ht.lastId
      · exact le_of_books ht.slots hb
    · exact Nat.le_trans (hl.bound id (.inr (.inl ((hend id).1 hg)))) ht.lastId
    · rcases hleft' h id p hg with hg | ⟨-, hb⟩
      · exact Nat.le_trans (hl.bound id (.inr (.inr ⟨h, p, hg⟩))) ht.lastId
      · exact le_of_books ht.slots hb
  case apart =>
    intro h id p h' p' hleft₁ hleft₂
    rcases Nat.lt_or_ge σ.machine.loop.lastId id with hid | hid
    · exact hapart h id p h' p' hid hleft₁ hleft₂
    · exact hl.apart h id p h' p' ((hleft' h id p hleft₁).resolve_right fun hn => by omega)
        ((hleft' h' id p' hleft₂).resolve_right fun hn => by omega)

/-- The ledger is kept when one watch is added for the user, for a call or for a child that is left. -/
theorem Ledger.grow {i : Nat} (hl : Ledger given left σ log) (hs : σ.Slots) (hc : Claimed σ)
    (ht : Traffic σ τ fun _ => False) (hlast : τ.machine.loop.lastId = σ.machine.loop.lastId + 1)
    (hlook : τ.machine.loop.look (σ.machine.loop.lastId + 1) = some ⟨f₀, some cb⟩)
    (hrole : cb.role = .user ∨ cb.role = .call ∨ (cb.role = .detached ∧ ∃ p, f₀ = .child p))
    (hhandles : ∀ h, τ.machine.handle h = σ.machine.handle h)
    (htags : ∀ id ∈ τ.machine.tags.map (·.2), id ∈ σ.machine.tags.map (·.2) ∨
      (id = σ.machine.loop.lastId + 1 ∧ cb.role = .user))
    (hclear : ∀ id, .clear id ∈ τ.duties ↔ .clear id ∈ σ.duties ∨
      (id = σ.machine.loop.lastId + 1 ∧ cb.role = .call))
    (hreap : τ.duties.flatMap Duty.reapings = σ.duties.flatMap Duty.reapings)
    (hends : ∀ id, ¬ Ended id es)
    (hgiven : ∀ id, given' id ↔ given id ∨ (id = σ.machine.loop.lastId + 1 ∧ cb.role = .user))
    (hleft : ∀ h id p, left' h id p ↔ left h id p ∨
      (h = i ∧ id = σ.machine.loop.lastId + 1 ∧ f₀ = .child p ∧ cb.role = .detached)) :
    Ledger given' left' τ (es ++ log) := by
  have hbooks : τ.Books (σ.machine.loop.lastId + 1) f₀ cb.role := books_of_slot hlook
  have role : ∀ f r, τ.Books (σ.machine.loop.lastId + 1) f r → r = cb.role := fun f r hb =>
    (eq_of_slot ht.slots hlook hb).2
  refine hl.extend hs hc ht (fun h => .inl (hhandles h)) (fun id hid => ?_) (fun id hid => ?_)
    (fun id hid => (hclear id).2 (.inl hid)) hreap hends (fun id hg => (hgiven id).2 (.inl hg))
    (fun id hg => ?_) (fun h id p hg => (hleft h id p).2 (.inl hg)) (fun h id p hg => ?_)
    (fun h id p h' p' hid hg hg' => ?_) fun id f r hid hb => ?_
  · rcases htags id hid with hid | ⟨rfl, hr⟩
    · exact .inl hid
    · exact .inr fun f r hb => (role f r hb).trans hr
  · rcases (hclear id).1 hid with hid | ⟨rfl, hr⟩
    · exact .inl hid
    · exact .inr fun f r hb => (role f r hb).trans hr
  · rcases (hgiven id).1 hg with hg | ⟨rfl, hr⟩
    · exact .inl hg
    · rw [← hr]
      exact .inr ⟨Nat.lt_succ_self _, f₀, hbooks⟩
  · rcases (hleft h id p).1 hg with hg | ⟨-, rfl, rfl, hr⟩
    · exact .inl hg
    · rw [← hr]
      exact .inr ⟨Nat.lt_succ_self _, hbooks⟩
  · have fresh : ∀ h p, left' h id p → h = i ∧ f₀ = .child p := by
      intro h p hg
      rcases (hleft h id p).1 hg with hold | ⟨rfl, -, hp, -⟩
      · have := hl.bound id (.inr (.inr ⟨h, p, hold⟩))
        omega
      · exact ⟨rfl, hp⟩
    obtain ⟨rfl, hp⟩ := fresh h p hg
    obtain ⟨rfl, hp'⟩ := fresh h' p' hg'
    rw [hp] at hp'
    injection hp' with hp'
    exact ⟨rfl, hp'⟩
  · have hle := le_of_books ht.slots hb
    obtain rfl : id = σ.machine.loop.lastId + 1 := by omega
    obtain ⟨rfl, rfl⟩ := eq_of_slot ht.slots hlook hb
    have hnone : ∀ id, ¬ Ended id [] := fun id => not_ended (by simp)
    rcases hrole with hr | hr | ⟨hr, p, hp⟩
    · rw [hr]
      exact ⟨(hgiven _).2 (.inr ⟨rfl, hr⟩), hnone _⟩
    · rw [hr]
      exact (hclear _).2 (.inr ⟨rfl, hr⟩)
    · rw [hr]
      exact ⟨i, p, (hleft _ _ _).2 (.inr ⟨rfl, rfl, hp, hr⟩), hp, fun h => hnone _ h.ended⟩

end Machine

end Overseer
