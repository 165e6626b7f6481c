import Overseer.Proofs.Stacks
import Overseer.Proofs.WatchRoles

/-!
# Marks of calls that wait

A call that waits has a watch that rings for it.  The call clears its watch, or the watch has rung and
is forgotten as its callback returns.  A stream is read by its callback, or by the reaping of its child.

    restore id raise     below  ring id, or verdict false
    restore id stream    below  drain, or verdict true; or the watch is gone
    clear id             below  restore id

Main statements: `Marks.replace`, `Marks.returned`.
-/

namespace Overseer

open Supervisor
open Kernel (Stream)

namespace Supervisor

/-- What stands right above a callback that is lent out, as long as its watch is there. -/
def Callback.Below (above : Option Duty) : Callback → Prop
  | stream h st g => above = some (.drain h st g) ∨ above = some (.verdict true)
  | raise => (∃ id, above = some (.ring id)) ∨ above = some (.verdict false)
  | _ => True

end Supervisor

namespace Machine

/-- The watch of a callback that is lent out is gone, or its callback is at work right above. -/
def Poised (s : Machine) (above : Option Duty) (d : Duty) : Prop :=
  ∀ id cb, d = .restore id cb → s.loop.look id = none ∨ cb.Below above

/-- The watches of calls ring once. -/
structure Marks (σ : Stage) : Prop where
  raised : ∀ id, id ∈ σ.machine.raised ∨ .ring id ∈ σ.duties → id ≤ σ.machine.loop.lastId ∧
    (σ.machine.loop.look id = none ∨ (id, .raise) ∈ lentOut σ.duties)
  order : σ.duties.Pairwise fun a b => ∀ id cb, a = .clear id → b ≠ .restore id cb
  stack : Stacked (Poised σ.machine) none σ.duties

variable {s t : Machine} {A B D D' : List Duty} {d d' : Option (Nat × Event)} {id : Nat} {cb : Callback}
  {gone : Nat → Prop}

/-! ## Callbacks that are lent out -/

theorem poised_of_ne {above : Option Duty} {x : Duty} (hne : ∀ id cb, x ≠ .restore id cb) :
    Poised s above x :=
  fun id cb he => absurd he (hne id cb)

/-- A callback below nothing does not care what is above it. -/
theorem below_of_none (h : cb.Below none) (above : Option Duty) : cb.Below above := by
  cases cb with
  | stream h st g => simp [Callback.Below] at h
  | raise => simp [Callback.Below] at h
  | _ => trivial

theorem repoised {above above' : Option Duty} (hst : Stacked (Poised s) above D)
    (ha : ∀ cb : Callback, cb.Below above → cb.Below above') : Stacked (Poised s) above' D :=
  hst.retop fun _ _ hp id cb he => (hp id cb he).imp_right (ha cb)

theorem poised_below (hst : Stacked (Poised s) none D) (above : Option Duty) : Stacked (Poised s) above D :=
  repoised hst fun _ h => below_of_none h above

/-- Under a duty for which no callback is lent out, a callback does not care what is above it. -/
theorem poised_under {x : Duty} (hst : Stacked (Poised s) (some x) D) (hd : ∀ h st g, x ≠ .drain h st g)
    (hv : ∀ b, x ≠ .verdict b) (hr : ∀ id, x ≠ .ring id) (above : Option Duty) :
    Stacked (Poised s) above D := by
  refine repoised hst fun cb hb => ?_
  cases cb with
  | stream h st g => simp [Callback.Below, hd, hv] at hb
  | raise => simp [Callback.Below, hv, hr] at hb
  | _ => trivial

/-- A stream that is being drained returns a verdict to its watch. -/
theorem poised_drained {h g : Nat} {st : Stream} (hst : Stacked (Poised s) (some (.drain h st g)) D) (b : Bool)
    (hdone : ∀ id, .restore id (.stream h st g) ∈ D → s.loop.look id = none ∨ b = true) :
    Stacked (Poised s) (some (.verdict b)) D := by
  refine hst.retop fun x hx hp id cb he => ?_
  subst he
  rcases hp id cb rfl with hnone | hb
  · exact .inl hnone
  · cases cb with
    | stream h' st' g' =>
      obtain ⟨rfl, rfl, rfl⟩ : h = h' ∧ st = st' ∧ g = g' := by simpa [Callback.Below] using hb
      refine (hdone id hx).imp_right fun hb => ?_
      subst hb
      exact .inr rfl
    | raise => simp [Callback.Below] at hb
    | _ => exact .inr trivial

/-- The marks are kept on a machine that has no new watch under an old number. -/
theorem Marks.keep (hm : Marks ⟨s, D, d⟩) (hs : Stage.Slots ⟨s, D, d⟩)
    (hlast : s.loop.lastId ≤ t.loop.lastId)
    (hnone : ∀ id, id ≤ s.loop.lastId → s.loop.look id = none → t.loop.look id = none)
    (hraised : ∀ id ∈ t.raised, id ∈ s.raised ∨ .ring id ∈ D) (d' : Option (Nat × Event)) :
    Marks ⟨t, D, d'⟩ := by
  refine ⟨fun id hid => ?_, hm.order, hm.stack.mono fun a x hx hp id cb he => ?_⟩
  · have hid : id ∈ s.raised ∨ .ring id ∈ D := by
      rcases hid with hid | hid
      · exact hraised id hid
      · exact .inr hid
    obtain ⟨hle, hn⟩ := hm.raised id hid
    exact ⟨Nat.le_trans hle hlast, hn.imp_left (hnone id hle)⟩
  · subst he
    exact (hp id cb rfl).imp_left (hnone id (hs.lentLe _ (mem_lentOut.2 hx)))

theorem Marks.traffic (hm : Marks ⟨s, D, d⟩) (hs : Stage.Slots ⟨s, D, d⟩)
    (ht : Traffic ⟨s, D, d⟩ ⟨t, D', d'⟩ gone)
    (hraised : ∀ id ∈ t.raised, id ∈ s.raised ∨ .ring id ∈ D) :
    Marks ⟨t, D, d'⟩ :=
  hm.keep hs ht.lastId (fun _ hle hn => ht.none hle hn) hraised d'

/-- The duties `A` on top give way to `B`; no callback is lent out or given back. -/
theorem Marks.replace (hm : Marks ⟨s, A ++ D, d⟩) (hA : lentOut A = []) (hB : lentOut B = [])
    (hring : ∀ id, .ring id ∈ B → .ring id ∈ A ∨ (id ≤ s.loop.lastId ∧ s.loop.look id = none))
    (hclear : ∀ id, .clear id ∈ B → .clear id ∈ A ∨ ∀ cb, .restore id cb ∉ D)
    (hst : Stacked (Poised s) none (B ++ D)) : Marks ⟨s, B ++ D, d⟩ := by
  have hlent : ∀ {C : List Duty}, lentOut C = [] → lentOut (C ++ D) = lentOut D := by
    intro C hC
    rw [lentOut_append, hC]
    rfl
  have hno : ∀ id cb, .restore id cb ∉ B := by
    intro id cb hm
    have hm := mem_lentOut.2 hm
    rw [hB] at hm
    cases hm
  obtain ⟨-, hD, hAD⟩ := List.pairwise_append.1 hm.order
  constructor
  case raised =>
    intro id hid
    have hold : (id ≤ s.loop.lastId ∧ s.loop.look id = none) ∨ (id ∈ s.raised ∨ .ring id ∈ A ++ D) := by
      rcases hid with hid | hid
      · exact .inr (.inl hid)
      · rcases List.mem_append.1 hid with hid | hid
        · exact (hring id hid).symm.imp_right fun h => .inr (List.mem_append_left _ h)
        · exact .inr (.inr (List.mem_append_right _ hid))
    rcases hold with ⟨hle, hn⟩ | hid
    · exact ⟨hle, .inl hn⟩
    · obtain ⟨hle, hn⟩ := hm.raised id hid
      refine ⟨hle, hn.imp_right fun h => ?_⟩
      rw [hlent hA] at h
      rwa [hlent hB]
  case order =>
    refine List.pairwise_append.2 ⟨?_, hD, fun a ha b hb id cb he => ?_⟩
    · refine List.pairwise_of_forall_mem_list fun a ha b hb id cb _ he => ?_
      rw [he] at hb
      exact hno id cb hb
    · subst he
      rintro rfl
      rcases hclear id ha with ha | hnone
      · exact hAD _ ha _ hb id cb rfl rfl
      · exact hnone cb hb
  case stack => exact hst

/-- A callback that has returned is given back, or its watch is forgotten. -/
theorem Marks.returned {b : Bool} (hm : Marks ⟨s, .verdict b :: .restore id cb :: D, d⟩)
    (hs : Stage.Slots ⟨s, .verdict b :: .restore id cb :: D, d⟩)
    (hlast : s.loop.lastId ≤ t.loop.lastId)
    (hnone : ∀ id, id ≤ s.loop.lastId → s.loop.look id = none → t.loop.look id = none)
    (hraised : t.raised = s.raised) (hmine : t.loop.look id = none ∨ b = true) : Marks ⟨t, D, d⟩ := by
  obtain ⟨-, hpoised, hrest⟩ := hm.stack
  have hkept := hm.keep hs hlast hnone (fun i hi => .inl (by rwa [hraised] at hi)) d
  constructor
  case raised =>
    intro i hi
    have hi : i ∈ t.raised ∨ .ring i ∈ .verdict b :: .restore id cb :: D :=
      hi.imp_right fun h => List.mem_cons_of_mem _ (List.mem_cons_of_mem _ h)
    obtain ⟨hle, hn⟩ := hkept.raised i hi
    refine ⟨hle, ?_⟩
    rcases hn with hn | hn
    · exact .inl hn
    · rcases List.mem_cons.1 hn with he | hn
      · -- the callback that returns has rung, so that its watch is not there any more
        cases he
        left
        rcases hmine with hmine | rfl
        · exact hmine
        · rcases hpoised _ .raise rfl with hgone | hb
          · exact hnone _ (hs.lentLe _ List.mem_cons_self) hgone
          · simp [Callback.Below] at hb
      · exact .inr hn
  case order => exact (List.pairwise_cons.1 (List.pairwise_cons.1 hkept.order).2).2
  case stack => exact poised_under hkept.stack.2.2 (by simp) (by simp) (by simp) none

/-- A watch whose mark is raised is gone when its call goes on. -/
theorem Marks.gone_of_raised (hm : Marks ⟨s, .clear id :: D, d⟩) (hid : id ∈ s.raised) :
    s.loop.look id = none := by
  refine (hm.raised id (.inl hid)).2.resolve_right fun hl => ?_
  have hrest := (mem_lentOut.1 hl)
  rcases List.mem_cons.1 hrest with he | hrest
  · cases he
  · exact (List.pairwise_cons.1 hm.order).1 _ hrest id .raise rfl rfl

end Machine

end Overseer
