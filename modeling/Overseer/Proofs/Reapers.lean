import Overseer.Proofs.Custody
import Overseer.Proofs.Opening

/-!
# Every child has a reaper

Whatever is done with handles, from top level or from callbacks, a child that was started is waited
for until waitpid has given its final answer.

    awaits l p  =  a watch on the child p is registered in l, and no status stands on it
    spawned p   →  a final answer about p has been given, or the loop awaits p
    awaits p    →  the next pass asks waitpid about p

Main statement: `reaper_of_spawned`.
-/

namespace Overseer

open Supervisor

/-- A watch on this child is registered, and nothing is known of the child's end yet. -/
def Loop.awaits (l : Loop Callback) (p : Int) : Prop :=
  ∃ w ∈ l.watches, ∃ fd cb, w.source = .child p fd none cb

namespace Machine

variable {s : Machine} {log : List Entry}

/-! ## Lemmas -/

theorem awaits_of_ward {l : Loop Callback} {k : Ward} (hk : k ∈ l.wards) (hn : k.status = none) :
    l.awaits k.pid := by
  obtain ⟨w, hw, hwk⟩ := Loop.mem_wards.1 hk
  refine ⟨w, hw, ?_⟩
  unfold Loop.Watch.ward? at hwk
  split at hwk
  · next pid fd st cb hsrc =>
    cases hwk
    subst hn
    exact ⟨fd, cb, hsrc⟩
  · cases hwk

theorem ward_of_awaits {l : Loop Callback} {p : Int} (h : l.awaits p) :
    ∃ k ∈ l.wards, k.pid = p ∧ k.status = none := by
  obtain ⟨w, hw, fd, cb, hsrc⟩ := h
  refine ⟨⟨w.id, p, none, cb⟩, Loop.mem_wards.2 ⟨w, hw, ?_⟩, rfl, rfl⟩
  rw [Loop.Watch.ward?, hsrc]

/-- A pass asks about every child that the loop awaits. -/
theorem pass_asks {p : Int} (h : s.loop.awaits p) (mayBlock : Bool) :
    ∃ es, (s.pass mayBlock).journal = es ++ s.journal ∧ ∃ a, .asked p a ∈ es := by
  obtain ⟨k, hk, rfl, hn⟩ := ward_of_awaits h
  obtain ⟨a, ha, -, -⟩ := (Loop.ward_collect (k := s.kernel) hk).2 hn
  obtain ⟨es, he⟩ := journal_pass s mayBlock
  refine ⟨es ++ questions (s.loop.asks s.kernel), ?_, a, ?_⟩
  · rw [he, journal_collect, List.append_assoc]
  · refine List.mem_append_right _ ?_
    unfold questions
    exact List.mem_reverse.2 (List.mem_map.2 ⟨(k.pid, a), ha, rfl⟩)

/-! ## Main theorem -/

/-- In every state of every run, a pid that a spawn has given has got its final answer since, or the
loop awaits it, and then the next pass asks about it. -/
theorem reaper_of_spawned (hr : Run (fun _ => True) s log) {h g : Nat} {p : Int}
    (hp : .spawned h g p ∈ log) :
    answered p log = true ∨ (s.loop.awaits p ∧ ∀ mayBlock, ∃ es,
      (s.pass mayBlock).journal = es ++ s.journal ∧ ∃ a, .asked p a ∈ es) := by
  rcases (custody_run hr).reaper h g p hp with ha | ⟨k, hk, rfl, hn⟩
  · exact .inl ha
  · have hawaits : s.loop.awaits k.pid := awaits_of_ward (Loop.mem_own.1 hk).1 hn
    exact .inr ⟨hawaits, fun b => pass_asks hawaits b⟩

/-- A machine whose one child was closed while it ran. -/
def abandoned : Machine × List Entry :=
  carry (carry (.fresh .standard 10000000 [] (.fresh true), [])
    (.spawn "a" (.ofArgs ["/bin/true"]) ⟨.standard, []⟩ none) 1) (.close "a") 1

theorem reaper_of_abandoned : Run (fun _ => True) abandoned.1 abandoned.2 ∧
    .spawned 0 1 4001 ∈ abandoned.2 ∧
    (answered 4001 abandoned.2 = true ∨ (abandoned.1.loop.awaits 4001 ∧ ∀ mayBlock, ∃ es,
      (abandoned.1.pass mayBlock).journal = es ++ abandoned.1.journal ∧ ∃ a, .asked 4001 a ∈ es)) := by
  have hrun : Run (fun _ => True) abandoned.1 abandoned.2 :=
    Run.carry (Run.carry (Run.init (.fresh .standard 10000000 [] (.fresh true) true)) rfl
      fun _ _ => trivial) (by decide) fun _ _ => trivial
  have hspawned : Entry.spawned 0 1 4001 ∈ abandoned.2 := List.mem_of_getElem? (i := 8) rfl
  exact ⟨hrun, hspawned, reaper_of_spawned hrun hspawned⟩

end Machine

end Overseer
