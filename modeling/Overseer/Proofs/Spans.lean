import Overseer.Proofs.Removal

/-!
# Spans of a call

A call is followed step by step, and the machines that it has stepped from are kept, so that what the
call did itself can be told from what callbacks did above it.  Between two steps there are pauses, of
which as much is assumed as is needed.

    step     past, s, log  →  s :: past, step s, news s ++ log     when the guard G holds of s
    pause    past, s, log  →  past, t, log                         when t comes to pass from s, and R s t

In a pause nothing of the machine changes but its kernel, or the isolated run that it waits for gives its answer.

Main statement: `lull_of_move`.
-/

namespace Overseer.Machine

open Supervisor

/-- What a call has come to from `x` that has not returned to a stack of `depth` frames before, with the
machines stepped from, the last one first. -/
inductive Span (R : Machine → Machine → Prop) (G : Machine → Prop) (depth : Nat) (x : Machine × List Entry) :
    List Machine → Machine × List Entry → Prop
  | begun : Span R G depth x [] x
  | step {past : List Machine} {s : Machine} {log : List Entry} : Span R G depth x past (s, log) → G s →
      returned depth s = false → Span R G depth x (s :: past) (s.step, s.news ++ log)
  | pause {past : List Machine} {s t : Machine} {log log' : List Entry} : Span R G depth x past (s, log) →
      returned depth s = false → Move (fun _ => False) (s, log) (t, log') → R s t →
      Span R G depth x past (t, log')

/-- A machine that is not at rest goes through a pause. -/
structure Lull (s t : Machine) : Prop where
  between : Between s t
  config : t.config = s.config
  raised : t.raised = s.raised
  stack : t.stack = s.stack
  control : t.control = s.control ∨ (∃ spec, s.control = .suspended spec) ∧ ∃ a, t.control = .value (.answer a)

variable {R : Machine → Machine → Prop} {G : Machine → Prop} {depth : Nat} {x y : Machine × List Entry}
  {s t : Machine}
  {past : List Machine} {log log' : List Entry}

/-! ## Pauses -/

theorem lull_of_move (hm : Move (fun _ => False) (s, log) (t, log')) (hbusy : s.isIdle = false) :
    Lull s t ∧ log' = log := by
  rcases move_cases hm with ⟨hf, -⟩ | ⟨hb, hlog⟩
  · exact hf.elim
  refine ⟨?_, hlog⟩
  cases hm with
  | step hf => exact hf.elim
  | elsewhere k => exact ⟨hb, rfl, rfl, rfl, .inl rfl⟩
  | rejoin inner a hs => exact ⟨hb, rfl, rfl, rfl, .inr ⟨⟨_, hs⟩, a, rfl⟩⟩
  | start op hi => rw [hbusy] at hi; cases hi
  | ending hi => rw [hbusy] at hi; cases hi

namespace Lull

variable (h : Lull s t)

include h

theorem handle (n : Nat) : t.handle n = s.handle n := by rw [Machine.handle, Machine.handle, h.between.handles]

/-- Only a machine that waits for an isolated run goes on with another control. -/
theorem control_of {c : Control} (hc : s.control = c) (hawake : ∀ spec, c ≠ .suspended spec) : t.control = c :=
  (h.control.resolve_right fun hs => hs.1.elim (hc ▸ hawake)).trans hc

end Lull

/-! ## Spans -/

theorem Span.run (hr : Run G x.1 x.2) (h : Span R G depth x past y) : Run G y.1 y.2 := by
  induction h with
  | begun => exact hr
  | step _ hg _ ih => exact ih.move (.step hg)
  | pause _ _ hm _ ih => exact ih.move (hm.mono fun _ hf => hf.elim)

/-- Steps without pauses make a span. -/
theorem Span.tramp {n : Nat} {z : List Machine × Machine × List Entry} (hz : Span R G depth x z.1 z.2)
    (hg : ∀ m < n, G (tramp m z).2.1) (hr : ∀ m < n, returned depth (tramp m z).2.1 = false) :
    Span R G depth x (Machine.tramp n z).1 (Machine.tramp n z).2 := by
  induction n generalizing z with
  | zero => exact hz
  | succ n ih =>
    exact ih (hz.step (hg 0 (Nat.succ_pos n)) (hr 0 (Nat.succ_pos n))) (fun m hm => hg (m + 1) (Nat.succ_lt_succ hm))
      fun m hm => hr (m + 1) (Nat.succ_lt_succ hm)

end Overseer.Machine
