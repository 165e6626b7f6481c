import Overseer.Proofs.ChildWaits
import Overseer.Proofs.Spans

/-!
# Limits of calls that pump

A call may have a timer that limits it, and may pump the loop beneath other calls.  Whatever callbacks
do above it, upon its own handle as well, they neither take the timer away nor let it ring before its
time.

    Limit i D s    =  the timer i, due at D, will ring or has rung; and it has rung only if the time is D or later
    Spared i D A s =  the frames A above the call, and the control, are not about the timer

Frames and controls that are about a handle do no harm here, so that they are compared with handles that nobody has.

Main statement: `spared_step`.
-/

namespace Overseer.Machine

open Supervisor

/-- The timer `i` of a call, due at the time `D`, is kept and does not ring early. -/
structure Limit (i D : Nat) (s : Machine) : Prop where
  le : i ≤ s.loop.lastId
  alarm : Alarm s i D
  rung : i ∈ s.raised → D ≤ s.kernel.now

/-- A pass has not begun later than now. -/
def Begun (s : Machine) (_ : List Nat) (now : Nat) : Prop := now ≤ s.kernel.now

/-- What is above a call with the timer `i` is not about the timer, whatever handles it is about. -/
def Spared (i D : Nat) (A : List Frame) (s : Machine) : Prop :=
  ∃ N, ∀ h, N ≤ h → (∀ f ∈ A, f.Aloof h i (Begun s)) ∧ s.control.Aloof h i (Begun s) (D ≤ s.kernel.now)

variable {s t : Machine} {i D : Nat} {past : List Machine} {log : List Entry} {A K : List Frame} {f : Frame}

theorem not_raised_of_armed {given : Nat → Prop} {left : Nat → Nat → Int → Prop}
    (hacc : Accounts given left s.stage log)
    (ht : s.loop.Tidy) {interval : Nat} (hw : timer i interval D ∈ s.loop.watches) : i ∉ s.raised := by
  intro hr
  have hlook : s.loop.look i = some (timer i interval D).source.outline := Loop.look_of_mem ht hw
  rcases (hacc.marks.raised i (.inl hr)).2 with hnone | hlent
  · cases hlook.symm.trans hnone
  · have hempty := hacc.slots.empty _ hlent _ hlook
    cases hempty

theorem limit_step (ht : Trail past s log) (hl : Limit i D s) (hlow : i ∉ s.lowers)
    (hring : ∀ payload, s.control = .invoke i .raise payload → D ≤ s.kernel.now) : Limit i D s.step := by
  refine ⟨?_, alarm_step (accounts_trail ht) (custody_run ht.run).sound.tidy hl.alarm hlow, fun hr => ?_⟩
  · exact step_keeps (P := fun t => i ≤ t.loop.lastId) hl.le fun u v he hu => Nat.le_trans hu he.lastId_le
  · refine Nat.le_trans ?_ (now_le_step s)
    rcases raised_step hr with hr | ⟨payload, hc⟩
    · exact hl.rung hr
    · exact hring payload hc

theorem Limit.later (hl : Limit i D s) (h : Lull s t) (hnow : s.kernel.now ≤ t.kernel.now) : Limit i D t := by
  refine ⟨h.between.lastId ▸ hl.le, ?_, fun hr => Nat.le_trans (hl.rung (h.raised ▸ hr)) hnow⟩
  cases hl.alarm with
  | armed interval hw => exact .armed interval (h.between.watches ▸ hw)
  | ringing payload hc => exact .ringing payload (h.control_of hc (by simp))
  | rung hr => exact .rung (h.raised ▸ hr)

theorem Spared.later (hs : Spared i D A s) (h : Lull s t) (hnow : s.kernel.now ≤ t.kernel.now) : Spared i D A t := by
  obtain ⟨N, hN⟩ := hs
  have hbegun : ∀ ids now, Begun s ids now → Begun t ids now := fun ids now hle => Nat.le_trans hle hnow
  refine ⟨N, fun n hn => ⟨fun f hf => ((hN n hn).1 f hf).mono hbegun, ?_⟩⟩
  rcases h.control with hsame | ⟨-, a, ha⟩
  · rw [hsame]
    exact (hN n hn).2.mono hbegun fun hle => Nat.le_trans hle hnow
  · rw [ha]
    trivial

/-- A step above the call spares its timer. -/
theorem spared_step (ht : Trail past s log) (hst : s.stack = A ++ f :: K) (hf : ∀ d, f ≠ .writeDeadline d)
    (hs : Spared i D A s) (hl : Limit i D s) (hbusy : A = [] → ∀ v, s.control ≠ .value v) :
    (∃ A', s.step.stack = A' ++ f :: K ∧ Spared i D A' s.step) ∧ Limit i D s.step := by
  obtain ⟨N, hN⟩ := hs
  have hlow : i ∉ s.lowers := lowers_of_aloof hst (hN N (Nat.le_refl N)).1 (hN N (Nat.le_refl N)).2 hf
  have hring : ∀ payload, s.control = .invoke i .raise payload → D ≤ s.kernel.now := fun payload hc => by
    have hctl := (hN N (Nat.le_refl N)).2
    rw [hc] at hctl
    exact hctl rfl
  refine ⟨?_, limit_step ht hl hlow hring⟩
  -- a handle that the step is not upon, and that nothing above the call is about
  let M := max N ((s.upon?.getD 0) + 1)
  have hstep : ∀ n, M ≤ n → (∃ A', s.step.stack = A' ++ f :: K ∧ ∀ g ∈ A', g.Aloof n i (Begun s.step)) ∧
      s.step.control.Aloof n i (Begun s.step) (D ≤ s.step.kernel.now) := by
    intro n hn
    obtain ⟨hA, hc⟩ := hN n (by omega)
    have hleave : s.upon? ≠ some n := fun hupon => by
      rw [show M = max N (n + 1) by simp only [M, hupon, Option.getD_some]] at hn
      omega
    have hdue : ∀ rest now ran job l, s.control = .dispatch (i :: rest) now ran →
      s.loop.take i now = some (job, l) →
        D ≤ s.step.kernel.now := fun rest now ran job l hd htake => by
      refine Nat.le_trans ?_ (now_le_step s)
      rw [hd] at hc
      cases hl.alarm with
      | armed interval hw => exact Nat.le_trans (due_of_take (custody_run ht.run).sound.tidy hw htake) hc
      | ringing payload hring => rw [hd] at hring; cases hring
      | rung hr => exact hl.rung hr
    obtain ⟨hstack, hcontrol, -⟩ := aloof_step (P := Begun s.step) (R := D ≤ s.step.kernel.now) hst
      (fun g hg => (hA g hg).mono fun _ _ hle => Nat.le_trans hle (now_le_step s)) hc hl.le hleave hbusy
      (fun id rest now ran hd => by rw [hd] at hc; exact Nat.le_trans hc (now_le_step s)) hdue
      fun b ids now ran hp hd => Nat.le_of_eq (found_of_pass hp hd).2.1
    exact ⟨hstack, hcontrol⟩
  obtain ⟨⟨A', hA', -⟩, -⟩ := hstep M (Nat.le_refl M)
  refine ⟨A', hA', M, fun n hn => ?_⟩
  obtain ⟨⟨B, hB, haloof⟩, hcontrol⟩ := hstep n hn
  rw [List.append_cancel_right (hA'.symm.trans hB)]
  exact ⟨haloof, hcontrol⟩

end Overseer.Machine
