import Overseer.Proofs.Custody

/-!
# What a reap goes by

An exit that is parked on a watch of a handle, or is on its way to the handle, was learnt from a final
answer of waitpid about the child, which bore the pid at that time.

    Learnt h g st log  =  a final answer about the child of generation g of handle h was st

An interrupted question is no such answer: it is asked again.

Main statement: `learned_run`.
-/

namespace Overseer

open Supervisor
open Kernel (Wait)

namespace Supervisor

def Learnt (h g : Nat) (st : ExitStatus) (log : List Entry) : Prop :=
  ∃ newer older p a, log = newer ++ .asked p a :: older ∧ Bears h g p older ∧ a.isFinal = true ∧
    Loop.statusOf a = some st

theorem Learnt.append {h g : Nat} {st : ExitStatus} {log : List Entry} (hl : Learnt h g st log) (news : List Entry) :
    Learnt h g st (news ++ log) := by
  obtain ⟨newer, older, p, a, rfl, hb, hf, hst⟩ := hl
  exact ⟨news ++ newer, older, p, a, by simp, hb, hf, hst⟩

theorem isFinal_of_statusOf {a : Wait} {st : ExitStatus} (hst : Loop.statusOf a = some st)
    (hne : a ≠ .failed 4) : a.isFinal = true := by
  cases a with
  | running => cases hst
  | ended raw => rfl
  | failed e =>
    have he : e ≠ 4 := fun he => hne (by rw [he])
    simpa [Wait.isFinal] using he

theorem Learnt.of_question {h g : Nat} {st : ExitStatus} {p : Int} {a : Wait} {log : List Entry}
    {asked : List (Int × Wait)} (ha : (p, a) ∈ asked) (hne : a ≠ .failed 4)
    (hst : Loop.statusOf a = some st) (hb : Bears h g p log) :
    Learnt h g st (questions asked ++ log) := by
  obtain ⟨before, later, rfl⟩ := List.append_of_mem ha
  refine ⟨questions later, questions before ++ log, p, a, ?_, ?_, isFinal_of_statusOf hst hne, hst⟩
  · simp [questions]
  · exact hb.append fun _ _ _ => spawned_not_mem_questions

end Supervisor

namespace Machine

/-- All exits that are parked or on their way were learnt. -/
structure Learned (σ : Scene) (log : List Entry) : Prop where
  ward : ∀ k ∈ σ.machine.loop.own, ∀ h g st, k.callback = .reap h g → k.status = some st →
    Learnt h g st log
  reaping : ∀ x ∈ σ.reapings, Learnt x.h x.g x.status log

variable {o s t : Machine} {σ τ : Scene} {held : List Nat} {rs : List Reaping} {log : List Entry}

/-! ## Lemmas -/

/-- Where no ward and no reap is new, everything is learnt as before. -/
theorem Learned.keep {es : List Entry} (hl : Learned σ log)
    (hown : ∀ k ∈ τ.machine.loop.own, ∀ h g st, k.callback = .reap h g → k.status = some st →
      k ∈ σ.machine.loop.own)
    (hrs : ∀ x ∈ τ.reapings, x ∈ σ.reapings) : Learned τ (es ++ log) :=
  ⟨fun k hk h g st hcb hst => (hl.ward k (hown k hk h g st hcb hst) h g st hcb hst).append es,
    fun x hx => (hl.reaping x (hrs x hx)).append es⟩

/-! ## Effects -/

theorem Learned.collected (hc : Custody ⟨s, held, rs⟩ log) (hl : Learned ⟨s, held, rs⟩ log) :
    Learned ⟨s.collect, held, rs⟩ (questions (s.loop.asks s.kernel) ++ log) := by
  refine ⟨fun k' hk' h g st hcb hst => ?_, fun x hx => (hl.reaping x hx).append _⟩
  rcases own_collect hk' with ⟨hk, -⟩ | ⟨k, hk, hn, a, ha, hne, rfl⟩
  · exact (hl.ward k' hk h g st hcb hst).append _
  · exact .of_question ha hne hst ((hc.ward k hk h g hcb).1 hn)

theorem Learned.taken {k : Ward} {st : ExitStatus} (time : Nat) (hl : Learned ⟨s, held, rs⟩ log)
    (hk : k ∈ s.loop.wards) (hst : k.status = some st) :
    Learned ⟨Machine.record { s with loop := s.loop.erase k.id } (.started time k.id (.child k.pid st)),
      held, k.callback.reapings k.pid st ++ rs⟩ (.started time k.id (.child k.pid st) :: log) := by
  refine ⟨fun w hw h g st' hcb hst' => ?_, fun x hx => ?_⟩
  · exact (hl.ward w (mem_own_erase.1 hw).1 h g st' hcb hst').append [_]
  · rcases List.mem_append.1 hx with hx | hx
    · cases hcb : k.callback with
      | reap h g =>
        rw [hcb] at hx
        obtain rfl := List.mem_singleton.1 hx
        have hown : k ∈ s.loop.own := Loop.mem_own.2 ⟨hk, by rw [Ward.isOwn, hcb]⟩
        exact (hl.ward k hown h g st hcb hst).append [_]
      | _ =>
        rw [hcb] at hx
        cases hx
    · exact (hl.reaping x hx).append [_]

/-- Every effect keeps to what was learnt. -/
theorem Learned.effect {news : List Entry} (hc : Custody σ log) (hl : Learned σ log) (he : Effect o σ τ)
    (hj : τ.machine.journal = news ++ σ.machine.journal) : Learned τ (news ++ log) := by
  rcases effect_cases he hc.sound with ⟨hq, -⟩ | hch
  · refine hl.keep (fun k hk _ _ _ _ _ => ?_) hq.reapings
    rw [← hq.own]
    exact hk
  · cases hch with
    | collected =>
      obtain rfl := List.append_cancel_right ((journal_collect _).symm.trans hj)
      exact hl.collected hc
    | taken time k st hk hst =>
      obtain rfl : [_] = news := List.append_cancel_right hj
      exact hl.taken time hk hst
    | adopted ha =>
      refine hl.keep (fun k hk h g st hcb hst => ?_) fun x hx => hx
      rcases ha.mem_own.1 hk with hk | rfl
      · exact hk
      · cases hst
    | closed hcl =>
      refine hl.keep (fun k hk h g st hcb hst => ?_) fun x hx => hx
      rcases hcl.mem_own.1 hk with ⟨hk, -⟩ | ⟨p, -, rfl⟩
      · exact hk
      · cases hst
    | reaped h pid st hx hrun => exact hl.keep (fun k hk _ _ _ _ _ => hk) fun x hx => hx

theorem learned_initial (h : Initial s) : Learned s.scene [] := by
  have hempty : s.loop.watches = [] ∧ s.scene.reapings = [] := by
    cases h with
    | fresh config tick environ kernel logging => exact ⟨rfl, rfl⟩
    | forRun outer spec => exact ⟨rfl, rfl⟩
  refine ⟨fun k hk => ?_, fun x hx => ?_⟩
  · have hnone : s.scene.machine.loop.own = [] := by
      rw [Loop.own, Loop.wards]
      show (s.loop.watches.filterMap _).filter _ = []
      rw [hempty.1]
      rfl
    rw [hnone] at hk
    cases hk
  · rw [hempty.2] at hx
    cases hx

theorem Learned.between (hl : Learned s.scene log) (hb : Between s t) : Learned t.scene log := by
  have hown : t.loop.own = s.loop.own := by rw [Loop.own, Loop.own, Loop.wards, Loop.wards, hb.watches]
  show Learned t.scene ([] ++ log)
  refine hl.keep (fun k hk _ _ _ _ _ => ?_) fun x hx => ?_
  · have hk : k ∈ t.loop.own := hk
    rwa [hown] at hk
  · have hx : x ∈ t.reapings := hx
    rwa [hb.reapings] at hx

theorem learned_run {G : Machine → Prop} (h : Run G s log) : Learned s.scene log :=
  run_keeps (fun _ hi => learned_initial hi) (fun _ _ _ hb hl => hl.between hb)
    (fun _ _ _ _ _ _ hc hl he hj => hl.effect hc he hj) h

end Machine

end Overseer
