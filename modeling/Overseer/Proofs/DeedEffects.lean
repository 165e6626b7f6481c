import Overseer.Proofs.Stepping

/-!
# Deeds are effects

A deed comes to a chain of effects, once one forgets what the duties are and keeps the watches and
the reaps that they name.

Main statements: `Deed.effects`, `step_effects` (a step is a chain of effects).
-/

namespace Overseer.Machine

open Supervisor

variable {o s t : Machine} {σ τ : Stage} {held : List Nat} {rs : List Reaping}

/-! ## Scenes of stages -/

theorem isPlain_of_isMere {e : Entry} (h : e.isMere = true) : e.isPlain = true := by
  cases e <;> first | rfl | cases h

theorem held_callback (cb : Callback) (id : Nat) (payload : Loop.Payload) :
    (cb.duties id payload).flatMap Duty.held = [] := by
  cases cb <;> cases payload <;> rfl

theorem reapings_callback (cb : Callback) (id : Nat) (payload : Loop.Payload) :
    (cb.duties id payload).flatMap Duty.reapings = (Control.invoke id cb payload).reapings := by
  cases cb <;> cases payload <;> rfl

theorem Control.held_duties (c : Control) : c.duties.flatMap Duty.held = c.held := by
  cases c with
  | value v => cases v <;> rfl
  | invoke id cb payload => exact held_callback cb id payload
  | _ => rfl

theorem Control.reapings_duties (c : Control) : c.duties.flatMap Duty.reapings = c.reapings := by
  cases c with
  | value v => cases v <;> rfl
  | invoke id cb payload => exact reapings_callback cb id payload
  | _ => rfl

theorem scene_stage (s : Machine) : s.stage.scene = s.scene := by
  unfold Stage.scene stage scene Machine.held Machine.reapings
  dsimp only
  rw [List.flatMap_append, List.flatMap_append, Control.held_duties, Control.reapings_duties, held_below,
    reapings_below]

/-! ## Deeds -/

theorem effects_recorded {es : List Entry} (he : ∀ e ∈ es, e.isPlain = true) :
    Effects o ⟨s, held, rs⟩ ⟨{ s with journal := es ++ s.journal }, held, rs⟩ := by
  induction es with
  | nil => exact .refl
  | cons e es ih =>
    have hrest := ih fun e hm => he e (List.mem_cons_of_mem _ hm)
    exact hrest.tail (.recorded e (he e List.mem_cons_self))

theorem Calm.effects (h : Calm s t) : Effects o ⟨s, held, rs⟩ ⟨t, held, rs⟩ := by
  obtain ⟨es, hj, hmere⟩ := h.journal
  have hplain : ∀ e ∈ es, e.isPlain = true := fun e he => isPlain_of_isMere (hmere e he)
  have hrec : Effects o ⟨s, held, rs⟩ ⟨{ s with journal := es ++ s.journal }, held, rs⟩ :=
    effects_recorded hplain
  exact hrec.still ⟨⟨h.watches, h.life⟩, h.lastId, h.tags, hj⟩

theorem Mild.effects (h : Mild o σ t) :
    Effects o σ.scene ⟨t, σ.scene.held, σ.scene.reapings⟩ := by
  have hstart : Effects o σ.scene ⟨σ.machine, σ.scene.held, σ.scene.reapings⟩ := .refl
  cases h with
  | calm ht => exact ht.effects
  | signalled i sig r ho hs hrs hrun => exact hstart.next (.signalled i sig r ho hs hrs hrun)
  | collected => exact hstart.next .collected
  | retouched l hl _ => exact hstart.next (.retouched l hl)
  | inputClosed i => exact hstart.next (.inputClosed i)

theorem Turn.effects {D D' : List Duty} {d : Option (Nat × Event)} (h : Turn s D D') :
    Effects o (Stage.scene ⟨s, D, d⟩) (Stage.scene ⟨s, D', d⟩) := by
  cases h with
  | shed x left hstale =>
    refine .single (.shed (fun y hy => List.mem_cons_of_mem _ hy) fun y hy => ?_)
    rcases List.mem_cons.1 hy with rfl | hy
    · exact .inr hstale
    · exact .inl hy
  | excused hid => exact .single (.dropped fun id hm => List.mem_cons_of_mem _ hm)
  | heeded b hd => exact .refl
  | _ => exact .refl

theorem Stir.effects {D D' : List Duty} {d : Option (Nat × Event)} (h : Stir o s D t D') :
    Effects o (Stage.scene ⟨s, D, d⟩) (Stage.scene ⟨t, D', d⟩) := by
  have hstart : Effects o (Stage.scene ⟨s, D, d⟩)
    ⟨s, D.flatMap Duty.held, D.flatMap Duty.reapings⟩ := .refl
  cases h with
  | lent time w cb payload l hw hn hcb hp hl hlook =>
    have hnone : (Control.invoke w.id cb payload).reapings = [] := by
      cases payload with
      | child pid st => exact absurd rfl (hp pid st)
      | _ => rfl
    have hplain : (Entry.started time w.id payload).isPlain = true := by
      cases payload with
      | child pid st => exact absurd rfl (hp pid st)
      | _ => rfl
    have hlent := Effects.record ((hstart.next (.lent w hw hn)).next (.retouched l hl)) hplain
    unfold Stage.scene
    dsimp only
    rw [List.flatMap_append, List.flatMap_append, held_callback, reapings_callback, hnone]
    exact hlent
  | taken time w pid fd st cb hw hs =>
    have htaken := hstart.next (.taken time w pid fd st cb hw hs)
    have hsplit : (cb.duties w.id (.child pid st) ++ D).flatMap Duty.reapings =
        cb.reapings pid st ++ D.flatMap Duty.reapings := by
      rw [List.flatMap_append, reapings_callback]
      rfl
    unfold Stage.scene
    dsimp only
    rw [List.flatMap_append, held_callback, hsplit]
    exact htaken
  | restored time now id cb =>
    have hrec := Effects.record hstart (e := .settled time id true) rfl
    exact (hrec.next (.retouched _ (Loop.alike_restore s.loop id now cb))).next
      (.dropped fun i hi => List.mem_cons_of_mem _ hi)
  | ended time id cb =>
    have hrec := Effects.record hstart (e := .settled time id false) rfl
    exact (hrec.next (.forgotten id (.inl List.mem_cons_self))).next
      (.dropped fun i hi => List.mem_cons_of_mem _ hi)
  | rung id => exact hstart.still ⟨⟨rfl, fun _ => rfl⟩, rfl, rfl, rfl⟩
  | engaged priority src hsrc hcb => exact hstart.next (.added priority src hsrc)
  | cleared id =>
    exact (hstart.removeWatch (.inl List.mem_cons_self)).next
      (.dropped fun i hi => List.mem_cons_of_mem _ hi)
  | registered name priority src x hsrc hcb ho hs =>
    have hadded := (hstart.next (.added priority src hsrc)).next (.tagged name _ List.mem_cons_self)
    exact hadded.next (.dropped fun i hi => List.mem_cons_of_mem _ hi)
  | watched name pid priority x ho hs =>
    have hadded := (hstart.next (.watched pid priority x ho)).next (.tagged name _ List.mem_cons_self)
    exact hadded.next (.dropped fun i hi => List.mem_cons_of_mem _ hi)
  | dismissed id hid => exact hstart.removeWatch (.inr hid)

theorem Loud.effects (h : Loud o σ τ) : Effects o σ.scene τ.scene := by
  cases h with
  | stirred h => exact h.effects
  | @adopted s D h c e pid k hname hstate ho he hk hs =>
    have hrec : Effects o (Stage.scene ⟨s, D, none⟩) ⟨(s.record (.executed e)).withKernel k,
        D.flatMap Duty.held, D.flatMap Duty.reapings⟩ := Effects.kernel (Effects.record .refl rfl) k
    exact hrec.next (.adopted h c e pid ho he hk (hs.trans ⟨rfl, fun _ => rfl⟩))
  | closed h ho hs hl hrs => exact .single (.closed h ho hs hrs)
  | @reaped s D x hg hrun hs =>
    have hmem : (⟨x.h, (s.handle x.h).generation, x.pid, x.status⟩ : Reaping) ∈
        (Stage.scene ⟨s, .reap x [] :: D, none⟩).reapings := by
      rw [hg]
      exact List.mem_cons_self
    refine .tail (.single (.reaped x.h x.pid x.status hmem hrun))
      (.shed (fun y hy => List.mem_cons_of_mem _ hy) fun y hy => ?_)
    rcases List.mem_cons.1 hy with rfl | hy
    · refine .inr fun hlive => ?_
      rw [handle_mapHandle, if_pos ⟨rfl, lt_of_running hrun⟩] at hlive
      exact absurd hlive.1 (by simp)
    · exact .inl hy
  | @read s D h st p r hp hr hk hc hs =>
    have hkept : (Stage.scene ⟨s, readLeaves h st (s.handle h).generation r :: D, none⟩) =
        Stage.scene ⟨s, D, none⟩ := by
      unfold readLeaves
      split
      · rfl
      · split <;> rfl
    have hrec : Effects o (Stage.scene ⟨s, D, none⟩)
      ⟨s.record (.read h (s.handle h).generation st r), D.flatMap Duty.held, D.flatMap Duty.reapings⟩ :=
      Effects.record .refl rfl
    obtain ⟨-, hheld, hrs⟩ := Scene.mk.inj hkept
    unfold Stage.scene
    dsimp only
    rw [hheld, hrs]
    exact hrec
  | @finished s D h st p r n hp hr hk hs =>
    have hrec : Effects o (Stage.scene ⟨s, D, none⟩)
      ⟨s.record (.read h (s.handle h).generation st r), D.flatMap Duty.held, D.flatMap Duty.reapings⟩ :=
      Effects.record .refl rfl
    exact (hrec.note n).next (.released h st)
  | emitted h e f hlife hf hs => exact (Effects.record .refl rfl).still (still_mapHandle _ h hlife)
  | handed h e rest entry f hbox hentry hlife hf =>
    refine (Effects.still .refl (still_mapHandle _ h hlife)).record ?_
    rcases hentry with rfl | ⟨n, rfl⟩ <;> rfl

/-- A deed comes to a chain of effects. -/
theorem Deed.effects (h : Deed o σ τ) : Effects o σ.scene τ.scene := by
  cases h with
  | mild h => exact h.effects
  | turned h => exact h.effects
  | loud h => exact h.effects

/-- A step is a chain of effects from one scene to the next. -/
theorem step_effects (s : Machine) (ht : s.loop.Tidy) : Effects s s.scene s.step.scene := by
  have key : ∀ τ, Deeds s s.stage τ → Effects s s.stage.scene τ.scene := by
    intro τ h
    induction h with
    | refl => exact .refl
    | tail _ hd ih => exact ih.trans hd.effects
  have hstep := key _ (step_deeds s ht)
  rwa [scene_stage, scene_stage] at hstep

end Overseer.Machine
