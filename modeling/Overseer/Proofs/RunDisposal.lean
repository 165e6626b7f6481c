import Overseer.Proofs.RunInput

/-!
# How an isolated run waits for its child and disposes of it

A wait of the run is over when the child is reaped or when its timer has rung.  The dispose then closes
a handle that has nothing to wait for, or gives the child its grace, and kills it if it outlives that.

    await → leave,   leave → grace or closed,   grace → killed or closed,   killed → closed

Main statements: `waited_progress`, `dispose_progress`, `graceOver_progress`.
-/

namespace Overseer

open Supervisor

namespace Machine

variable {s u : Machine} {y : Handle} {p p' : Phase} {d d' : Option Nat} {log : List Entry} {run : Running}
  {e : Ending}

/-! ## Waits -/

section Waits

variable (hd : Delivery s.control (s.handle 0) s.captured log) (hf : ∀ log', p.Fits (s.handle 0) s.captured log')
  (hx : (s.handle 0).Live) (hp : p.waits = true)

include hd hf hx hp

theorem wait_progress {timeout : Nat} (hc : s.control = .wait 0 timeout) (hs : s.stack = p.callers) :
    ∃ d', Progress s s.step log p p none d' := by
  have hq : s.control.isQuiet = true := by rw [hc]; rfl
  have hstep : s.step = s.wait 0 timeout := by rw [step, hc]
  rw [hstep]
  unfold wait
  dsimp only
  split
  · next hreaped =>
    obtain ⟨st, hst⟩ : ∃ st, (s.handle 0).status = some st :=
      Option.isSome_iff_exists.1 ((hx.state.resolve_left (by simp [hreaped])).2)
    rw [hst]
    refine ⟨none, .stay hd ((Mute.refl s).yield _) hq rfl hf ?_ (fun _ h => h) rfl⟩
    show Position _ _ _ _ s.stack
    rw [hs]
    exact .waited _ hx hp (seen_of_reaped hreaped hst)
  · refine ⟨some (s.loop.lastId + 1), .hush hd (((Mute.refl s).addWatch _ _).go _).toHush hq rfl hf ?_ ?_⟩
    · show Position _ _ _ _ s.stack
      rw [hs]
      exact .awaitExit _ hx hp
    · refine ⟨Nat.le_refl _, fun _ h => .inl h, fun _ h => .inl h, fun i hi => .inr ⟨timeout, ?_, .inr hc⟩,
        by rintro _ _ ⟨⟩, by rintro _ ⟨⟩, fun _ h => .inl h⟩
      cases hi
      exact List.mem_append_right _ List.mem_cons_self
  · next hnot hrun =>
    rcases hx.state with h | h
    · exact absurd h hrun
    · exact absurd h.1 hnot

theorem awaitExit_progress {i : Nat} (hc : s.control = .awaitExit 0 i) (hs : s.stack = p.callers) :
    ∃ d', Progress s s.step log p p (some i) d' := by
  have hq : s.control.isQuiet = true := by rw [hc]; rfl
  have hstep : s.step = s.awaitExit 0 i := by rw [step, hc]
  have hend : ∀ r, Seen (s.handle 0) r → Progress s (s.endWait i r) log p p (some i) none := by
    intro r hr
    refine .stay hd ((((Mute.refl s).removeWatch i).lower i).yield _) hq rfl hf ?_ (by simp) rfl
    show Position _ _ _ _ s.stack
    rw [hs]
    exact .waited r hx hp hr
  rw [hstep]
  unfold awaitExit
  dsimp only
  split
  · next hreaped =>
    obtain ⟨st, hst⟩ : ∃ st, (s.handle 0).status = some st :=
      Option.isSome_iff_exists.1 ((hx.state.resolve_left (by simp [hreaped])).2)
    rw [hst]
    exact ⟨none, hend _ (seen_of_reaped hreaped hst)⟩
  · split
    · exact ⟨none, hend _ seen_timeout⟩
    · next hraised =>
      refine ⟨some i, .hush hd (((Mute.refl s).push _).go _).toHush hq rfl hf ?_ ?_⟩
      · show Position _ _ _ _ (.waiting 0 i :: s.stack)
        rw [hs]
        exact .waiting (A := []) hx hp rfl (by simp)
      · refine ⟨Nat.le_refl _, fun _ h => .inl h, fun _ h => .inl h, fun _ h => .inl h, by rintro _ _ ⟨⟩,
          fun _ _ j hj hin => ?_,
            fun _ h => .inl h⟩
        cases hj
        have hin : i ∈ s.raised := hin
        exact hraised (by simpa [isRaised] using hin)
  · next hnot hrun =>
    rcases hx.state with h | h
    · exact absurd h hrun
    · exact absurd h.1 hnot

theorem waiting_progress {i : Nat} {A : List Frame} (hs : s.stack = A ++ .waiting 0 i :: p.callers)
    (hA : ∀ f ∈ A, f.isInner = true) (hc : s.control.isPumping = true) (hsize : s.handles.length = 1)
    (hfree : s.loop.ScriptFree) : Progress s s.step log p p (some i) (some i) := by
  by_cases hend : ∃ b, s.control = .value (.passed b) ∧ A = []
  · obtain ⟨b, hv, rfl⟩ := hend
    rw [step_value hv hs]
    have hpop : Mute s ({ s with stack := p.callers } : Machine) := mute_of_eq rfl rfl rfl
    exact .stay hd (hpop.go (.awaitExit 0 i)) (by rw [hv]; rfl) rfl hf (.awaitExit i hx hp) (fun _ h => h) rfl
  · refine pumping_progress hd (hf log) hx ?_ ?_ hsize hfree hs hA hc ?_ (fun b hv hnil => hend ⟨b, hv, hnil⟩)
      fun y c B hy hc hB => .waiting hy hp hc hB
    · cases p <;> first | (cases hp; done) | simp [Phase.rank]
    · cases p <;> first | (cases hp; done) | simp [Phase.rank]
    · intro u v hv
      cases v <;> first | rfl | exact absurd rfl (hv _)

end Waits

/-! ## Disposal -/

theorem closed_of_close (hd : Delivery s.control (s.handle 0) s.captured log) (hq : s.control.isQuiet = true)
    (hm : Mute s u) (hk : u.stack = [e.frame run]) (hf : e.Fits (s.handle 0) s.captured) (hp : p.rank ≤ 6)
    (hrun : p.run? = some run) (hending : p.ending? = some e) :
    Progress s ((u.close 0).yield .unit) log p (.closed run e) d none := by
  obtain ⟨hrunning, hreaped, hstatus, -⟩ := close_spec u 0
  have hst : ((u.close 0).handle 0).status = (s.handle 0).status := hstatus.trans (stance_inj (hm.stance 0)).2.2
  refine .hush hd ((hm.toHush.trans (hush_close u 0)).mute ((Mute.refl _).yield _)) hq rfl
    (fun _ => endingFits_of_close hrunning hst hf) ?_
    (leads_on hp (fun _ h => hrun.trans h) (fun e' he => .inl ?_) (by simp) rfl (by rintro _ ⟨⟩))
  · show Position _ _ _ _ (u.close 0).stack
    rw [stack_close, hk]
    exact .closed run e ⟨hrunning, hreaped⟩
  · exact hending.symm.trans he

theorem config_note (s : Machine) (n : Notice) : (s.note n).config = s.config := (calm_note s n).config

theorem config_kill (s : Machine) (h : Nat) (sig : Int) : (s.kill h sig).2.config = s.config := by
  unfold kill
  dsimp only
  split
  · rfl
  · split
    · rfl
    · split
      · rfl
      · split
        · rfl
        · split <;> rfl

theorem dispose_progress (hd : Delivery s.control (s.handle 0) s.captured log) (hf : e.Fits (s.handle 0) s.captured)
    (hx : (s.handle 0).Live) (hc : s.control = .dispose 0) (hs : s.stack = [e.frame run]) :
    ∃ p', Progress s s.step log (.leave run e) p' none none := by
  have hq : s.control.isQuiet = true := by rw [hc]; rfl
  have hstep : s.step = s.dispose 0 := by rw [step, hc]
  have hwait : ∀ {u : Machine}, Mute s u → u.stack = s.stack → u.config = s.config → Progress s
      ((u.push (.grace 0)).go (.wait 0 u.config.grace)) log (.leave run e) (.grace run e) none none := by
    intro u hm hk hcfg
    refine .hush hd ((hm.push _).go _).toHush hq rfl (fun _ => endingFits_of_stance (hm.stance 0) hf) ?_ ?_
    · show Position _ _ _ _ (.grace 0 :: u.stack)
      rw [hk, hs]
      exact .wait (p := .grace run e) _ (live_of_stance (hm.stance 0) hx) rfl
    · refine ⟨by simp [Phase.rank], fun _ h => .inl h, fun _ h => .inl h, by rintro _ ⟨⟩, fun h τ hw => ?_,
        by rintro _ ⟨⟩,
        by rintro _ ⟨⟩⟩
      cases hw
      refine ⟨by simp [Phase.rank], ?_⟩
      show u.config.grace = _
      rw [hcfg]
  rw [hstep]
  unfold dispose
  split
  · dsimp only
    have hkill := (Mute.refl s).kill 0 Signal.term
    split
    · exact ⟨_, hwait hkill (stack_kill s 0 _) (config_kill s 0 _)⟩
    · exact ⟨_, hwait (hkill.note _) ((stack_note _ _).trans (stack_kill s 0 _))
        ((config_note _ _).trans (config_kill s 0 _))⟩
  · exact ⟨_, closed_of_close hd hq (.refl s) hs hf (by simp [Phase.rank]) rfl rfl⟩

/-- What still runs when the grace is over is killed. -/
theorem graceOver_progress (hd : Delivery s.control (s.handle 0) s.captured log) (hq : s.control.isQuiet = true)
    (hf : e.Fits (s.handle 0) s.captured) (hx : (s.handle 0).Live) (hm : Mute s u) (hk : u.stack = [e.frame run])
    (r : Except WaitError ExitStatus) : ∃ p', Progress s (u.graceOver 0 r) log (.grace run e) p' none none := by
  have hclose : Progress s ((u.close 0).yield .unit) log (.grace run e) (.closed run e) none none :=
    closed_of_close hd hq hm hk hf (by simp [Phase.rank]) rfl rfl
  have hwait : ∀ {v : Machine}, Mute s v → v.stack = u.stack → Progress s
      ((v.push (.killed 0)).go (.wait 0 killWait)) log (.grace run e) (.killed run e) none none := by
    intro v hv hvk
    refine .hush hd ((hv.push _).go _).toHush hq rfl (fun _ => endingFits_of_stance (hv.stance 0) hf) ?_ ?_
    · show Position _ _ _ _ (.killed 0 :: v.stack)
      rw [hvk, hk]
      exact .wait (p := .killed run e) _ (live_of_stance (hv.stance 0) hx) rfl
    · refine ⟨by simp [Phase.rank], fun _ h => .inl h, fun _ h => .inl h, by rintro _ ⟨⟩, fun h τ hw => ?_,
        by rintro _ ⟨⟩,
        by rintro _ ⟨⟩⟩
      cases hw
      exact ⟨by simp [Phase.rank], rfl⟩
  unfold graceOver
  split
  · exact ⟨_, hclose⟩
  · dsimp only
    split
    · have hkill := fun n => (hm.note n).kill 0 Signal.kill
      split
      · exact ⟨_, hwait (hkill _) ((stack_kill _ 0 _).trans (stack_note _ _))⟩
      · exact ⟨_, hwait ((hkill _).note _)
          ((stack_note _ _).trans ((stack_kill _ 0 _).trans (stack_note _ _)))⟩
    · exact ⟨_, hclose⟩

/-- A wait that has returned leads on as its phase wants. -/
theorem waited_progress (hd : Delivery s.control (s.handle 0) s.captured log)
    (hf : p.Fits (s.handle 0) s.captured log) (hx : (s.handle 0).Live) (hp : p.waits = true)
    {r : Except WaitError ExitStatus} (hr : Seen (s.handle 0) r) (hc : s.control = .value (.waited r))
    (hs : s.stack = p.callers) : ∃ p', Progress s s.step log p p' none none := by
  have hq : s.control.isQuiet = true := by rw [hc]; rfl
  have hpop : ∀ K, Mute s ({ s with stack := K } : Machine) := fun K => mute_of_eq rfl rfl rfl
  cases p with
  | await run =>
    rw [step_value hc hs]
    exact ⟨_, finishWait_spec (hpop _) rfl (by simp [Phase.rank]) rfl (by rintro _ ⟨⟩) hd hq
      ⟨hr, fun n total hm => absurd hm (hf n total)⟩ hx⟩
  | grace run e =>
    rw [step_value hc hs]
    exact graceOver_progress hd hq hf hx (hpop _) rfl r
  | killed run e =>
    rw [step_value hc hs]
    exact ⟨_, closed_of_close (p := .killed run e) hd hq (hpop _) rfl hf (by simp [Phase.rank]) rfl rfl⟩
  | _ => cases hp

end Machine

end Overseer
