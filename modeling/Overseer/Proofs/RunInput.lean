import Overseer.Proofs.RunPhases

/-!
# How an isolated run delivers its input

A payload is written as far as the pipe takes it; then the run waits for room, under the timer that it
shares with the wait for the child.  When all is written the input is closed, and the wait begins.

    write  →  write again, or awaitWritable, or the result
    result →  await                 all is written, or the child does not read any more
              leave                 the time is over, or the write failed

Main statements: `write_progress`, `written_progress`, `finishWait_spec`.
-/

namespace Overseer

open Supervisor

namespace Machine

variable {s t u : Machine} {y : Handle} {p p' : Phase} {d d' : Option Nat} {log : List Entry} {run : Running}
  {e : Ending}

/-! ## The payload -/

section Input

variable {w : Writing} {i total : Nat} (hd : Delivery s.control (s.handle 0) s.captured log)
  (hf : ∀ n total, .undelivered n total ∉ s.captured.troubles) (hx : (s.handle 0).Live)

include hd hf hx

theorem startWrite_progress (hw : w.deadline = some i) (hc : s.control = .startWrite w)
    (hs : s.stack = [.writeDeadline i, .runWritten run total]) :
    ∃ d', Progress s s.step log (.input run) (.input run) (some i) d' := by
  have hq : s.control.isQuiet = true := by rw [hc]; rfl
  have hstep : s.step = s.startWrite w := by rw [step, hc]
  rw [hstep]
  unfold startWrite
  split
  · refine ⟨none, .stay hd ((Mute.refl s).yield _) hq rfl (fun _ => hf) ?_ (by simp) rfl⟩
    show Position _ _ _ _ s.stack
    rw [hs]
    exact .wrote _ _ _ hx
  · next pid _ =>
    refine ⟨some i, .stay hd ((Mute.refl s).go _) hq rfl (fun _ => hf) ?_ (fun _ h => h) rfl⟩
    show Position _ _ _ _ s.stack
    rw [hs]
    exact .write _ _ hx hw

theorem write_progress (hw : w.deadline = some i) (hi : i ≤ s.loop.lastId) {pid : Int} (hc : s.control = .write w pid)
    (hs : s.stack = [.writeDeadline i, .runWritten run total]) :
    ∃ d', Progress s s.step log (.input run) (.input run) (some i) d' := by
  have hq : s.control.isQuiet = true := by rw [hc]; rfl
  have hstep : s.step = s.write w pid := by rw [step, hc]
  have hdone : ∀ {t : Machine} r, Mute s t → t.stack = s.stack →
      Progress s (t.yield (.wrote r)) log (.input run) (.input run) (some i) none := by
    intro t r hm hst
    refine .stay hd (hm.yield _) hq rfl (fun _ => hf) ?_ (by simp) rfl
    show Position _ _ _ _ t.stack
    rw [hst, hs]
    exact .wrote _ _ _ (live_of_stance (hm.stance 0) hx)
  rw [hstep]
  unfold write
  split
  · exact ⟨none, hdone _ (.refl s) rfl⟩
  · dsimp only
    have hwrote : ∀ k r, Mute s ((s.withKernel k).record (.wrote w.h (s.handle w.h).generation pid w.rest r)) :=
      fun k r => ((Mute.refl s).kernel k).record rfl
    have hagain : ∀ k r w' pid', w'.deadline = some i → Progress s
        (((s.withKernel k).record (.wrote w.h (s.handle w.h).generation pid w.rest r)).go (.write w' pid')) log
        (.input run) (.input run) (some i) (some i) := by
      intro k r w' pid' hw'
      refine .stay hd ((hwrote k r).go _) hq rfl (fun _ => hf) ?_ (fun _ h => h) rfl
      show Position _ _ _ _ s.stack
      rw [hs]
      exact .write _ _ hx hw'
    split
    · exact ⟨some i, hagain _ _ _ _ hw⟩
    · split
      · exact ⟨some i, hagain _ _ _ _ hw⟩
      · split
        · -- the watch on the room is newer than the deadline
          refine ⟨some i, .stay hd (((hwrote _ _).addWatch _ _).go _) hq rfl (fun _ => hf) ?_ (fun _ h => h) rfl⟩
          show Position _ _ _ _ s.stack
          rw [hs]
          refine .awaitWritable _ hx hw ?_
          show s.loop.lastId + 1 ≠ i
          omega
        · exact ⟨none, hdone _ ((hwrote _ _).note _) (stack_note _ _)⟩

theorem awaitWritable_progress {watch : Nat} (hw : w.deadline = some i) (hne : watch ≠ i)
    (hc : s.control = .awaitWritable w watch) (hs : s.stack = [.writeDeadline i, .runWritten run total]) :
    ∃ d', Progress s s.step log (.input run) (.input run) (some i) d' := by
  have hq : s.control.isQuiet = true := by rw [hc]; rfl
  have hstep : s.step = s.awaitWritable w watch := by rw [step, hc]
  rw [hstep]
  unfold awaitWritable
  split
  · refine ⟨some i, .stay hd (((Mute.refl s).lower _).go _) hq rfl (fun _ => hf) ?_ (fun _ h => h) rfl⟩
    show Position _ _ _ _ s.stack
    rw [hs]
    exact .startWrite _ hx hw
  · split
    · refine ⟨none, .stay hd (((Mute.refl s).removeWatch _).yield _) hq rfl (fun _ => hf) ?_ (by simp) rfl⟩
      show Position _ _ _ _ s.stack
      rw [hs]
      exact .wrote _ _ _ hx
    · split
      · have hm := ((Mute.refl s).note (.writeTimedOut w.written)).removeWatch watch
        refine ⟨none, .stay hd (hm.yield _) hq rfl (fun _ => hf) ?_ (by simp) rfl⟩
        show Position _ _ _ _ (s.note _).stack
        rw [stack_note, hs]
        exact .wrote _ _ _ (live_of_stance (hm.stance 0) hx)
      · next hraised =>
        refine ⟨some i, .hush hd (((Mute.refl s).push _).go _).toHush hq rfl (fun _ => hf) ?_ ?_⟩
        · show Position _ _ _ _ (.writing w watch :: s.stack)
          rw [hs]
          exact .writing (A := []) _ hx hw hne rfl (by simp)
        · refine ⟨Nat.le_refl _, fun _ h => .inl h, fun _ h => .inl h, fun _ h => .inl h, by rintro _ _ ⟨⟩,
            fun _ _ j hj hin => ?_,
            fun _ h => .inl h⟩
          cases hj
          have hin : i ∈ s.raised := hin
          refine hraised ?_
          rw [hw]
          simpa [isRaised] using hin

theorem writing_progress {watch : Nat} {A : List Frame} (hw : w.deadline = some i) (hne : watch ≠ i)
    (hs : s.stack = A ++ .writing w watch :: [.writeDeadline i, .runWritten run total])
    (hA : ∀ f ∈ A, f.isInner = true) (hc : s.control.isPumping = true) (hsize : s.handles.length = 1)
    (hfree : s.loop.ScriptFree) : Progress s s.step log (.input run) (.input run) (some i) (some i) := by
  by_cases hend : ∃ b, s.control = .value (.passed b) ∧ A = []
  · obtain ⟨b, hv, rfl⟩ := hend
    rw [step_value hv hs]
    have hpop : Mute s ({ s with stack := [.writeDeadline i, .runWritten run total] } : Machine) :=
      mute_of_eq rfl rfl rfl
    exact .stay hd (hpop.go (.awaitWritable w watch)) (by rw [hv]; rfl) rfl (fun _ => hf)
      (.awaitWritable total hx hw hne) (fun _ h => h) rfl
  · refine pumping_progress hd hf hx (by simp [Phase.rank]) (by simp [Phase.rank]) hsize hfree hs hA hc ?_
      (fun b hv hnil => hend ⟨b, hv, hnil⟩) fun y c B hy hc hB => .writing total hy hw hne hc hB
    intro u v hv
    cases v <;> first | rfl | exact absurd rfl (hv _)

theorem wrote_progress {r : Except WriteError Nat} (hc : s.control = .value (.wrote r))
    (hs : s.stack = [.writeDeadline i, .runWritten run total]) :
    Progress s s.step log (.input run) (.input run) none none := by
  have hq : s.control.isQuiet = true := by rw [hc]; rfl
  rw [step_value hc hs]
  have hpop : Mute s ({ s with stack := [.runWritten run total] } : Machine) := mute_of_eq rfl rfl rfl
  exact .stay hd (((hpop.removeWatch i).lower i).yield (.wrote r)) hq rfl (fun _ => hf) (.written _ _ hx)
    (fun _ h => h)
    rfl

theorem written_progress {r : Except WriteError Nat} (hc : s.control = .value (.wrote r))
    (hs : s.stack = [.runWritten run total]) : ∃ p', Progress s s.step log (.input run) p' none none := by
  have hq : s.control.isQuiet = true := by rw [hc]; rfl
  rw [step_value hc hs]
  have hpop : Mute s ({ s with stack := [] } : Machine) := mute_of_eq rfl rfl rfl
  have hgo : Progress s (Machine.go { s with stack := [] } (.finishInput run false)) log (.input run)
    (.input run) none
      none :=
    .stay hd (hpop.go _) hq rfl (fun _ => hf) (.finishInput run hx) (fun _ h => h) rfl
  have habort : ∀ cause, Progress s
    ((Machine.push { s with stack := [] } (.runAborted run cause)).go (.dispose 0)) log
      (.input run) (.leave run (.aborted cause)) none none := fun cause =>
    .hush hd ((hpop.push _).go _).toHush hq rfl (fun _ => trivial) (.dispose run (.aborted cause) hx)
      (leads_on (by simp [Phase.rank]) (fun _ h => h) (by rintro _ ⟨⟩) (fun _ h => h) rfl (by rintro _ ⟨⟩))
  -- a trouble with the input is no word of the child
  have htrouble : ∀ (tr : Run.Trouble) (b : Bool) (p' : Phase), tr.isStream = false →
      p'.Fits (s.handle 0) (s.trouble tr).captured log →
      Position (s.handle 0) p' none (.finishInput run b) [] →
      Leads s ((Machine.trouble { s with stack := [] } tr).go (.finishInput run b)) (.input run) p' none none →
      Progress s ((Machine.trouble { s with stack := [] } tr).go (.finishInput run b)) log
      (.input run) p' none none := by
    intro tr b p' htr hfits hpos hl
    have hheard : Heard (s.trouble tr).captured log := (hd.all hq).trouble htr
    exact ⟨⟨[], rfl, delivery_of_quiet rfl (hd.voice hq) hheard, hfits⟩, rfl, hpos, hl⟩
  have hstay : ∀ tr, tr.isStream = false → (∀ n total, tr ≠ .undelivered n total) → Progress s
      ((Machine.trouble { s with stack := [] } tr).go (.finishInput run false)) log (.input run)
      (.input run) none none := by
    intro tr htr hne
    refine htrouble tr false _ htr (fun n total hm => ?_) (.finishInput run hx)
      (leads_on (Nat.le_refl _) (fun _ h => h) (fun _ h => .inl h) (fun _ h => h) rfl (by rintro _ ⟨⟩))
    rcases List.mem_append.1 hm with hm | hm
    · exact hf n total hm
    · exact hne n total (List.mem_singleton.1 hm).symm
  show ∃ p', Progress s (runWritten { s with stack := [] } run total r) log (.input run) p' none none
  unfold runWritten
  split
  · exact ⟨_, hgo⟩
  · exact ⟨_, hgo⟩
  · next n =>
    refine ⟨_, htrouble (.undelivered n total) true (.leave run (.waited (.error .timeout))) rfl ?_ (.lapsed run hx)
      (leads_on (by simp [Phase.rank]) (fun _ h => h) (by rintro _ ⟨⟩) (fun _ h => h) rfl (by rintro _ ⟨⟩))⟩
    exact ⟨seen_timeout, fun _ _ _ => rfl⟩
  · split
    · exact ⟨_, hstay _ rfl (by rintro _ _ ⟨⟩)⟩
    · exact ⟨_, habort _⟩
  · exact ⟨_, habort _⟩

end Input

/-! ## The end of the input -/

theorem finishInput_progress (hd : Delivery s.control (s.handle 0) s.captured log)
    (hf : ∀ n total, .undelivered n total ∉ s.captured.troubles) (hx : (s.handle 0).Live)
    (hc : s.control = .finishInput run false) (hs : s.stack = []) :
    Progress s s.step log (.input run) (.await run) none none := by
  have hq : s.control.isQuiet = true := by rw [hc]; rfl
  have hstep : s.step = s.finishInput run false := by rw [step, hc]
  have hm := (Mute.refl s).closeStdin 0
  have hstack : (s.closeStdin 0).stack = [] := (stack_closeStdin s 0).trans hs
  rw [hstep]
  refine .hush hd ((hm.push (.runWaited run)).go (.wait 0 _)).toHush hq rfl (fun _ => hf) ?_ ?_
  · show Position _ _ _ _ (.runWaited run :: (s.closeStdin 0).stack)
    rw [hstack]
    exact .wait (p := .await run) _ (live_of_stance (hm.stance 0) hx) rfl
  · refine ⟨by simp [Phase.rank], fun _ h => .inl h, by rintro _ ⟨⟩, by rintro _ ⟨⟩, fun h τ hw => ?_,
      by rintro _ ⟨⟩,
      by rintro _ ⟨⟩⟩
    cases hw
    refine ⟨by simp [Phase.rank], ?_⟩
    show run.spec.timeout - ((s.closeStdin 0).kernel.now - run.started) = _
    rw [(apart_closeStdin s 0).now]

theorem lapsed_progress (hd : Delivery s.control (s.handle 0) s.captured log)
    (hf : Ending.Fits (s.handle 0) s.captured (.waited (.error .timeout))) (hx : (s.handle 0).Live)
    (hc : s.control = .finishInput run true) (hs : s.stack = []) :
    Progress s s.step log (.leave run (.waited (.error .timeout))) (.leave run (.waited (.error .timeout)))
    none none := by
  have hq : s.control.isQuiet = true := by rw [hc]; rfl
  have hstep : s.step = s.finishInput run true := by rw [step, hc]
  have hm := ((Mute.refl s).closeStdin 0).go (.finishWait run (.error .timeout))
  rw [hstep]
  refine .stay hd hm hq rfl (fun _ => endingFits_of_stance (hm.stance 0) hf) ?_ (fun _ h => h) rfl
  show Position _ _ _ _ (s.closeStdin 0).stack
  rw [(stack_closeStdin s 0).trans hs]
  exact .finishWait run _ (live_of_stance (hm.stance 0) hx)

/-- What a wait has found is kept in mind until the run is over. -/
theorem finishWait_spec {r : Except WaitError ExitStatus} (hm : Mute s u) (hk : u.stack = [])
    (hp : p.rank ≤ 3) (hrun : p.run? = some run) (hending : ∀ e, p.ending? = some e → e = .waited r)
    (hd : Delivery s.control (s.handle 0) s.captured log) (hq : s.control.isQuiet = true)
    (hf : Ending.Fits (s.handle 0) s.captured (.waited r)) (hx : (s.handle 0).Live) :
    Progress s (u.finishWait run r) log p (.leave run (.waited r)) d none := by
  have key : ∀ {v : Machine}, Mute s v → v.stack = [] →
      Progress s ((v.push (.runDisposed run r)).go (.dispose 0)) log p (.leave run (.waited r)) d none := by
    intro v hv hvk
    have hgone := (hv.push (.runDisposed run r)).go (.dispose 0)
    refine .hush hd hgone.toHush hq rfl (fun _ => endingFits_of_stance (hgone.stance 0) hf) ?_
      (leads_on hp (fun _ h => hrun.trans h) (fun e he => .inl ?_) (by simp) rfl (by rintro _ ⟨⟩))
    · show Position _ _ _ _ (.runDisposed run r :: v.stack)
      rw [hvk]
      exact .dispose run (.waited r) (live_of_stance (hgone.stance 0) hx)
    · rw [hending e he]
      rfl
  unfold finishWait
  dsimp only
  split
  · exact key (hm.note _) ((stack_note _ _).trans hk)
  · exact key hm hk

end Machine

end Overseer
