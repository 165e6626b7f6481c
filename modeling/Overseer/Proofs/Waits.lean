import Overseer.Proofs.ChildWaits

/-!
# Waits are exact

A wait for a running child sets its timer, and goes through passes until the child is reaped or the timer
has rung.  What callbacks do above it, it does not see.

    begun  →  awake  ⇄  pumping        awake  →  caught,  expired

If the child exits up to the end of the time, its exit is caught; a wait that has expired has found out that
the child was still running when the time was up.

Main statement: `wait_is_exact`.
-/

namespace Overseer

open Supervisor

namespace Supervisor

/-- A final answer tells this status. -/
def Entry.tells (raw : Int) : Entry → Bool
  | asked _ a => !a.isFinal || a == .ended raw
  | _ => true

end Supervisor

namespace Machine

/-- The first final answer about the child tells its exit. -/
def Honest (exit : Option (Nat × Int)) (h g : Nat) (log : List Entry) : Prop :=
  ∀ newer older p a, log = newer ++ .asked p a :: older → Bears h g p older → collected p older = false →
    a.isFinal = true → ∃ e ∈ exit, a = .ended e.2

/-- What a wait whose time is up at `due` has found. -/
structure Exact (exit : Option (Nat × Int)) (h due : Nat) (s : Machine) (r : Except WaitError ExitStatus) : Prop where
  caught : ∀ e ∈ exit, e.1 ≤ due → r = .ok (.ofWait e.2)
  real : ∀ st, r = .ok st → ∃ e ∈ exit, st = .ofWait e.2
  timeout : r = .error .timeout → due ≤ s.kernel.now ∧ (∀ e ∈ exit, due < e.1) ∧
    (s.handle h).state = .running ∧ (s.handle h).status = none
  running : r ≠ .error .notRunning

/-- Where a wait is whose time is not up before `due`, upon the frames `K` of its callers. -/
inductive Vigil (exit : Option (Nat × Int)) (h g due : Nat) (K : List Frame) (s : Machine) (log : List Entry) : Prop
  | begun (timeout : Nat) (hc : s.control = .wait h timeout) (hst : s.stack = K) (hg : (s.handle h).generation = g)
      (hrun : (s.handle h).state = .running) (hd : due ≤ s.kernel.now + timeout)
  | awake (i D : Nat) (hc : s.control = .awaitExit h i) (hst : s.stack = K) (hd : due ≤ D)
    (hw : Waited exit h g i D s)
  | pumping (i D : Nat) (A : List Frame) (hst : s.stack = A ++ .waiting h i :: K)
      (hA : ∀ f ∈ A, f.Aloof h i (Listed exit h g i D s))
      (hc : s.control.Aloof h i (Listed exit h g i D s) (D ≤ s.kernel.now ∧ Sure exit h g D s)) (hd : due ≤ D)
      (hw : Waited exit h g i D s)
  | caught (st : ExitStatus) (hc : s.control = .value (.waited (.ok st))) (hst : s.stack = K)
    (hf : Firsthand h g st log)
  | expired (hc : s.control = .value (.waited (.error .timeout))) (hst : s.stack = K) (hnow : due ≤ s.kernel.now)
      (hlate : ∀ e ∈ exit, due < e.1) (hrun : (s.handle h).state = .running)

variable {s t : Machine} {log : List Entry} {h g i D due : Nat} {exit : Option (Nat × Int)} {past : List Machine}
  {A K : List Frame}

/-! ## Steps of the wait itself -/

/-- The timer of a wait is new. -/
theorem begun_step (hr : Run (Sole h g) s log) {timeout : Nat} (hc : s.control = .wait h timeout) (hst : s.stack = K)
    (hg : (s.handle h).generation = g) (hrun : (s.handle h).state = .running) (hd : due ≤ s.kernel.now + timeout) :
    Vigil exit h g due K s.step (s.news ++ log) := by
  obtain ⟨past, ht⟩ := trail_of_run hr
  have htidy : s.loop.Tidy := (custody_run hr).sound.tidy
  have hstep : s.step = (s.addTimer timeout Loop.Priority.normal .raise).2.go (.awaitExit h (s.loop.lastId + 1)) := by
    rw [step, hc]
    unfold wait
    dsimp only
    rw [hrun]
    rfl
  rw [hstep]
  refine .awake (s.loop.lastId + 1) (s.kernel.now + timeout) rfl hst hd ⟨hg, .inl hrun, Nat.le_refl _, ?_, ?_, ?_⟩
  · intro k hk _
    obtain ⟨w, hw, hwk⟩ := Loop.mem_wards.1 (Loop.mem_own.1 hk).1
    rcases List.mem_append.1 hw with hw | hw
    · have hle : k.id ≤ s.loop.lastId := Loop.ward?_id hwk ▸ htidy.le _ (List.mem_map_of_mem hw)
      exact Nat.lt_succ_of_le hle
    · rw [List.mem_singleton.1 hw] at hwk
      cases hwk
  · exact .armed timeout (List.mem_append_right _ List.mem_cons_self)
  · intro hraised
    have hle : s.loop.lastId + 1 ≤ s.loop.lastId := ((accounts_trail ht).marks.raised _ (.inl hraised)).1
    omega

/-- A wait that looks at its handle has an answer, or it goes through one more pass. -/
theorem awake_step (hr : Run (Sole h g) s log) (hK : ∀ z ∈ K.flatMap Frame.reapings, z.h ≠ h)
    (hc : s.control = .awaitExit h i) (hst : s.stack = K) (hd : due ≤ D) (hw : Waited exit h g i D s) :
    Vigil exit h g due K s.step (s.news ++ log) := by
  have hstep : s.step = s.awaitExit h i := by rw [step, hc]
  rcases hw.alive with hrun | hreaped
  · have hcase : s.awaitExit h i = if s.isRaised i then s.endWait i (.error .timeout)
        else (s.push (.waiting h i)).go (.pass true) := by
      unfold awaitExit
      dsimp only
      rw [hrun]
    rw [hstep, hcase]
    by_cases hraised : s.isRaised i = true
    · rw [if_pos hraised]
      obtain ⟨hnow, hsure⟩ := hw.rung (List.contains_iff_mem.1 hraised)
      refine .expired rfl hst (Nat.le_trans hd hnow) (fun e he => Nat.lt_of_le_of_lt hd ?_) hrun
      rcases hsure with hlate | hreaped | ⟨z, hz, hzh, -⟩
      · exact hlate e he
      · rw [hrun] at hreaped
        cases hreaped
      · rw [reapings, hc, hst] at hz
        exact absurd hzh (hK z hz)
    · rw [if_neg hraised]
      refine .pumping i D [] (by rw [← hst]; rfl) (by simp) trivial hd
        ⟨hw.generation, hw.alive, hw.le, hw.elder, ?_, ?_⟩
      · cases hw.alarm with
        | armed interval hm => exact .armed interval hm
        | ringing payload hring =>
          rw [hc] at hring
          cases hring
        | rung hr => exact .rung hr
      · exact fun hr => absurd (List.contains_iff_mem.2 hr) hraised
  · obtain ⟨st, hst', -⟩ := ((custody_run hr).handle h).reaped hreaped
    have hst' : (s.handle h).status = some st := hst'
    have hcase : s.awaitExit h i = s.endWait i (.ok st) := by
      unfold awaitExit
      dsimp only
      rw [hreaped, hst']
    have hf : Firsthand h g st log := (known_run hr).reaped hreaped hw.generation st hst'
    rw [hstep, hcase]
    exact .caught st rfl hst (hf.append _)

/-! ## Steps above it -/

theorem open_of_alive (ha : (s.handle h).state = .running ∨ (s.handle h).state = .reaped) :
    (s.handle h).state ≠ .closed := by
  rcases ha with ha | ha <;> (rw [ha]; nofun)

/-- When a pass is over, the wait looks at its handle again. -/
theorem woken_step {v : Value} (ht : Trail past s log) (hc : s.control = .value v) (hst : s.stack = .waiting h i :: K)
    (hd : due ≤ D) (hw : Waited exit h g i D s) : Vigil exit h g due K s.step (s.news ++ log) := by
  have hstep : s.step = { s with stack := K }.resume (.waiting h i) v := by
    rw [step, hc]
    dsimp only
    rw [hst]
  have hopen : (s.step.handle h).state ≠ .closed := by
    have hsame : s.step.handle h = s.handle h := by
      rw [hstep]
      cases v <;> rfl
    rw [hsame]
    exact open_of_alive hw.alive
  have hnext : Waited exit h g i D s.step := by
    refine waited_step ht hw hopen (by rw [lowers, hc, hst]; cases v <;> exact List.not_mem_nil)
      fun payload hring => ?_
    rw [hc] at hring
    cases hring
  cases v with
  | passed p => exact .awake i D (by rw [hstep]; rfl) (by rw [hstep]; rfl) hd hnext
  | _ =>
    have hcontrol : s.step.control = s.control := by rw [hstep]; rfl
    refine .pumping i D [] (by rw [hstep]; rfl) (by simp) ?_ hd hnext
    rw [hcontrol, hc]
    trivial

/-- What is done above the wait leaves it alone. -/
theorem pumping_step (ht : Trail past s log) (hleave : s.upon? ≠ some h) (hprompt : Prompt exit h s)
    (hst : s.stack = A ++ .waiting h i :: K) (hA : ∀ f ∈ A, f.Aloof h i (Listed exit h g i D s))
    (hc : s.control.Aloof h i (Listed exit h g i D s) (D ≤ s.kernel.now ∧ Sure exit h g D s)) (hd : due ≤ D)
    (hw : Waited exit h g i D s) : Vigil exit h g due K s.step (s.news ++ log) := by
  by_cases hwoken : A = [] ∧ ∃ v, s.control = .value v
  · obtain ⟨rfl, v, hv⟩ := hwoken
    exact woken_step ht hv hst hd hw
  · have hbusy : A = [] → ∀ v, s.control ≠ .value v := fun hnil v hv => hwoken ⟨hnil, v, hv⟩
    have hopen : (s.step.handle h).state ≠ .closed := by
      have hleft := aloof_step (P := fun _ _ => True) (R := True) hst
        (fun f hf => (hA f hf).mono fun _ _ _ => trivial) hc hw.le hleave hbusy (fun _ _ _ _ _ => trivial)
        (fun _ _ _ _ _ _ _ => trivial) fun _ _ _ _ _ _ => trivial
      exact fun hclosed => open_of_alive hw.alive (hleft.2.2 hclosed)
    have hlow : i ∉ s.lowers := lowers_of_aloof hst hA hc nofun
    have hnext : Waited exit h g i D s.step := by
      refine waited_step ht hw hopen hlow fun payload hring => ?_
      rw [hring] at hc
      exact hc rfl
    obtain ⟨⟨A', hst', hA'⟩, hc', -⟩ := aloof_step (P := Listed exit h g i D s.step)
      (R := D ≤ s.step.kernel.now ∧ Sure exit h g D s.step) hst
      (fun f hf => (hA f hf).mono fun _ _ => listed_step ht hw hopen) hc hw.le hleave hbusy
      (fun id rest now ran hdis => listed_next ht hw hopen hdis (by rw [hdis] at hc; exact hc))
      (fun rest now ran job l hdis htake => ring_step ht hw hopen hdis htake (by rw [hdis] at hc; exact hc))
      (fun b ids now ran hpass hdis => listed_of_pass ht hw hopen hprompt hpass hdis)
    exact .pumping i D A' hst' hA' hc' hd hnext

/-! ## Between two steps -/

section

variable (hb : Between s t) (hnow : s.kernel.now ≤ t.kernel.now)

include hb

theorem Sure.later (hs : Sure exit h g D s) : Sure exit h g D t := by
  unfold Sure
  rw [hb.handle h, hb.reapings]
  exact hs

include hnow

theorem Listed.later {ids : List Nat} {now : Nat} (hl : Listed exit h g i D s ids now) :
    Listed exit h g i D t ids now := by
  refine ⟨Nat.le_trans hl.1 hnow, fun hi hd => ?_⟩
  rcases hl.2 hi hd with hs | ha
  · exact .inl (hs.later hb)
  · refine .inr ?_
    unfold Ahead
    rw [hb.own]
    exact ha

theorem Waited.later (hraised : t.raised = s.raised)
    (hctl : t.control = s.control ∨ ∀ payload, s.control ≠ .invoke i .raise payload)
    (hw : Waited exit h g i D s) :
    Waited exit h g i D t := by
  refine ⟨?_, ?_, ?_, ?_, ?_, fun hr => ?_⟩
  · rw [hb.handle h]
    exact hw.generation
  · rw [hb.handle h]
    exact hw.alive
  · rw [hb.lastId]
    exact hw.le
  · rw [hb.own]
    exact hw.elder
  · cases hw.alarm with
    | armed interval hm => exact .armed interval (by rw [hb.watches]; exact hm)
    | ringing payload hring =>
      rcases hctl with hctl | hctl
      · exact .ringing payload (hctl.trans hring)
      · exact absurd hring (hctl payload)
    | rung hr => exact .rung (hraised ▸ hr)
  · obtain ⟨hle, hs⟩ := hw.rung (hraised ▸ hr)
    exact ⟨Nat.le_trans hle hnow, hs.later hb⟩

end

/-- Time may pass between two steps of a wait. -/
theorem vigil_between (hb : Between s t) (hnow : s.kernel.now ≤ t.kernel.now) (hraised : t.raised = s.raised)
    (hst : t.stack = s.stack) (hctl : t.control = s.control ∨
      (∃ spec, s.control = .suspended spec) ∧ ∃ a, t.control = .value (.answer a))
    (hv : Vigil exit h g due K s log) : Vigil exit h g due K t log := by
  have same : (∀ spec, s.control ≠ .suspended spec) → t.control = s.control := fun hawake =>
    hctl.resolve_right fun hs => hs.1.elim hawake
  cases hv with
  | begun timeout hc hst' hg hrun hd =>
    refine .begun timeout ((same (by rw [hc]; nofun)).trans hc) (hst.trans hst') ?_ ?_
      (Nat.le_trans hd (Nat.add_le_add_right hnow _))
    · rw [hb.handle h]
      exact hg
    · rw [hb.handle h]
      exact hrun
  | awake i D hc hst' hd hw =>
    have hsame := same (by rw [hc]; nofun)
    exact .awake i D (hsame.trans hc) (hst.trans hst') hd (hw.later hb hnow hraised (.inl hsame))
  | pumping i D A hst' hA hc hd hw =>
    have hA' : ∀ f ∈ A, f.Aloof h i (Listed exit h g i D t) :=
      fun f hf => (hA f hf).mono fun _ _ hl => hl.later hb hnow
    rcases hctl with hsame | ⟨⟨spec, hs⟩, a, ha⟩
    · refine .pumping i D A (hst.trans hst') hA' ?_ hd (hw.later hb hnow hraised (.inl hsame))
      rw [hsame]
      exact hc.mono (fun _ _ hl => hl.later hb hnow) fun hr => ⟨Nat.le_trans hr.1 hnow, hr.2.later hb⟩
    · refine .pumping i D A (hst.trans hst') hA' (by rw [ha]; trivial) hd (hw.later hb hnow hraised (.inr ?_))
      rw [hs]
      nofun
  | caught st hc hst' hf => exact .caught st ((same (by rw [hc]; nofun)).trans hc) (hst.trans hst') hf
  | expired hc hst' hle hlate hrun =>
    refine .expired ((same (by rw [hc]; nofun)).trans hc) (hst.trans hst') (Nat.le_trans hle hnow) hlate ?_
    rw [hb.handle h]
    exact hrun

/-! ## The whole wait -/

/-- A wait that has not returned takes a step. -/
theorem vigil_step (hr : Run (Sole h g) s log) (hK : ∀ z ∈ K.flatMap Frame.reapings, z.h ≠ h)
    (hleave : s.upon? ≠ some h)
    (hprompt : Prompt exit h s) (hret : returned K.length s = false) (hv : Vigil exit h g due K s log) :
    Vigil exit h g due K s.step (s.news ++ log) := by
  obtain ⟨past, ht⟩ := trail_of_run hr
  cases hv with
  | begun timeout hc hst hg hrun hd => exact begun_step hr hc hst hg hrun hd
  | awake i D hc hst hd hw => exact awake_step hr hK hc hst hd hw
  | pumping i D A hst hA hc hd hw => exact pumping_step ht hleave hprompt hst hA hc hd hw
  | caught st hc hst hf =>
    rw [returned, hc, hst] at hret
    simp at hret
  | expired hc hst hnow hlate hrun =>
    rw [returned, hc, hst] at hret
    simp at hret

/-- Nothing is started before the wait has returned. -/
theorem returned_of_idle (hi : s.isIdle = true) (hv : Vigil exit h g due K s log) : returned K.length s = true := by
  obtain ⟨⟨v, hc'⟩, hst'⟩ := control_of_isIdle hi
  cases hv with
  | begun timeout hc => rw [hc'] at hc; cases hc
  | awake i D hc => rw [hc'] at hc; cases hc
  | pumping i D A hst => rw [hst'] at hst; simp at hst
  | caught st hc hst hf => rw [returned, hc, hst]; simp
  | expired hc hst hnow hlate hrun => rw [returned, hc, hst]; simp

/-- Wherever it is, a wait keeps its vigil. -/
theorem vigil_call {x y : Machine × List Entry} (hr : Run (Sole h g) x.1 x.2)
    (hK : ∀ z ∈ x.1.stack.flatMap Frame.reapings, z.h ≠ h) (hv : Vigil exit h g due x.1.stack x.1 x.2)
    (hc : Clocked (· ≤ ·) (fun s => Sole h g s ∧ s.upon? ≠ some h ∧ Prompt exit h s) x y) :
    Run (Sole h g) y.1 y.2 ∧ Vigil exit h g due x.1.stack y.1 y.2 := by
  induction hc with
  | refl => exact ⟨hr, hv⟩
  | @tail u v _ hm ih =>
    obtain ⟨hrun, hvigil⟩ := ih
    obtain ⟨hmove, hret, htime⟩ := hm
    have hnow : u.1.kernel.now ≤ v.1.kernel.now := by
      rcases htime with rfl | hle
      · exact now_le_step u.1
      · exact hle
    cases hmove with
    | step hg => exact ⟨hrun.move (.step hg.1), vigil_step hrun hK hg.2.1 hg.2.2 hret hvigil⟩
    | @elsewhere s log k =>
      have hb : Between s (s.withKernel k) := ⟨rfl, rfl, rfl, rfl, rfl, rfl⟩
      exact ⟨hrun.move (.elsewhere k), vigil_between hb hnow rfl rfl (.inl rfl) hvigil⟩
    | @rejoin s log spec inner a hs =>
      have hb : Between s (Session.rejoin s inner a) := by
        refine ⟨rfl, rfl, rfl, rfl, ?_, ?_⟩
        · rw [held, held, hs]
          rfl
        · rw [reapings, reapings, hs]
          rfl
      exact ⟨hrun.move (.rejoin inner a hs),
        vigil_between hb hnow rfl rfl (.inr ⟨⟨spec, hs⟩, a, rfl⟩) hvigil⟩
    | start op hi =>
      rw [returned_of_idle hi hvigil] at hret
      cases hret
    | ending hi =>
      rw [returned_of_idle hi hvigil] at hret
      cases hret

/-- A final answer about the child that came first tells its exit. -/
theorem exit_of_firsthand {st : ExitStatus} (hhonest : Honest exit h g log) (hf : Firsthand h g st log) :
    ∃ e ∈ exit, st = .ofWait e.2 := by
  obtain ⟨newer, older, p, a, hlog, hb, hc, hfin, hst⟩ := hf
  obtain ⟨e, he, rfl⟩ := hhonest newer older p a hlog hb hc hfin
  exact ⟨e, he, (Option.some.inj hst).symm⟩

/-- A wait that has returned has found out what there was to find out. -/
theorem exact_of_vigil {r : Except WaitError ExitStatus} (hr : Run (Sole h g) s log) (hhonest : Honest exit h g log)
    (hv : s.control = .value (.waited r)) (hst : s.stack = K) (hw : Vigil exit h g due K s log) :
    Exact exit h due s r := by
  cases hw with
  | begun timeout hc => rw [hv] at hc; cases hc
  | awake i D hc => rw [hv] at hc; cases hc
  | pumping i D A hst' =>
    have hlen := congrArg List.length (hst.symm.trans hst')
    simp at hlen
    omega
  | caught st hc hst' hf =>
    rw [hv] at hc
    cases hc
    obtain ⟨e, he, rfl⟩ := exit_of_firsthand hhonest hf
    refine ⟨fun e' he' _ => ?_, fun st' hst' => ⟨e, he, ?_⟩, nofun, nofun⟩
    · obtain rfl : e = e' := Option.some.inj (he.symm.trans he')
      rfl
    · cases hst'
      rfl
  | expired hc hst' hnow hlate hrun =>
    rw [hv] at hc
    cases hc
    have hnone : (s.handle h).status = none := ((ordered_run hr h).running hrun).2
    refine ⟨fun e he hle => ?_, nofun, fun _ => ⟨hnow, hlate, hrun, hnone⟩, nofun⟩
    exact absurd hle (Nat.not_le_of_lt (hlate e he))

/-- If no other watch is on its child, and callbacks leave its handle alone, a wait that returns has caught
the exit of a child that has exited in time, and only then. -/
theorem wait_is_exact {x y : Machine × List Entry} {timeout : Nat} {r : Except WaitError ExitStatus}
    (hr : Run (Sole h (x.1.handle h).generation) x.1 x.2) (hc : x.1.control = .wait h timeout)
    (hrun : (x.1.handle h).state = .running)
    (hcallers : ∀ z ∈ x.1.reapings, z.h ≠ h)
    (hwait : Clocked (· ≤ ·) (fun s => Sole h (x.1.handle h).generation s ∧ s.upon? ≠ some h ∧
      Prompt exit h s) x y)
    (hhonest : Honest exit h (x.1.handle h).generation y.2) (hv : y.1.control = .value (.waited r))
    (hst : y.1.stack = x.1.stack) : Exact exit h (x.1.kernel.now + timeout) y.1 r := by
  have hK : ∀ z ∈ x.1.stack.flatMap Frame.reapings, z.h ≠ h := by
    rw [reapings, hc] at hcallers
    exact hcallers
  obtain ⟨hrun', hvigil⟩ := vigil_call hr hK (.begun timeout hc rfl rfl hrun (Nat.le_refl _)) hwait
  exact exact_of_vigil hrun' hhonest hv hst hvigil

/-! ### A tie -/

instance (h g : Nat) (s : Machine) : Decidable (Sole h g s) :=
  inferInstanceAs (Decidable ((s.handle h).generation = g → (s.handle h).state = .running →
    ∀ k ∈ s.loop.wards, (s.handle h).pid = some k.pid → (s.handle h).childWatch = some k.id))

instance (exit : Option (Nat × Int)) (h : Nat) (s : Machine) : Decidable (Prompt exit h s) :=
  inferInstanceAs (Decidable (∀ p ∈ (s.handle h).pid, ∀ e ∈ exit,
    foundRunning p s.news = true → s.step.kernel.now < e.1))

theorem honest_of_tells {time : Nat} {raw : Int} (hall : ∀ e ∈ log, e.tells raw = true) :
    Honest (some (time, raw)) h g log := by
  rintro newer older p a rfl - - hfin
  have htells := hall _ (List.mem_append_right _ List.mem_cons_self)
  simp only [Entry.tells, hfin, Bool.not_true, Bool.false_or, beq_iff_eq] at htells
  exact ⟨_, rfl, htells⟩

/-- A wait of 30 ms begins, for a child that is going to exit after 30 ms. -/
def awaited : Machine × List Entry :=
  carry (carry (.fresh .standard 10000000 [] (.fresh true), [])
    (.spawn "a" (.ofArgs ["/bin/sleep", "0.03"]) ⟨.standard, [(30000000, .child 0 (.exit 768 []))]⟩ none) 1)
    (.wait "a" 30000000) 1

theorem exact_of_awaited : Run (Sole 0 1) awaited.1 awaited.2 ∧ awaited.1.control = .wait 0 30000000 ∧
    (walk 30 awaited).1.control = .value (.waited (.ok (.exited 3))) ∧ (walk 30 awaited).1.kernel.now = 30000000 ∧
    Exact (some (30000000, 768)) 0 30000000 (walk 30 awaited).1 (.ok (.exited 3)) := by
  have hrun : Run (Sole 0 1) awaited.1 awaited.2 :=
    Run.carry (Run.carry (Run.init (.fresh .standard 10000000 [] (.fresh true) true)) rfl
      (by decide +kernel)) (by decide)
      (by decide +kernel)
  have hwait : Clocked (· ≤ ·) (fun s => Sole 0 1 s ∧ s.upon? ≠ some 0 ∧
    Prompt (some (30000000, 768)) 0 s) awaited
      (walk 30 awaited) := Clocked.walk (by decide +kernel) (by decide +kernel)
  have hhonest : Honest (some (30000000, 768)) 0 1 (walk 30 awaited).2 := honest_of_tells (by decide +kernel)
  have hstack : (walk 30 awaited).1.stack = [.reply 0] := rfl
  have hvalue : (walk 30 awaited).1.control = .value (.waited (.ok (.exited 3))) := rfl
  exact ⟨hrun, rfl, hvalue, by decide +kernel,
    wait_is_exact (x := awaited) hrun rfl rfl (by decide) hwait hhonest hvalue hstack⟩

end Machine

end Overseer
