import Overseer.Proofs.Custody

/-!
# Signals and exits

Between the collection of an exit and the callback that hands it over, the handle still runs, and a
signal to it goes to a pid that is free again.  The exit is in hand when it stands on the ward of
the handle, or when the reap of the handle has begun and drains the streams.

    exitInHand s h  =  an exit of the current generation of h is parked on a ward, or is being reaped

    no exit in hand  →  the pid that is signalled has not been collected since its last spawn
    exit in hand     →  the signal is sent all the same

Main statement: `signal_spares_collected`.
-/

namespace Overseer

open Supervisor

namespace Supervisor

/-- An exit of generation `g` of handle `h` is parked on this ward. -/
def Ward.parks (k : Ward) (h g : Nat) : Bool :=
  match k.callback, k.status with
  | .reap i j, some _ => i == h && j == g
  | _, _ => false

end Supervisor

namespace Machine

/-- The child of this handle has been collected, but the handle has not been told yet. -/
def exitInHand (s : Machine) (h : Nat) : Bool :=
  (s.loop.wards.any fun k => k.parks h (s.handle h).generation) ||
    s.reapings.any fun x => x.h == h && x.g == (s.handle h).generation

/-- The next step starts no child that leads a process group of its own. -/
def startsNoGroup (s : Machine) : Prop :=
  ∀ c ∈ s.spawning?, c.flags.contains Command.Flags.newGroup = false

instance : DecidablePred startsNoGroup := fun s =>
  inferInstanceAs (Decidable (∀ c ∈ s.spawning?, c.flags.contains Command.Flags.newGroup = false))

/-- Signals to a handle that runs go to its child alone. -/
def Alone (s : Machine) : Prop :=
  ∀ h p, (s.handle h).state = .running → (s.handle h).pid = some p → (s.handle h).target = p

variable {o s : Machine} {σ τ : Scene} {log : List Entry}

/-! ## Lemmas -/

theorem alone_of_handles {t : Machine} (ha : Alone s)
    (hh : ∀ h, (t.handle h).state = .running → (s.handle h).state = .running ∧
      (t.handle h).pid = (s.handle h).pid ∧ (t.handle h).target = (s.handle h).target) : Alone t := by
  intro h p hrun hp
  obtain ⟨hrun', hpid, htarget⟩ := hh h hrun
  rw [htarget]
  exact ha h p hrun' (by rw [← hpid]; exact hp)

theorem alone_effect (hg : o.startsNoGroup) (hc : Custody σ log)
    (ha : Alone σ.machine) (h : Effect o σ τ) : Alone τ.machine := by
  rcases effect_cases h hc.sound with ⟨hq, -⟩ | hch
  · refine alone_of_handles ha fun i hi => ?_
    have hf := hq.handles i
    exact ⟨by rw [← hf.state]; exact hi, hf.pid, hf.target⟩
  · cases hch with
    | collected => exact ha
    | taken => exact ha
    | @adopted s t held rs i c e pid had ho he hk hs =>
      have hgroup : e.newGroup = false := by rw [he]; exact hg c ho
      intro j p hrun hp
      dsimp only at hrun hp ⊢
      rcases had.cases j with hj | ⟨rfl, hl⟩
      · rw [hj] at hrun hp ⊢
        exact ha j p hrun hp
      · obtain ⟨out, err, hlife, -⟩ := had.life hl
        obtain ⟨-, -, hpid, htarget, -⟩ := Life.mk.inj hlife
        have hpid : (t.handle j).pid = some pid := hpid
        have htarget : (t.handle j).target = if e.newGroup then -pid else pid := htarget
        rw [hpid] at hp
        cases hp
        rw [htarget, hgroup]
        rfl
    | @closed s t held rs i hcl hlive ho hs hrs =>
      refine alone_of_handles ha fun j hj => ?_
      dsimp only at hj ⊢
      by_cases hji : j = i
      · have hstate : (t.handle i).state = .closed := congrArg Life.state hcl.handle
        rw [hji, hstate] at hj
        cases hj
      · rw [hcl.others j hji] at hj ⊢
        exact ⟨hj, rfl, rfl⟩
    | @reaped s held rs i pid st hx hrun =>
      refine alone_of_handles ha fun j hj => ?_
      dsimp only at hj ⊢
      rw [handle_mapHandle] at hj ⊢
      split at hj
      · cases hj
      · next hji =>
        rw [if_neg hji]
        exact ⟨hj, rfl, rfl⟩

theorem alone_run (hr : Run startsNoGroup s log) : Alone s := by
  refine run_keeps (P := fun σ _ => Alone σ.machine) (fun s hi => ?_) (fun s t log hb ha => ?_)
    (fun o σ τ log news hg hc ha he _ => alone_effect hg hc ha he) hr
  · intro h p hrun _
    obtain ⟨p', id, -, -, hsp, -⟩ := ((custody_initial hi).handle h).running hrun
    cases hsp
  · intro h p hrun hp
    have hh : t.handle h = s.handle h := by rw [handle, handle, hb.handles]
    rw [show t.scene.machine.handle h = t.handle h from rfl, hh] at hrun hp ⊢
    exact ha h p hrun hp

/-- What an effect adds to the journal, as far as signals go: each is sent to a handle that runs. -/
theorem signalled_effect (h : Effect o σ τ) : ∃ es, τ.machine.journal = es ++ σ.machine.journal ∧
    ∀ t sig r, .signalled t sig r ∈ es →
      ∃ i ∈ o.signalling, (o.handle i).state = .running ∧ (o.handle i).target = t := by
  have hplain : ∀ {es : List Entry}, (∀ e ∈ es, e.isPlain = true) → ∀ t sig r, .signalled t sig r ∈ es →
      ∃ i ∈ o.signalling, (o.handle i).state = .running ∧ (o.handle i).target = t := by
    intro es hp t sig r hm
    cases hp _ hm
  cases h with
  | still hst => exact ⟨[], hst.journal, by simp⟩
  | recorded e he => exact ⟨[e], rfl, hplain (by simpa using he)⟩
  | signalled i sig r ho hs hrs hrun =>
    refine ⟨[_], rfl, fun t sig' r' hm => ⟨i, ho, ?_, ?_⟩⟩
    · exact (congrArg Life.state (hs.life i)).symm.trans hrun
    · cases List.mem_singleton.1 hm
      exact (congrArg Life.target (hs.life i)).symm
  | added priority src hsrc => exact ⟨[_], rfl, by simp⟩
  | watched pid priority x ho => exact ⟨[_], rfl, by simp⟩
  | tagged tag id hid => exact ⟨[], rfl, by simp⟩
  | forgotten id hid => exact ⟨[], rfl, by simp⟩
  | released i st =>
    dsimp only
    unfold releaseStream
    split
    · exact ⟨[], rfl, by simp⟩
    · exact ⟨[_], rfl, by simp⟩
  | inputClosed i => exact ⟨[], (closeStdin_spec _ i).2.2.1, by simp⟩
  | lent w hw hn => exact ⟨[], rfl, by simp⟩
  | retouched l hl => exact ⟨[], rfl, by simp⟩
  | collected =>
    refine ⟨_, journal_collect _, ?_⟩
    intro t sig r hm
    obtain ⟨x, -, hx⟩ := List.mem_map.1 (List.mem_reverse.1 hm)
    cases hx
  | taken time w pid fd st cb hw hsrc => exact ⟨[_], rfl, by simp⟩
  | @adopted s held rs i c e pid ho he hk hs =>
    obtain ⟨before, after, hj, hb, ha⟩ := (adopted_adopt s i c e pid).journal
    refine ⟨after ++ .spawned i ((s.handle i).generation + 1) pid :: before, ?_, ?_⟩
    · rw [hj]
      simp
    · intro t sig r hm
      rcases List.mem_append.1 hm with hm | hm
      · exact hplain ha t sig r hm
      · rcases List.mem_cons.1 hm with hm | hm
        · cases hm
        · exact hplain hb t sig r hm
  | @closed s held rs i ho hs hrs =>
    by_cases hlive : (s.handle i).state = .running ∨ (s.handle i).state = .reaped
    · obtain ⟨es, he, hp⟩ := (closed_close s hlive).journal
      exact ⟨es, he, hplain hp⟩
    · exact ⟨[], by rw [close_eq_self s hlive]; rfl, by simp⟩
  | reaped i pid st hx hrun => exact ⟨[], rfl, by simp⟩
  | dropped hsub => exact ⟨[], rfl, by simp⟩
  | shed hsub hstale => exact ⟨[], rfl, by simp⟩

/-- Each signal of a step is sent to a handle that runs. -/
theorem signalled_step (ht : s.loop.Tidy) {t sig : Int} {r : Option Int}
    (hm : .signalled t sig r ∈ s.news) :
    ∃ h ∈ s.signalling, (s.handle h).state = .running ∧ (s.handle h).target = t := by
  have key : ∀ τ, Effects s s.scene τ → ∃ es, τ.machine.journal = es ++ s.journal ∧
      ∀ t sig r, .signalled t sig r ∈ es →
        ∃ h ∈ s.signalling, (s.handle h).state = .running ∧ (s.handle h).target = t := by
    intro τ h
    induction h with
    | refl => exact ⟨[], rfl, by simp⟩
    | tail _ he ih =>
      obtain ⟨es, hj, hes⟩ := ih
      obtain ⟨more, hj', hmore⟩ := signalled_effect he
      refine ⟨more ++ es, by rw [hj', hj, List.append_assoc], ?_⟩
      intro t sig r hm
      rcases List.mem_append.1 hm with hm | hm
      · exact hmore t sig r hm
      · exact hes t sig r hm
  obtain ⟨es, hj, hes⟩ := key _ (step_effects s ht)
  rw [news_eq hj] at hm
  exact hes t sig r hm

/-- A handle that runs although its child has been collected has the exit in hand. -/
theorem exitInHand_of_collected {h : Nat} {p : Int} (hc : Custody s.scene log)
    (hrun : (s.handle h).state = .running) (hp : (s.handle h).pid = some p)
    (hcol : collected p log = true) : s.exitInHand h = true := by
  obtain ⟨p', id, hpid, hcw, -, hwhere⟩ := (hc.handle h).running hrun
  obtain rfl : p' = p := Option.some.inj (hpid.symm.trans hp)
  unfold exitInHand
  rw [Bool.or_eq_true]
  rcases hwhere with ⟨k, hk, hid⟩ | ⟨st, hst⟩
  · obtain ⟨hcb, hkp⟩ := ((hc.handle h).child id hcw).2.2 k hk hid
    have hkp : k.pid = p' := Option.some.inj (hkp.symm.trans hpid)
    refine .inl (List.any_eq_true.2 ⟨k, (Loop.mem_own.1 hk).1, ?_⟩)
    cases hst : k.status with
    | none =>
      have := hc.untold k hk h _ hcb hst
      rw [hkp, hcol] at this
      cases this
    | some st =>
      have hcb : k.callback = .reap h (s.handle h).generation := hcb
      simp [Ward.parks, hcb, hst]
  · exact .inr (List.any_eq_true.2 ⟨_, hst, by simp [scene]⟩)

/-- An exit in hand is one that waitpid has told of this child. -/
theorem told_of_exitInHand {h : Nat} (hc : Custody s.scene log) (hin : s.exitInHand h = true) :
    ∃ st, Told h (s.handle h).generation st log := by
  unfold exitInHand at hin
  rw [Bool.or_eq_true] at hin
  rcases hin with hin | hin
  · obtain ⟨k, hk, hparks⟩ := List.any_eq_true.1 hin
    unfold Ward.parks at hparks
    split at hparks
    · next i j st hcb hst =>
      obtain ⟨rfl, rfl⟩ : i = h ∧ j = (s.handle h).generation := by simpa using hparks
      have hown : k ∈ s.loop.own := Loop.mem_own.2 ⟨hk, by rw [Ward.isOwn, hcb]⟩
      exact ⟨st, (hc.ward k hown i _ hcb).2 st hst⟩
    · cases hparks
  · obtain ⟨x, hx, heq⟩ := List.any_eq_true.1 hin
    obtain ⟨rfl, hg⟩ : x.h = h ∧ x.g = (s.handle h).generation := by simpa using heq
    rw [← hg]
    exact ⟨x.status, hc.reaping x hx⟩

theorem journal_kill {h : Nat} {sig : Int} (hrun : (s.handle h).state = .running)
    (hsig : Signal.isValid sig = true) :
    ∃ r, (s.kill h sig).2.journal = .signalled (s.handle h).target sig r :: s.journal := by
  refine ⟨(s.kernel.kill (s.handle h).target sig).1, ?_⟩
  unfold kill
  dsimp only
  rw [if_neg (by simpa using hrun), if_neg (by simpa using hsig)]
  split
  · rfl
  · split
    · rfl
    · split <;> rfl

theorem journal_note (s : Machine) (n : Notice) : ∃ es, (s.note n).journal = es ++ s.journal := by
  obtain ⟨es, he, -⟩ := (aside_note s n).journal
  exact ⟨es, he⟩

theorem isRunning_iff (x : Handle) : x.isRunning = true ↔ x.state = .running := by
  unfold Handle.isRunning
  simp

theorem journal_dispose {h : Nat} (hrun : (s.handle h).state = .running) : ∃ newer r,
    (s.dispose h).journal = newer ++ .signalled (s.handle h).target Signal.term r :: s.journal := by
  have hterm : Signal.isValid Signal.term = true := rfl
  obtain ⟨r, hr⟩ := journal_kill hrun hterm
  unfold dispose
  rw [if_pos ((isRunning_iff _).2 hrun)]
  dsimp only
  split
  · exact ⟨[], r, hr⟩
  · next e _ =>
    obtain ⟨es, he⟩ := journal_note (s.kill h Signal.term).2 (.termNotSent e)
    rw [hr] at he
    exact ⟨es, r, he⟩

theorem journal_graceOver {h : Nat} (hrun : (s.handle h).state = .running) (e : WaitError) :
    ∃ newer older r, (s.graceOver h (.error e)).journal =
      newer ++ .signalled (s.handle h).target Signal.kill r :: (older ++ s.journal) := by
  have hside := aside_note s (.escalating ((s.handle h).pid.getD 0) s.config.grace)
  obtain ⟨older, hold⟩ := journal_note s (.escalating ((s.handle h).pid.getD 0) s.config.grace)
  unfold graceOver
  dsimp only
  rw [if_pos ((isRunning_iff _).2 hrun)]
  generalize s.note (.escalating ((s.handle h).pid.getD 0) s.config.grace) = n at hside hold ⊢
  have hsame : n.handle h = s.handle h := hside.handle h
  have hkill : Signal.isValid Signal.kill = true := rfl
  obtain ⟨r, hr⟩ := journal_kill (s := n) (h := h) (by rw [hsame]; exact hrun) hkill
  rw [hsame, hold] at hr
  split
  · exact ⟨[], older, r, hr⟩
  · next e' _ =>
    obtain ⟨es, he⟩ := journal_note (n.kill h Signal.kill).2 (.killFailed e')
    rw [hr] at he
    exact ⟨es, older, r, he⟩

/-- A signal that is valid is sent to every handle that runs. -/
theorem signalled_of_sends {h : Nat} {sig : Int} (hs : s.sends? = some (h, sig))
    (hrun : (s.handle h).state = .running) (hsig : Signal.isValid sig = true) :
    ∃ r, .signalled (s.handle h).target sig r ∈ s.news := by
  -- it is enough to find the signal in front of the journal of the step
  have found : ∀ (newer older : List Entry) (r : Option Int),
      s.step.journal = newer ++ .signalled (s.handle h).target sig r :: (older ++ s.journal) →
      ∃ r, .signalled (s.handle h).target sig r ∈ s.news := by
    intro newer older r hj
    have hnews : s.news = newer ++ .signalled (s.handle h).target sig r :: older :=
      news_eq (by simp [hj])
    refine ⟨r, ?_⟩
    rw [hnews]
    exact List.mem_append_right _ List.mem_cons_self
  unfold sends? at hs
  split at hs
  · next name sig' hctl =>
    cases hs
    have hrun' : ((s.resolve name).2.handle (s.resolve name).1).state = .running := by
      rw [handle_resolve]
      exact hrun
    obtain ⟨r, hr⟩ := journal_kill hrun' hsig
    have hres : (s.resolve name).2.journal = s.journal := (still_resolve s name).journal
    rw [handle_resolve, hres] at hr
    have hstep : s.step = s.perform (.kill name sig) := by rw [step, hctl]
    exact found [] [] r (by rw [hstep]; exact hr)
  · next h' hctl =>
    cases hs
    obtain ⟨newer, r, hj⟩ := journal_dispose hrun
    have hstep : s.step = s.dispose h := by rw [step, hctl]
    exact found newer [] r (by rw [hstep]; exact hj)
  · next e h' rest hctl hst =>
    cases hs
    obtain ⟨newer, older, r, hj⟩ := journal_graceOver (s := { s with stack := rest }) (h := h) hrun e
    have hstep : s.step = Machine.graceOver { s with stack := rest } h (.error e) := by
      rw [step, hctl, hst]
      rfl
    exact found newer older r (by rw [hstep]; exact hj)
  · cases hs

/-! ## Main theorems -/

/-- A signal of a step goes to a pid that has not been collected since its last spawn, as long as no
handle that the step signals has its exit in hand.  A handle that has it in hand is signalled all the
same, although waitpid has told its exit. -/
theorem signal_spares_collected (hr : Run startsNoGroup s log) :
    ((∀ h ∈ s.signalling, s.exitInHand h = false) →
      ∀ t sig r, .signalled t sig r ∈ s.news → collected t log = false) ∧
    ∀ h sig, s.sends? = some (h, sig) → (s.handle h).state = .running → Signal.isValid sig = true →
      s.exitInHand h = true → ∃ p r st, (s.handle h).pid = some p ∧ .signalled p sig r ∈ s.news ∧
        Told h (s.handle h).generation st log := by
  have hc := custody_run hr
  have halone := alone_run hr
  refine ⟨?_, ?_⟩
  · intro hno t sig r hm
    obtain ⟨h, hh, hrun, rfl⟩ := signalled_step (s := s) hc.sound.tidy hm
    obtain ⟨p, -, hp, -, -, -⟩ := (hc.handle h).running hrun
    rw [halone h p hrun hp]
    by_contra hcol
    have hin := exitInHand_of_collected hc hrun hp (by simpa using hcol)
    rw [hno h hh] at hin
    cases hin
  · intro h sig hs hrun hsig hin
    obtain ⟨p, -, hp, -, -, -⟩ := (hc.handle h).running hrun
    obtain ⟨r, hm⟩ := signalled_of_sends hs hrun hsig
    obtain ⟨st, ht⟩ := told_of_exitInHand hc hin
    rw [halone h p hrun hp] at hm
    exact ⟨p, r, st, hp, hm, ht⟩

/-- A machine that is about to kill its child, which runs. -/
def prompt : Machine × List Entry :=
  carry (carry (.fresh .standard 10000000 [] (.fresh true), [])
    (.spawn "a" (.ofArgs ["/bin/true"]) ⟨.standard, []⟩ none) 1) (.kill "a" 15) 0

/-- A machine with an idle watch of the user, which kills the child, and with that child, which has
ended: the pass has collected the exit and carries out the kill next. -/
def hasty : Machine × List Entry :=
  carry (carry (carry (carry (.fresh .standard 10000000 [] (.fresh true), [])
    (.idle 0 (.mk "k" [true] [[.kill "a" 15]])) 1)
    (.spawn "a" (.ofArgs ["/bin/true"]) ⟨.standard, []⟩ none) 1)
    (.event (.child 4001 (.exit 768 []))) 1) (.iterate false) 4

theorem prompt_run : Run startsNoGroup prompt.1 prompt.2 :=
  Run.carry (Run.carry (Run.init (.fresh .standard 10000000 [] (.fresh true) true)) rfl (by decide)) (by decide)
    (by decide)

theorem hasty_run : Run startsNoGroup hasty.1 hasty.2 :=
  Run.carry (Run.carry (Run.carry (Run.carry (Run.init (.fresh .standard 10000000 [] (.fresh true) true)) rfl
    (by decide)) (by decide) (by decide)) (by decide) (by decide)) (by decide) (by decide)

theorem signal_spares_prompt_and_reaches_hasty :
    ((∀ h ∈ prompt.1.signalling, prompt.1.exitInHand h = false) ∧
      ∀ t sig r, .signalled t sig r ∈ prompt.1.news → collected t prompt.2 = false) ∧
    hasty.1.exitInHand 0 = true ∧ ∃ p r st, (hasty.1.handle 0).pid = some p ∧
      .signalled p 15 r ∈ hasty.1.news ∧ Told 0 (hasty.1.handle 0).generation st hasty.2 := by
  have hno : ∀ h ∈ prompt.1.signalling, prompt.1.exitInHand h = false := by decide
  have hin : hasty.1.exitInHand 0 = true := by decide
  exact ⟨⟨hno, (signal_spares_collected prompt_run).1 hno⟩, hin,
    (signal_spares_collected hasty_run).2 0 15 rfl (by decide) rfl hin⟩

/-- The pid of `hasty` has been collected, and it is signalled. -/
theorem collected_pid_signalled : Run startsNoGroup hasty.1 hasty.2 ∧
    collected 4001 hasty.2 = true ∧ .signalled 4001 15 (some 3) ∈ hasty.1.news :=
  ⟨hasty_run, by decide, List.mem_of_getElem? (i := 0) rfl⟩

end Machine

end Overseer
