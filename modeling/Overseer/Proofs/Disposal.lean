import Overseer.Proofs.Punctuality
import Overseer.Proofs.Signals
import Overseer.Proofs.Waits

/-!
# How a dispose escalates

A dispose asks the child to end, waits for it as long as the grace allows, kills it if it still runs
then, and waits for it once more before the handle is closed.

    SIGTERM at t₀  →  grace  →  spared
                      grace  →  SIGKILL at t₁  →  killed  →  done         t₀ + grace ≤ t₁

    attempts h past  =  the signals that the steps of the past have tried to send to the child of h, with their times

Callbacks may pump the loop for as long as they like, and then the dispose comes late to what it does
next, but never early.  If time passes in its own passes only, it is late by less than a millisecond for
each of the two waits, also if their polls are interrupted or return early after any part of their time.

Main statement: `dispose_escalates`.
-/

namespace Overseer

open Supervisor

namespace Supervisor

/-- The signal that was tried. -/
def Entry.signal? : Entry → Option Int
  | signalled _ sig _ => some sig
  | _ => none

theorem Entry.signal?_of_isPlain {e : Entry} (he : e.isPlain = true) : e.signal? = none := by
  cases e <;> first | rfl | cases he

/-- A dispose of the handle `h` in the generation `g`, which begins at the time `since` upon the frames of its
callers; and when and how the child exits, unless it is killed. -/
structure Disposal where
  h : Nat
  g : Nat
  since : Nat
  grace : Nat
  callers : List Frame
  exit : Option (Nat × Int)

end Supervisor

namespace Machine

/-- The signals that the step from a machine tries to send to the child of `h`, with the time. -/
def attempted (h : Nat) (m : Machine) : List (Nat × Int) :=
  if h ∈ m.signalling then (m.news.reverse.filterMap Entry.signal?).map fun sig => (m.kernel.now, sig) else []

/-- The signals of some steps, the first ones first, where the last machine stepped from comes first. -/
def attempts (h : Nat) (past : List Machine) : List (Nat × Int) := past.reverse.flatMap (attempted h)

/-- The dispose upon as many frames has killed its child. -/
def pastGrace (depth : Nat) (s : Machine) : Bool :=
  match s.stack.reverse[depth]? with
  | some (.killed _) => true
  | _ => false

/-- No other watch is on the child, no operation is carried out upon the handle, and a child that has not been
killed is found running before its exit only. -/
def Fair (exit : Option (Nat × Int)) (h g depth : Nat) (s : Machine) : Prop :=
  Sole h g s ∧ s.upon? ≠ some h ∧ (s.pastGrace depth = false → Prompt exit h s)

instance (exit : Option (Nat × Int)) (h g depth : Nat) (s : Machine) : Decidable (Fair exit h g depth s) :=
  inferInstanceAs (Decidable (_ ∧ _ ∧ (_ → _)))

/-- Time passes in the passes that the dispose waits for, and nowhere else. -/
def Undisturbed (R : Machine → Machine → Prop) (depth : Nat) (past : List Machine) : Prop :=
  (∀ s t, R s t → t.kernel.now = s.kernel.now) ∧ ∀ m ∈ past, Steady (depth + 2) m

/-- `t` is `s` after one attempt to send this signal, and what is noted of it. -/
structure Shot (sig : Int) (s t : Machine) : Prop where
  handles : t.handles = s.handles
  stack : t.stack = s.stack
  config : t.config = s.config
  journal : ∃ es, t.journal = es ++ s.journal ∧ es.filterMap Entry.signal? = [sig]

/-- Where a dispose is. -/
inductive Disposing (d : Disposal) (R : Machine → Machine → Prop) (past : List Machine) (s : Machine)
    (log : List Entry) : Prop
  | grace (hsent : attempts d.h past = [(d.since, Signal.term)])
      (hv : Vigil d.exit d.h d.g (d.since + d.grace) (.grace d.h :: d.callers) s log)
      (hkept : (s.handle d.h).generation = d.g ∧ (s.handle d.h).state ≠ .notStarted)
      (htime : Undisturbed R d.callers.length past → Punctual d.h (d.since + d.grace) (.grace d.h :: d.callers) s)
  | killed (t₁ : Nat) (hsent : attempts d.h past = [(d.since, Signal.term), (t₁, Signal.kill)])
      (hdue : d.since + d.grace ≤ t₁) (hlate : ∀ e ∈ d.exit, d.since + d.grace < e.1)
      (hv : Vigil none d.h d.g (t₁ + killWait) (.killed d.h :: d.callers) s log)
      (hkept : (s.handle d.h).generation = d.g ∧ (s.handle d.h).state ≠ .notStarted)
      (htime : Undisturbed R d.callers.length past →
        t₁ ≤ d.since + d.grace + rounding ∧ Punctual d.h (t₁ + killWait) (.killed d.h :: d.callers) s)
  | spared (st : ExitStatus) (hc : s.control = .value .unit) (hst : s.stack = d.callers)
      (hclosed : (s.handle d.h).state = .closed) (hsent : attempts d.h past = [(d.since, Signal.term)])
      (hf : Firsthand d.h d.g st log)
      (htime : Undisturbed R d.callers.length past → s.kernel.now ≤ d.since + d.grace + rounding)
  | done (t₁ : Nat) (hc : s.control = .value .unit) (hst : s.stack = d.callers)
      (hclosed : (s.handle d.h).state = .closed)
      (hsent : attempts d.h past = [(d.since, Signal.term), (t₁, Signal.kill)])
      (hdue : d.since + d.grace ≤ t₁) (hlate : ∀ e ∈ d.exit, d.since + d.grace < e.1)
      (htime : Undisturbed R d.callers.length past →
        t₁ ≤ d.since + d.grace + rounding ∧ s.kernel.now ≤ t₁ + killWait + rounding)

/-- A child is asked to end first; it is killed once at most, when the grace is over, and not if it has exited
by then. -/
structure Escalated (exit : Option (Nat × Int)) (since grace : Nat) (sent : List (Nat × Int)) : Prop where
  order : sent = [(since, Signal.term)] ∨
    ∃ t₁, since + grace ≤ t₁ ∧ sent = [(since, Signal.term), (t₁, Signal.kill)]
  spared : ∀ e ∈ exit, e.1 ≤ since + grace → sent = [(since, Signal.term)]

/-- A dispose that has ended `now` was in time: both for the kill, and for the child that was not killed. -/
structure InTime (exit : Option (Nat × Int)) (since grace now : Nat) (sent : List (Nat × Int)) : Prop where
  last : now ≤ since + grace + killWait + 2 * rounding
  killed : ∀ t₁, (t₁, Signal.kill) ∈ sent → t₁ ≤ since + grace + rounding
  exited : sent = [(since, Signal.term)] → ∃ e ∈ exit, e.1 ≤ since + grace + rounding

variable {d : Disposal} {R : Machine → Machine → Prop} {s t : Machine} {h g due depth : Nat} {sig : Int}
  {exit : Option (Nat × Int)} {past : List Machine} {log : List Entry} {B K : List Frame} {f : Frame}

/-! ## Attempts -/

theorem attempts_cons : attempts h (s :: past) = attempts h past ++ attempted h s := by
  simp [attempts]

theorem attempts_quiet (hq : h ∉ s.signalling) : attempts h (s :: past) = attempts h past := by
  rw [attempts_cons, attempted, if_neg hq, List.append_nil]

theorem signals_of_plain {es : List Entry} (hp : ∀ e ∈ es, e.isPlain = true) : es.filterMap Entry.signal? = [] := by
  rw [List.filterMap_eq_nil_iff]
  exact fun e he => Entry.signal?_of_isPlain (hp e he)

theorem Shot.note (hs : Shot sig s t) (n : Notice) : Shot sig s (t.note n) := by
  obtain ⟨es, hj, hes⟩ := hs.journal
  obtain ⟨more, hmore, hplain⟩ := (aside_note t n).journal
  refine ⟨(aside_note t n).handles.trans hs.handles, (stack_note t n).trans hs.stack,
    (config_note t n).trans hs.config,
    more ++ es, by rw [hmore, hj, List.append_assoc], ?_⟩
  rw [List.filterMap_append, signals_of_plain hplain, hes]
  rfl

theorem Shot.after_note {u : Machine} {n : Notice} (hn : s.note n = u) (hs : Shot sig u t) : Shot sig s t := by
  obtain ⟨es, hj, hes⟩ := hs.journal
  obtain ⟨older, hold, hplain⟩ := (aside_note s n).journal
  rw [hn] at hold
  refine ⟨hs.handles.trans (hn ▸ (aside_note s n).handles), hs.stack.trans (hn ▸ stack_note s n),
    hs.config.trans (hn ▸ config_note s n), es ++ older, by rw [hj, hold, List.append_assoc], ?_⟩
  rw [List.filterMap_append, signals_of_plain hplain, hes]
  rfl

theorem shot_kill (hrun : (s.handle h).state = .running) (hsig : Signal.isValid sig = true) :
    Shot sig s (s.kill h sig).2 := by
  obtain ⟨r, hj⟩ := journal_kill hrun hsig
  refine ⟨?_, stack_kill s h sig, config_kill s h sig, [_], hj, rfl⟩
  unfold kill
  dsimp only
  rw [if_neg (by simpa using hrun), if_neg (by simpa using hsig)]
  split
  · rfl
  · split
    · rfl
    · split <;> rfl

/-- The polite signal, before the wait. -/
theorem shot_dispose (hrun : (s.handle h).state = .running) : ∃ u, Shot Signal.term s u ∧
    s.dispose h = (u.push (.grace h)).go (.wait h s.config.grace) := by
  have hshot : Shot Signal.term s (s.kill h Signal.term).2 := shot_kill hrun rfl
  unfold dispose
  rw [if_pos ((isRunning_iff _).2 hrun)]
  dsimp only
  split
  · exact ⟨_, hshot, by rw [hshot.config]⟩
  · exact ⟨_, hshot.note _, by rw [(hshot.note _).config]⟩

/-- The last signal, before the last wait. -/
theorem shot_graceOver (hrun : (s.handle h).state = .running) (e : WaitError) : ∃ u, Shot Signal.kill s u ∧
    s.graceOver h (.error e) = (u.push (.killed h)).go (.wait h killWait) := by
  unfold graceOver
  dsimp only
  rw [if_pos ((isRunning_iff _).2 hrun)]
  generalize hn : s.note (.escalating ((s.handle h).pid.getD 0) s.config.grace) = n
  have hsame : n.handle h = s.handle h := hn ▸ (aside_note s _).handle h
  have hshot : Shot Signal.kill n (n.kill h Signal.kill).2 := shot_kill (hsame ▸ hrun) rfl
  split
  · exact ⟨_, hshot.after_note hn, rfl⟩
  · exact ⟨_, (hshot.note _).after_note hn, rfl⟩

/-- Nothing that is done above a wait is about its child. -/
theorem quiet_of_vigil (hleave : s.upon? ≠ some h) (hret : returned K.length s = false)
    (hv : Vigil exit h g due K s log) :
    h ∉ s.signalling := by
  have hnone : s.sends? = none → h ∉ s.signalling := fun hn => by rw [signalling, hn]; exact List.not_mem_nil
  cases hv with
  | begun timeout hc => exact hnone (by rw [sends?, hc])
  | awake i D hc => exact hnone (by rw [sends?, hc])
  | pumping i D A hst hA hc =>
    -- a kill is an operation upon its handle, and a dispose of the handle would stand above its own wait
    unfold signalling sends?
    split
    · next name sig hctl =>
      have hupon : s.upon? = some (s.resolve name).1 := by rw [upon?, hctl]; rfl
      rw [hupon] at hleave
      simpa using fun heq => hleave (congrArg some (Eq.symm heq))
    · next j hctl =>
      rw [hctl] at hc
      simpa using Ne.symm hc
    · next e j rest hctl hstack =>
      rw [hstack] at hst
      cases A with
      | nil => cases hst
      | cons f A =>
        obtain ⟨rfl, -⟩ := List.cons.inj hst
        simpa using Ne.symm (hA _ List.mem_cons_self)
    · exact List.not_mem_nil
  | caught st hc hst => cases (returned_of_value hc hst).symm.trans hret
  | expired hc hst => cases (returned_of_value hc hst).symm.trans hret

/-! ## Ends of the waits -/

/-- The handle is still that of the child, unless it spawns again. -/
theorem kept_step (ht : Trail past s log) (hleave : s.upon? ≠ some h) (hctl : ∀ spec, s.control ≠ .isolated spec)
    (hkept : (s.handle h).generation = g ∧ (s.handle h).state ≠ .notStarted) :
    (s.step.handle h).generation = g ∧ (s.step.handle h).state ≠ .notStarted := by
  have hcourse := course_step (footing_run ht.run) (ordered_run ht.run)
  have hp : Passage h (s.handle h) s.news (s.step.handle h) s.step.stage.due := hcourse.passage h
  cases hp with
  | stays hbirths hg hy => exact ⟨hg.trans hkept.1, by rw [hy]; exact hkept.2⟩
  | reaped st hbirths hg hx hy => exact ⟨hg.trans hkept.1, by simp [hy]⟩
  | closed hbirths hg hx hy => exact ⟨hg.trans hkept.1, by simp [hy]⟩
  | spawned hbirths =>
    have hanswer := (births_step (footing_run ht.run) fun hn => hcourse.asked hn h).1 hbirths
    unfold spawnAnswer? at hanswer
    split at hanswer
    · next name c plan execError r view x hc _ =>
      have hupon : s.upon? = some (s.resolve name).1 := by rw [upon?, hc]; rfl
      cases hanswer
      exact absurd hupon hleave
    · next spec time e x hc _ => exact absurd hc (hctl spec)
    · next spec hc _ => exact absurd hc (hctl spec)
    · cases hanswer

theorem not_isolated_of_vigil (hv : Vigil exit h g due K s log) (spec : RunSpec) : s.control ≠ .isolated spec := by
  intro hspec
  cases hv with
  | begun timeout hc => rw [hspec] at hc; cases hc
  | awake i D hc => rw [hspec] at hc; cases hc
  | pumping i D A hst hA hc => rw [hspec] at hc; exact hc
  | caught st hc => rw [hspec] at hc; cases hc
  | expired hc => rw [hspec] at hc; cases hc

theorem state_close (hb : (s.handle h).state ≠ .notStarted) : ((s.close h).handle h).state = .closed := by
  obtain ⟨hrun, hreaped, -⟩ := close_spec s h
  by_cases hlive : (s.handle h).state = .running ∨ (s.handle h).state = .reaped
  · exact congrArg Life.state (closed_close s hlive).handle
  · rw [close_eq_self s hlive]
    cases hstate : (s.handle h).state with
    | notStarted => exact absurd hstate hb
    | running => exact absurd (.inl hstate) hlive
    | reaped => exact absurd (.inr hstate) hlive
    | closed => rfl

/-- The frame upon the callers stands at their number from below. -/
theorem frame_at (hst : s.stack = B ++ f :: K) : s.stack.reverse[K.length]? = some f := by
  rw [hst, List.reverse_append, List.reverse_cons, List.append_assoc, List.getElem?_append_right (by simp)]
  simp

theorem stack_of_vigil (hv : Vigil exit h g due K s log) : ∃ A, s.stack = A ++ K := by
  cases hv with
  | begun timeout hc hst => exact ⟨[], hst⟩
  | awake i D hc hst => exact ⟨[], hst⟩
  | pumping i D A hst => exact ⟨A ++ [.waiting h i], by rw [hst, List.append_assoc]; rfl⟩
  | caught st hc hst => exact ⟨[], hst⟩
  | expired hc hst => exact ⟨[], hst⟩

/-- While a dispose waits, its frame stands upon the callers. -/
theorem not_suffix_of_vigil (hv : Vigil exit h g due (f :: K) s log) : ¬ s.stack <:+ K := fun hK => by
  obtain ⟨A, hA⟩ := stack_of_vigil hv
  have hle := hK.length_le
  rw [hA, List.length_append, List.length_cons] at hle
  omega

/-- A child that is waited for with grace has not been killed. -/
theorem prompt_of_fair (hfair : Fair exit h g K.length s) (hv : Vigil exit h g due (.grace h :: K) s log) :
    Prompt exit h s := by
  obtain ⟨A, hst⟩ := stack_of_vigil hv
  refine hfair.2.2 ?_
  rw [pastGrace, frame_at hst]

/-- A wait that has returned has its answer. -/
theorem waited_of_returned (hret : returned K.length s = true) (hv : Vigil exit h g due K s log) :
    s.stack = K ∧ ((∃ st, s.control = .value (.waited (.ok st)) ∧ Firsthand h g st log) ∨
      s.control = .value (.waited (.error .timeout)) ∧ due ≤ s.kernel.now ∧ (∀ e ∈ exit, due < e.1) ∧
        (s.handle h).state = .running) := by
  cases hv with
  | begun timeout hc => rw [returned, hc] at hret; cases hret
  | awake i D hc => rw [returned, hc] at hret; cases hret
  | pumping i D A hst =>
    obtain ⟨-, hK⟩ := value_of_returned (L := K) ⟨A ++ [.waiting h i], by rw [hst, List.append_assoc]; rfl⟩ hret
    rw [hst] at hK
    have hlen := congrArg List.length hK
    simp at hlen
    omega
  | caught st hc hst hf => exact ⟨hst, .inl ⟨st, hc, hf⟩⟩
  | expired hc hst hnow hlate hrun => exact ⟨hst, .inr ⟨hc, hnow, hlate, hrun⟩⟩

theorem vigil_lull (hv : Vigil exit h g due K s log) (hl : Lull s t) (hnow : s.kernel.now ≤ t.kernel.now) :
    Vigil exit h g due K t log :=
  vigil_between hl.between hnow hl.raised hl.stack hl.control hv

theorem now_of_value {v : Value} (hc : s.control = .value v) : s.step.kernel.now = s.kernel.now :=
  Edits.now (step_edits s) (by rw [sleeps, hc])

theorem Undisturbed.tail (hu : Undisturbed R depth (s :: past)) : Undisturbed R depth past :=
  ⟨hu.1, fun m hm => hu.2 m (List.mem_cons_of_mem s hm)⟩

/-! ## Steps of the dispose -/

/-- One attempt is made, and a wait for the child begins upon a frame of the dispose. -/
theorem wait_of_shot (past : List Machine) {u : Machine} {timeout : Nat} (hshot : Shot sig { s with stack := K } u)
    (hstep : s.step = (u.push f).go (.wait h timeout)) (hin : h ∈ s.signalling)
    (hnow : s.step.kernel.now = s.kernel.now)
    (hg : (s.handle h).generation = g) (hrun : (s.handle h).state = .running) :
    attempts h (s :: past) = attempts h past ++ [(s.kernel.now, sig)] ∧ s.step.handle h = s.handle h ∧
      Vigil exit h g (s.kernel.now + timeout) (f :: K) s.step log ∧
      Punctual h (s.kernel.now + timeout) (f :: K) s.step := by
  obtain ⟨es, hj, hes⟩ := hshot.journal
  have hnews : s.news = es := news_eq (by rw [hstep]; exact hj)
  have hsame : s.step.handle h = s.handle h := by
    rw [hstep]
    exact congrArg (·.getD h .fresh) hshot.handles
  have hstack : s.step.stack = f :: K := by
    rw [hstep]
    exact congrArg _ hshot.stack
  have hcontrol : s.step.control = .wait h timeout := by rw [hstep]; rfl
  refine ⟨?_, hsame, .begun _ hcontrol hstack (by rw [hsame, hg]) (by rw [hsame, hrun])
    (Nat.le_of_eq (by rw [hnow])), .begun _ hcontrol hstack (by rw [hnow])⟩
  rw [attempts_cons, attempted, if_pos hin, hnews, List.filterMap_reverse, hes]
  rfl

/-- The handle is closed, and the dispose is over. -/
theorem end_of_close (hstep : s.step = (Machine.close { s with stack := K } h).yield .unit)
    (hb : (s.handle h).state ≠ .notStarted) :
    s.step.control = .value .unit ∧ s.step.stack = K ∧ (s.step.handle h).state = .closed := by
  rw [hstep]
  exact ⟨rfl, stack_close _ _, state_close (s := { s with stack := K }) hb⟩

/-- The first step asks the child to end. -/
theorem asked_disposing (hc : s.control = .dispose h) (hrun : (s.handle h).state = .running) :
    Disposing ⟨h, (s.handle h).generation, s.kernel.now, s.config.grace, s.stack, exit⟩ R [s] s.step
      (s.news ++ log) := by
  obtain ⟨u, hshot, hdispose⟩ := shot_dispose hrun
  have hstep : s.step = (u.push (.grace h)).go (.wait h s.config.grace) := by
    rw [← hdispose, step, hc]
  have hin : h ∈ s.signalling := by rw [signalling, sends?, hc]; exact List.mem_singleton.2 rfl
  have hnow : s.step.kernel.now = s.kernel.now := Edits.now (step_edits s) (by rw [sleeps, hc])
  obtain ⟨hsent, hsame, hv, hp⟩ := wait_of_shot [] (K := s.stack) hshot hstep hin hnow rfl hrun
  refine .grace hsent hv ?_ fun _ => hp
  rw [hsame, hrun]
  exact ⟨rfl, by simp⟩

section

variable (hr : Run (Sole d.h d.g) s log) (hcallers : ∀ z ∈ d.callers.flatMap Frame.reapings, z.h ≠ d.h)
  (hfair : Fair d.exit d.h d.g d.callers.length s)

include hr hcallers hfair

/-- A wait of the dispose that has not returned goes on. -/
theorem wait_goes_on {e : Option (Nat × Int)} (hf : f.reapings = []) (hprompt : Prompt e d.h s)
    (hret : returned (f :: d.callers).length s = false) (hv : Vigil e d.h d.g due (f :: d.callers) s log) :
    d.h ∉ s.signalling ∧ Vigil e d.h d.g due (f :: d.callers) s.step (s.news ++ log) ∧
      (Steady (d.callers.length + 2) s → Punctual d.h due (f :: d.callers) s →
        Punctual d.h due (f :: d.callers) s.step) := by
  obtain ⟨trail, ht⟩ := trail_of_run hr
  refine ⟨quiet_of_vigil hfair.2.1 hret hv, vigil_step hr ?_ hfair.2.1 hprompt hret hv, fun hs hp => ?_⟩
  · rw [List.flatMap_cons, hf]
    exact hcallers
  · exact punctual_step ht hs hret hp

/-- The child exits in the time of grace, or it is killed at its end. -/
theorem grace_step (hsent : attempts d.h past = [(d.since, Signal.term)])
    (hv : Vigil d.exit d.h d.g (d.since + d.grace) (.grace d.h :: d.callers) s log)
    (hkept : (s.handle d.h).generation = d.g ∧ (s.handle d.h).state ≠ .notStarted)
    (htime : Undisturbed R d.callers.length past → Punctual d.h (d.since + d.grace) (.grace d.h :: d.callers) s) :
    Disposing d R (s :: past) s.step (s.news ++ log) := by
  obtain ⟨trail, ht⟩ := trail_of_run hr
  have hkept' := kept_step ht hfair.2.1 (not_isolated_of_vigil hv) hkept
  cases hret : returned (Frame.grace d.h :: d.callers).length s with
  | false =>
    obtain ⟨hquiet, hv', hp'⟩ := wait_goes_on hr hcallers hfair rfl (prompt_of_fair hfair hv) hret hv
    exact .grace ((attempts_quiet hquiet).trans hsent) hv' hkept' fun hu => hp' (hu.2 s List.mem_cons_self)
      (htime hu.tail)
  | true =>
    obtain ⟨hst, ⟨st, hc, hf⟩ | ⟨hc, hnow, hlate, hrun⟩⟩ := waited_of_returned hret hv
    · have hstep : s.step = (Machine.close { s with stack := d.callers } d.h).yield .unit := by
        rw [step_value hc hst]
        rfl
      have hquiet : d.h ∉ s.signalling := by
        rw [signalling, sends?, hc, hst]
        exact List.not_mem_nil
      obtain ⟨hc', hst', hclosed⟩ := end_of_close hstep hkept.2
      refine .spared st hc' hst' hclosed ((attempts_quiet hquiet).trans hsent) (hf.append _) fun hu => ?_
      rw [now_of_value hc]
      exact now_le_of_returned (htime hu.tail) hret
    · obtain ⟨u, hshot, hkill⟩ := shot_graceOver (s := { s with stack := d.callers }) hrun .timeout
      have hstep : s.step = (u.push (.killed d.h)).go (.wait d.h killWait) := (step_value hc hst).trans hkill
      have hin : d.h ∈ s.signalling := by
        rw [signalling, sends?, hc, hst]
        exact List.mem_singleton.2 rfl
      obtain ⟨hsent', -, hv', hp'⟩ := wait_of_shot past hshot hstep hin (now_of_value hc) hkept.1 hrun
      refine .killed s.kernel.now (by rw [hsent', hsent]; rfl) hnow hlate hv' hkept' fun hu => ?_
      exact ⟨now_le_of_returned (htime hu.tail) hret, hp'⟩

/-- A killed child is waited for once more, whatever comes of it. -/
theorem killed_step {t₁ : Nat} (hsent : attempts d.h past = [(d.since, Signal.term), (t₁, Signal.kill)])
    (hdue : d.since + d.grace ≤ t₁) (hlate : ∀ e ∈ d.exit, d.since + d.grace < e.1)
    (hv : Vigil none d.h d.g (t₁ + killWait) (.killed d.h :: d.callers) s log)
    (hkept : (s.handle d.h).generation = d.g ∧ (s.handle d.h).state ≠ .notStarted)
    (htime : Undisturbed R d.callers.length past →
      t₁ ≤ d.since + d.grace + rounding ∧ Punctual d.h (t₁ + killWait) (.killed d.h :: d.callers) s) :
    Disposing d R (s :: past) s.step (s.news ++ log) := by
  obtain ⟨trail, ht⟩ := trail_of_run hr
  have hkept' := kept_step ht hfair.2.1 (not_isolated_of_vigil hv) hkept
  cases hret : returned (Frame.killed d.h :: d.callers).length s with
  | false =>
    obtain ⟨hquiet, hv', hp'⟩ := wait_goes_on hr hcallers hfair rfl (by simp [Prompt]) hret hv
    refine .killed t₁ ((attempts_quiet hquiet).trans hsent) hdue hlate hv' hkept' fun hu => ?_
    exact ⟨(htime hu.tail).1, hp' (hu.2 s List.mem_cons_self) (htime hu.tail).2⟩
  | true =>
    obtain ⟨hst, r, hc⟩ : s.stack = .killed d.h :: d.callers ∧ ∃ r, s.control = .value (.waited r) := by
      obtain ⟨hst, ⟨st, hc, -⟩ | ⟨hc, -⟩⟩ := waited_of_returned hret hv
      · exact ⟨hst, _, hc⟩
      · exact ⟨hst, _, hc⟩
    have hstep : s.step = (Machine.close { s with stack := d.callers } d.h).yield .unit := by
      rw [step_value hc hst]
      rfl
    have hquiet : d.h ∉ s.signalling := by
      rw [signalling, sends?, hc, hst]
      cases r <;> exact List.not_mem_nil
    obtain ⟨hc', hst', hclosed⟩ := end_of_close hstep hkept.2
    refine .done t₁ hc' hst' hclosed ((attempts_quiet hquiet).trans hsent) hdue hlate fun hu => ?_
    rw [now_of_value hc]
    exact ⟨(htime hu.tail).1, now_le_of_returned (htime hu.tail).2 hret⟩

end

/-! ## The whole dispose -/

theorem not_idle_of_disposing (hret : returned d.callers.length s = false) (hd : Disposing d R past s log) :
    s.isIdle = false := by
  rw [Bool.eq_false_iff]
  intro hi
  obtain ⟨⟨v, hv⟩, hnil⟩ := control_of_isIdle hi
  have hsuffix : s.stack <:+ d.callers := hnil ▸ List.nil_suffix
  cases hd with
  | grace hsent hvigil => exact not_suffix_of_vigil hvigil hsuffix
  | killed t₁ hsent hdue hlate hvigil => exact not_suffix_of_vigil hvigil hsuffix
  | spared st hc hst => cases (returned_of_value hc hst).symm.trans hret
  | done t₁ hc hst => cases (returned_of_value hc hst).symm.trans hret

theorem disposing_step (hr : Run (Sole d.h d.g) s log)
    (hcallers : ∀ z ∈ d.callers.flatMap Frame.reapings, z.h ≠ d.h)
    (hfair : Fair d.exit d.h d.g d.callers.length s) (hret : returned d.callers.length s = false)
    (hd : Disposing d R past s log) : Disposing d R (s :: past) s.step (s.news ++ log) := by
  cases hd with
  | grace hsent hv hkept htime => exact grace_step hr hcallers hfair hsent hv hkept htime
  | killed t₁ hsent hdue hlate hv hkept htime =>
    exact killed_step hr hcallers hfair hsent hdue hlate hv hkept htime
  | spared st hc hst => cases (returned_of_value hc hst).symm.trans hret
  | done t₁ hc hst => cases (returned_of_value hc hst).symm.trans hret

theorem disposing_lull (hret : returned d.callers.length s = false) (hl : Lull s t)
    (hnow : s.kernel.now ≤ t.kernel.now)
    (hR : R s t) (hd : Disposing d R past s log) : Disposing d R past t log := by
  cases hd with
  | grace hsent hv hkept htime =>
    refine .grace hsent (vigil_lull hv hl hnow) (by rw [hl.handle]; exact hkept) fun hu => ?_
    exact (htime hu).later hl (hu.1 s t hR)
  | killed t₁ hsent hdue hlate hv hkept htime =>
    refine .killed t₁ hsent hdue hlate (vigil_lull hv hl hnow) (by rw [hl.handle]; exact hkept) fun hu => ?_
    exact ⟨(htime hu).1, (htime hu).2.later hl (hu.1 s t hR)⟩
  | spared st hc hst => cases (returned_of_value hc hst).symm.trans hret
  | done t₁ hc hst => cases (returned_of_value hc hst).symm.trans hret

/-- Wherever it is, a dispose is on its way. -/
theorem disposing_span {x y : Machine × List Entry} (hR : ∀ s t, R s t → s.kernel.now ≤ t.kernel.now)
    (hr : Run (Sole d.h d.g) x.1 x.2) (hcallers : ∀ z ∈ d.callers.flatMap Frame.reapings, z.h ≠ d.h) {m : Machine}
    (hx : Disposing d R [m] x.1 x.2)
    (hspan : Span R (Fair d.exit d.h d.g d.callers.length) d.callers.length x past y) :
    Run (Sole d.h d.g) y.1 y.2 ∧ Disposing d R (past ++ [m]) y.1 y.2 := by
  induction hspan with
  | begun => exact ⟨hr, hx⟩
  | step _ hfair hret ih => exact ⟨ih.1.move (.step hfair.1), disposing_step ih.1 hcallers hfair hret ih.2⟩
  | @pause past s t log log' _ hret hm hp ih =>
    obtain ⟨hl, hlog⟩ := lull_of_move hm (not_idle_of_disposing hret ih.2)
    refine ⟨ih.1.move (hm.mono fun _ hf => hf.elim), ?_⟩
    obtain rfl : log' = log := hlog
    exact disposing_lull hret hl (hR s t hp) hp ih.2

/-- A dispose that has returned has closed the handle, and what it has done was in order. -/
theorem escalated_of_returned (hd : Disposing d R past s log) (hret : returned d.callers.length s = true) :
    Escalated d.exit d.since d.grace (attempts d.h past) ∧ (s.handle d.h).state = .closed ∧
      (Undisturbed R d.callers.length past →
        (attempts d.h past = [(d.since, Signal.term)] →
          Honest (d.exit.filter fun e => e.1 ≤ s.kernel.now) d.h d.g log) →
        InTime d.exit d.since d.grace s.kernel.now (attempts d.h past)) := by
  have habove : ∀ {f : Frame} {e : Option (Nat × Int)} {due : Nat},
      ¬ Vigil e d.h d.g due (f :: d.callers) s log := fun hvigil => by
    obtain ⟨A, hA⟩ := stack_of_vigil hvigil
    have hK : s.stack = d.callers := (value_of_returned ⟨A ++ [_], by rw [hA, List.append_assoc]; rfl⟩ hret).2
    exact not_suffix_of_vigil hvigil (hK ▸ List.suffix_rfl)
  cases hd with
  | grace hsent hvigil => exact absurd hvigil habove
  | killed t₁ hsent hdue hlate hvigil => exact absurd hvigil habove
  | spared st hc hst hclosed hsent hf htime =>
    refine ⟨⟨.inl hsent, fun _ _ _ => hsent⟩, hclosed, fun hu hhonest => ?_⟩
    have hnow := htime hu
    have hhonest := hhonest hsent
    rw [hsent]
    refine ⟨by omega, fun t₁ ht₁ => ?_, fun _ => ?_⟩
    · have hkill : (t₁, Signal.kill) = (d.since, Signal.term) := List.mem_singleton.1 ht₁
      cases (Prod.mk.inj hkill).2
    -- the exit was reaped, so that it lies before the time at which the dispose has ended
    · obtain ⟨e, he, -⟩ := exit_of_firsthand hhonest hf
      obtain ⟨he, hle⟩ := Option.filter_eq_some_iff.1 he
      exact ⟨e, he, Nat.le_trans (of_decide_eq_true hle) hnow⟩
  | done t₁ hc hst hclosed hsent hdue hlate htime =>
    refine ⟨⟨.inr ⟨t₁, hdue, hsent⟩, fun e he hle => absurd hle (Nat.not_le_of_lt (hlate e he))⟩, hclosed,
      fun hu _ => ?_⟩
    obtain ⟨hkilled, hnow⟩ := htime hu
    rw [hsent]
    refine ⟨by omega, fun t ht => ?_, fun hone => by cases hone⟩
    rcases List.mem_cons.1 ht with heq | ht
    · cases (Prod.mk.inj heq).2
    · obtain rfl : t = t₁ := (Prod.mk.inj (List.mem_singleton.1 ht)).1
      exact hkilled

/-- A dispose of a handle that does not run closes it, and nothing else. -/
theorem step_of_disposed (hc : s.control = .dispose h) (hrun : (s.handle h).state ≠ .running) :
    attempted h s = [] ∧ s.step.control = .value .unit ∧ s.step.stack = s.stack ∧
    s.step.kernel.now = s.kernel.now := by
  have hstep : s.step = (s.close h).yield .unit := by
    rw [step, hc]
    exact if_neg fun h => hrun ((isRunning_iff _).1 h)
  refine ⟨?_, by rw [hstep]; rfl, by rw [hstep]; exact stack_close s h,
    Edits.now (step_edits s) (by rw [sleeps, hc])⟩
  have hnone : s.news.filterMap Entry.signal? = [] := by
    by_cases hlive : (s.handle h).state = .running ∨ (s.handle h).state = .reaped
    · obtain ⟨es, hj, hplain⟩ := (closed_close s hlive).journal
      rw [news_eq (by rw [hstep]; exact hj)]
      exact signals_of_plain hplain
    · rw [close_eq_self s hlive] at hstep
      have hnews : s.news = [] := news_eq (by rw [hstep]; rfl)
      rw [hnews]
      rfl
  unfold attempted
  split
  · rw [List.filterMap_reverse, hnone]
    rfl
  · rfl

/-- **A dispose escalates.**  A handle that does not run is closed at once.  A child that runs is asked to end
at the time of the call; it is killed not before the grace is over, and not if it has exited by then, and the
handle ends closed.  If time passes in the passes of the dispose only, a child that is not killed has exited
when the grace is over, and the dispose returns in time, both up to the rounding of the sleeps. -/
theorem dispose_escalates {x : Machine × List Entry} (hr : Run (Sole h (x.1.handle h).generation) x.1 x.2)
    (hsole : Sole h (x.1.handle h).generation x.1) (hc : x.1.control = .dispose h)
    (hcallers : ∀ z ∈ x.1.stack.flatMap Frame.reapings, z.h ≠ h)
    (hR : ∀ s t, R s t → s.kernel.now ≤ t.kernel.now) :
    ((x.1.handle h).state ≠ .running → attempted h x.1 = [] ∧ x.1.step.control = .value .unit ∧
      x.1.step.stack = x.1.stack ∧ x.1.step.kernel.now = x.1.kernel.now) ∧
    ((x.1.handle h).state = .running → ∀ past y,
      Span R (Fair exit h (x.1.handle h).generation x.1.stack.length) x.1.stack.length
      (x.1.step, x.1.news ++ x.2) past y →
      returned x.1.stack.length y.1 = true →
      Escalated exit x.1.kernel.now x.1.config.grace (attempts h (past ++ [x.1])) ∧
        (y.1.handle h).state = .closed ∧
        (Undisturbed R x.1.stack.length (past ++ [x.1]) →
          (attempts h (past ++ [x.1]) = [(x.1.kernel.now, Signal.term)] →
            Honest (exit.filter fun e => e.1 ≤ y.1.kernel.now) h (x.1.handle h).generation y.2) →
          InTime exit x.1.kernel.now x.1.config.grace y.1.kernel.now (attempts h (past ++ [x.1])))) := by
  refine ⟨step_of_disposed hc, fun hrun past y hspan hret => ?_⟩
  have hdispose : Disposing ⟨h, (x.1.handle h).generation, x.1.kernel.now, x.1.config.grace, x.1.stack,
    exit⟩ R [x.1]
      x.1.step (x.1.news ++ x.2) := asked_disposing hc hrun
  obtain ⟨-, hd⟩ := disposing_span hR (x := (x.1.step, x.1.news ++ x.2)) (hr.move (.step hsole)) hcallers
    hdispose hspan
  exact escalated_of_returned hd hret

/-! ### A child that does not heed, and a callback that does not end -/

/-- Sleeps for a while, or until it is killed. -/
def sleeper (name : String) (events : List (Nat × Kernel.Event)) : Op :=
  .spawn name (.ofArgs ["/bin/sleep", "60"]) ⟨{ Kernel.Habits.standard with ignored := [Signal.term] }, events⟩ none

/-- A child that would exit after so many milliseconds is about to be disposed of with a grace of 20 ms; not every
poll sleeps as long as it is asked to. -/
def sluggish (ms : Nat) : Machine × List Entry :=
  carry (carry (.fresh { Config.standard with grace := 20000000 } 10000000 [] .restless, [])
    (sleeper "a" [(1000000 * ms, .child 0 (.exit 0 []))]) 1) (.dispose "a") 1

/-- So many steps of the dispose. -/
def parting (ms n : Nat) : List Machine × Machine × List Entry :=
  tramp n ([], (sluggish ms).1.step, (sluggish ms).1.news ++ (sluggish ms).2)

/-- A child that exits at the very end of the grace is spared, and one that would exit later is killed
half a microsecond after it: the poll that was interrupted has left a fraction of a millisecond. -/
theorem sluggish_escalated :
    (attempts 0 ((parting 20 37).1 ++ [(sluggish 20).1]) = [(0, Signal.term)] ∧
      Escalated (some (20000000, 0)) 0 20000000 [(0, Signal.term)] ∧
      ((parting 20 37).2.1.handle 0).state = .closed ∧
      InTime (some (20000000, 0)) 0 20000000 20000000 [(0, Signal.term)]) ∧
    attempts 0 ((parting 30 44).1 ++ [(sluggish 30).1]) = [(0, Signal.term), (20000500, Signal.kill)] ∧
      Escalated (some (30000000, 0)) 0 20000000 [(0, Signal.term), (20000500, Signal.kill)] ∧
      ((parting 30 44).2.1.handle 0).state = .closed ∧
      InTime (some (30000000, 0)) 0 20000000 20000500 [(0, Signal.term), (20000500, Signal.kill)] := by
  have hinit : Run (Sole 0 1) (.fresh { Config.standard with grace := 20000000 } 10000000 [] .restless) [] :=
    Run.init (.fresh { Config.standard with grace := 20000000 } 10000000 [] .restless true)
  constructor
  · have hrun : Run (Sole 0 1) (sluggish 20).1 (sluggish 20).2 :=
      Run.carry (Run.carry hinit rfl (by decide +kernel)) (by decide) (by decide +kernel)
    have hspan : Span (fun s t => t.kernel.now = s.kernel.now) (Fair (some (20000000, 0)) 0 1 1) 1
        ((sluggish 20).1.step, (sluggish 20).1.news ++ (sluggish 20).2) (parting 20 37).1 (parting 20 37).2 :=
      Span.tramp (z := ([], _, _)) .begun (by decide +kernel) (by decide +kernel)
    have hsent : attempts 0 ((parting 20 37).1 ++ [(sluggish 20).1]) = [(0, Signal.term)] := by decide +kernel
    have hnow : (parting 20 37).2.1.kernel.now = 20000000 := by decide +kernel
    have hsteady : Undisturbed (fun s t => t.kernel.now = s.kernel.now) 1 ((parting 20 37).1 ++ [(sluggish 20).1]) :=
      ⟨fun _ _ => id, by decide +kernel⟩
    have hhonest : Honest (some (20000000, 0)) 0 1 (parting 20 37).2.2 := honest_of_tells (by decide +kernel)
    obtain ⟨hescalated, hclosed, htime⟩ := (dispose_escalates (x := sluggish 20) hrun
      (by decide +kernel) rfl (by decide) fun _ _ h => Nat.le_of_eq (Eq.symm h)).2 (by decide) _ _ hspan rfl
    have hpunctual := htime hsteady fun _ => hhonest
    rw [hsent] at hescalated hpunctual
    rw [hnow] at hpunctual
    exact ⟨hsent, hescalated, hclosed, hpunctual⟩
  · have hrun : Run (Sole 0 1) (sluggish 30).1 (sluggish 30).2 :=
      Run.carry (Run.carry hinit rfl (by decide +kernel)) (by decide) (by decide +kernel)
    have hspan : Span (fun s t => t.kernel.now = s.kernel.now) (Fair (some (30000000, 0)) 0 1 1) 1
        ((sluggish 30).1.step, (sluggish 30).1.news ++ (sluggish 30).2) (parting 30 44).1 (parting 30 44).2 :=
      Span.tramp (z := ([], _, _)) .begun (by decide +kernel) (by decide +kernel)
    have hsent : attempts 0 ((parting 30 44).1 ++ [(sluggish 30).1]) =
      [(0, Signal.term), (20000500, Signal.kill)] := by
      decide +kernel
    have hnow : (parting 30 44).2.1.kernel.now = 20000500 := by decide +kernel
    have hsteady : Undisturbed (fun s t => t.kernel.now = s.kernel.now) 1 ((parting 30 44).1 ++ [(sluggish 30).1]) :=
      ⟨fun _ _ => id, by decide +kernel⟩
    obtain ⟨hescalated, hclosed, htime⟩ := (dispose_escalates (x := sluggish 30) hrun
      (by decide +kernel) rfl (by decide) fun _ _ h => Nat.le_of_eq (Eq.symm h)).2 (by decide) _ _ hspan rfl
    have hpunctual := htime hsteady fun hspared => by
      rw [hsent] at hspared
      cases hspared
    rw [hsent] at hescalated hpunctual
    rw [hnow] at hpunctual
    exact ⟨hsent, hescalated, hclosed, hpunctual⟩

/-- A child is about to be disposed of with a grace of 20 ms, and a timer that is due after 1 ms waits for
another child, which does not exit, for a second. -/
def besieged : Machine × List Entry :=
  carry (carry (carry (carry (.fresh { Config.standard with grace := 20000000 } 10000000 [] (.fresh true), [])
    (sleeper "a" []) 1) (sleeper "b" []) 1) (.timer 1000000 0 (.mk "t" [false] [[.wait "b" 1000000000]])) 1)
    (.dispose "a") 1

/-- The dispose up to its return. -/
def relieved : List Machine × Machine × List Entry := tramp 59 ([], besieged.1.step, besieged.1.news ++ besieged.2)

/-- The callback leaves the handle alone, and yet the dispose takes more than a second. -/
theorem relieved_late : Run (Sole 0 1) besieged.1 besieged.2 ∧ besieged.1.control = .dispose 0 ∧
    besieged.1.kernel.now = 0 ∧ (besieged.1.handle 0).state = .running ∧ besieged.1.config.grace = 20000000 ∧
    Span (fun s t => t.kernel.now = s.kernel.now) (Fair none 0 1 1) 1 (besieged.1.step, besieged.1.news ++ besieged.2)
      relieved.1 relieved.2 ∧
    (∀ m ∈ relieved.1, (m.step.kernel.now = m.kernel.now ∨ m.atPass = true) ∧
      ∀ w ∈ m.loop.watches, Loop.Priority.normal ≤ w.priority) ∧
    returned 1 relieved.2.1 = true ∧
    attempts 0 (relieved.1 ++ [besieged.1]) = [(0, Signal.term), (1001000000, Signal.kill)] ∧
    relieved.2.1.kernel.now = 1001000000 ∧ ¬ relieved.2.1.kernel.now ≤ 0 + 20000000 + killWait + 2000000 := by
  have hrun : Run (Sole 0 1) besieged.1 besieged.2 :=
    Run.carry (Run.carry (Run.carry (Run.carry
      (Run.init (.fresh { Config.standard with grace := 20000000 } 10000000 [] (.fresh true) true)) rfl
      (by decide +kernel))
      (by decide) (by decide +kernel)) (by decide) (by decide +kernel)) (by decide) (by decide +kernel)
  exact ⟨hrun, rfl, by decide +kernel, by decide +kernel, rfl,
    Span.tramp (z := ([], _, _)) .begun (by decide +kernel) (by decide +kernel), by decide +kernel, rfl,
    by decide +kernel,
    by decide +kernel, by decide +kernel⟩

end Machine

end Overseer
