import Overseer.Proofs.Capture

/-!
# The phases of an isolated run

An isolated run starts its command, delivers the payload, waits for the child, and disposes of it.  Each
wait pumps a loop without scripts, so at any time the run is at one of a few places, with the frames of a
pass upon those that wait.

    begin → input → await → leave → grace → killed → closed → ended
    begin → await,   input → leave,   leave → closed,   grace → closed

The run never goes back, and it waits for one timer at a time, which a place that pumps names.

    Errand p d s log         =  the run is in the phase p and waits for the timer d
    Progress s t log p p'    =  a step from s to t leads from the phase p to p'

Main statement: `pumping_progress` (a pass leaves the run where it is).
-/

namespace Overseer

open Supervisor

namespace Supervisor

/-- How the wait for the child ended, or why the run was given up before. -/
inductive Ending
  | waited (r : Except WaitError ExitStatus)
  | aborted (cause : WriteError)

/-- The frame that waits for the disposal. -/
def Ending.frame (run : Running) : Ending → Frame
  | waited r => .runDisposed run r
  | aborted cause => .runAborted run cause

/-- How far an isolated run has come. -/
inductive Phase
  | begin (spec : RunSpec)
  | input (run : Running)
  | await (run : Running)
  | leave (run : Running) (e : Ending)
  | grace (run : Running) (e : Ending)
  | killed (run : Running) (e : Ending)
  | closed (run : Running) (e : Ending)
  | ended (a : Answer)

namespace Phase

def rank : Phase → Nat
  | begin _ => 0
  | input _ => 1
  | await _ => 2
  | leave .. => 3
  | grace .. => 4
  | killed .. => 5
  | closed .. => 6
  | ended _ => 7

def run? : Phase → Option Running
  | input run => some run
  | await run => some run
  | leave run _ => some run
  | grace run _ => some run
  | killed run _ => some run
  | closed run _ => some run
  | _ => none

def ending? : Phase → Option Ending
  | leave _ e => some e
  | grace _ e => some e
  | killed _ e => some e
  | closed _ e => some e
  | _ => none

/-- In these phases the run waits for its child. -/
def waits : Phase → Bool
  | await _ => true
  | grace .. => true
  | killed .. => true
  | _ => false

/-- The frames of the run below a wait. -/
def callers : Phase → List Frame
  | await run => [.runWaited run]
  | grace run e => [.grace 0, e.frame run]
  | killed run e => [.killed 0, e.frame run]
  | _ => []

end Phase

/-- The first child of the handle is running, or its end is known. -/
structure Handle.Live (x : Handle) : Prop where
  generation : x.generation = 1
  state : x.state = .running ∨ (x.state = .reaped ∧ x.status.isSome)

def Handle.Spent (x : Handle) : Prop := x.state ≠ .running ∧ x.state ≠ .reaped

/-- What a wait has found is what the handle knows. -/
structure Seen (x : Handle) (r : Except WaitError ExitStatus) : Prop where
  ok : ∀ st, r = .ok st → x.state ≠ .running ∧ x.status = some st
  running : r ≠ .error .notRunning

/-- Neither a wait nor a pass is about to begin. -/
def Control.isCalm : Control → Bool
  | wait .. => false
  | pass _ => false
  | _ => true

theorem Control.not_wait_of_isCalm {c : Control} (h : c.isCalm = true) (handle timeout : Nat) :
    c ≠ .wait handle timeout := by
  rintro rfl
  cases h

theorem Control.not_pass_of_isCalm {c : Control} (h : c.isCalm = true) (b : Bool) : c ≠ .pass b := by
  rintro rfl
  cases h

/-- Where an isolated run may be in each phase, and the timer that it waits for. -/
inductive Position (x : Handle) : Phase → Option Nat → Control → List Frame → Prop
  | commence (spec : RunSpec) : Position x (.begin spec) none (.isolated spec) []
  | startWrite {run : Running} {w : Writing} {d : Nat} (total : Nat) (hx : x.Live) (hw : w.deadline = some d) :
      Position x (.input run) (some d) (.startWrite w) [.writeDeadline d, .runWritten run total]
  | write {run : Running} {w : Writing} {d : Nat} (total : Nat) (pid : Int) (hx : x.Live) (hw : w.deadline = some d) :
      Position x (.input run) (some d) (.write w pid) [.writeDeadline d, .runWritten run total]
  | awaitWritable {run : Running} {w : Writing} {d watch : Nat} (total : Nat) (hx : x.Live) (hw : w.deadline = some d)
      (hne : watch ≠ d) :
      Position x (.input run) (some d) (.awaitWritable w watch) [.writeDeadline d, .runWritten run total]
  | writing {run : Running} {w : Writing} {d watch : Nat} {c : Control} {A : List Frame} (total : Nat) (hx : x.Live)
      (hw : w.deadline = some d) (hne : watch ≠ d) (hc : c.isPumping = true) (hA : ∀ f ∈ A, f.isInner = true) :
      Position x (.input run) (some d) c (A ++ .writing w watch :: [.writeDeadline d, .runWritten run total])
  | wrote {run : Running} (d total : Nat) (r : Except WriteError Nat) (hx : x.Live) :
      Position x (.input run) none (.value (.wrote r)) [.writeDeadline d, .runWritten run total]
  | written {run : Running} (total : Nat) (r : Except WriteError Nat) (hx : x.Live) :
      Position x (.input run) none (.value (.wrote r)) [.runWritten run total]
  | finishInput (run : Running) (hx : x.Live) : Position x (.input run) none (.finishInput run false) []
  | lapsed (run : Running) (hx : x.Live) :
      Position x (.leave run (.waited (.error .timeout))) none (.finishInput run true) []
  | finishWait (run : Running) (r : Except WaitError ExitStatus) (hx : x.Live) :
      Position x (.leave run (.waited r)) none (.finishWait run r) []
  | wait {p : Phase} (timeout : Nat) (hx : x.Live) (hp : p.waits = true) :
      Position x p none (.wait 0 timeout) p.callers
  | awaitExit {p : Phase} (d : Nat) (hx : x.Live) (hp : p.waits = true) :
      Position x p (some d) (.awaitExit 0 d) p.callers
  | waiting {p : Phase} {d : Nat} {c : Control} {A : List Frame} (hx : x.Live) (hp : p.waits = true)
      (hc : c.isPumping = true) (hA : ∀ f ∈ A, f.isInner = true) :
      Position x p (some d) c (A ++ .waiting 0 d :: p.callers)
  | waited {p : Phase} (r : Except WaitError ExitStatus) (hx : x.Live) (hp : p.waits = true) (hr : Seen x r) :
      Position x p none (.value (.waited r)) p.callers
  | dispose (run : Running) (e : Ending) (hx : x.Live) :
      Position x (.leave run e) none (.dispose 0) [e.frame run]
  | closed (run : Running) (e : Ending) (hx : x.Spent) :
      Position x (.closed run e) none (.value .unit) [e.frame run]
  | ended (a : Answer) (hx : x.Spent) : Position x (.ended a) none (.value (.answer a)) []

/-- What a report says is what has happened. -/
structure Truthful (x : Handle) (log : List Entry) (rep : Run.Report) : Prop where
  out : rep.out = bytesRead 0 1 .out log
  err : rep.err = bytesRead 0 1 .err log
  reads : ∀ h g st r, .read h g st r ∈ log → h = 0 ∧ g = 1
  status : ∀ st, rep.status = some st → x.status = some st
  timeout : rep.status = none ↔ rep.outcome = .timeout
  pass : rep.outcome = .pass ↔ rep.status = some (.exited 0) ∧ ∀ st, ¬Failed 0 1 st log
  error : rep.outcome = .error ↔
    rep.status = some .unknown ∨ (rep.status.isSome ∧ ∃ st, Failed 0 1 st log)
  errors : (∃ st, Failed 0 1 st log) ↔ ∃ text ∈ rep.ioErrors, ¬"stdin:".toList <+: text.toList
  troubles : ∃ (waited : Except WaitError ExitStatus) (troubles : List Run.Trouble),
    rep.ioErrors = troubles.map Run.Trouble.text ∧
    rep.outcome = Run.classify waited (troubles.filter Run.Trouble.isStream) ∧
    ∀ n total, .undelivered n total ∈ troubles → rep.outcome = .timeout

/-- What holds of handle and captures at the end of a wait. -/
def Ending.Fits (x : Handle) (cap : Run.Captured) : Ending → Prop
  | .waited r => Seen x r ∧ ∀ n total, .undelivered n total ∈ cap.troubles → r = .error .timeout
  | .aborted _ => True

/-- A report gives the end that the wait has found. -/
def Ending.Answered (e : Ending) (a : Answer) : Prop :=
  ∀ time rep execution, a = .report time (.ok rep) execution → ∃ r, e = .waited r ∧ rep.status = r.toOption

/-- What holds of handle and captures in each phase. -/
def Phase.Fits (x : Handle) (cap : Run.Captured) (log : List Entry) : Phase → Prop
  | .begin _ => x.state = .notStarted ∧ x.generation = 0 ∧ ∀ n total, .undelivered n total ∉ cap.troubles
  | .input _ => ∀ n total, .undelivered n total ∉ cap.troubles
  | .await _ => ∀ n total, .undelivered n total ∉ cap.troubles
  | .leave _ e => e.Fits x cap
  | .grace _ e => e.Fits x cap
  | .killed _ e => e.Fits x cap
  | .closed _ e => e.Fits x cap
  | .ended a => ∀ time rep execution, a = .report time (.ok rep) execution → Truthful x log rep

end Supervisor

namespace Machine

/-- An isolated run is in this phase, and waits for this timer. -/
structure Errand (p : Phase) (d : Option Nat) (s : Machine) (log : List Entry) : Prop where
  position : Position (s.handle 0) p d s.control s.stack
  fits : p.Fits (s.handle 0) s.captured log
  delivery : Delivery s.control (s.handle 0) s.captured log
  size : s.handles.length = 1
  tidy : s.loop.Tidy
  scriptFree : s.loop.ScriptFree
  issued : ∀ i, d = some i → i ≤ s.loop.lastId

/-- How long a wait that begins may take. -/
def Grants (s : Machine) (timeout : Nat) : Phase → Prop
  | .await run => timeout = run.spec.timeout - (s.kernel.now - run.started)
  | .grace .. => timeout = s.config.grace
  | .killed .. => timeout = killWait
  | _ => False

/-- How a step leads on: no phase comes back, a new timer is that of the payload or of a wait, and a report
gives the time since the start. -/
structure Leads (s t : Machine) (p p' : Phase) (d d' : Option Nat) : Prop where
  rank : p.rank ≤ p'.rank
  run : ∀ run, p'.run? = some run → p.run? = some run ∨
    ∃ spec, p = .begin spec ∧ run.spec = spec ∧ run.started = s.kernel.now
  ending : ∀ e, p.ending? = some e → p'.ending? = some e ∨ ∃ a, p' = .ended a ∧ e.Answered a
  timer : ∀ i, d' = some i → d = some i ∨ ∃ interval,
    (⟨i, Loop.Priority.normal, .timer interval (s.kernel.now + interval) (some .raise)⟩ : Loop.Watch Callback) ∈
      t.loop.watches ∧ ((∃ spec, p = .begin spec ∧ interval = spec.timeout) ∨ s.control = .wait 0 interval)
  wait : ∀ h timeout, t.control = .wait h timeout → p.rank < p'.rank ∧ s.Grants timeout p'
  pass : ∀ b, t.control = .pass b → ∀ i, d' = some i → i ∉ t.raised
  ended : ∀ a, p' = .ended a → p = .ended a ∨ ∀ time rep execution, a = .report time (.ok rep) execution →
    ∃ run, p.run? = some run ∧ rep.duration = s.kernel.now - run.started

/-- A step of the run has led to this phase and this timer. -/
structure Progress (s t : Machine) (log : List Entry) (p p' : Phase) (d d' : Option Nat) : Prop where
  news : ∃ es, t.journal = es ++ s.journal ∧ Delivery t.control (t.handle 0) t.captured (es ++ log) ∧
    p'.Fits (t.handle 0) t.captured (es ++ log)
  size : t.handles.length = s.handles.length
  position : Position (t.handle 0) p' d' t.control t.stack
  leads : Leads s t p p' d d'

variable {s t u : Machine} {x y : Handle} {p p' : Phase} {d d' : Option Nat} {log : List Entry} {run : Running}
  {e : Ending}

/-! ## Stances -/

theorem stance_inj (h : y.stance = x.stance) :
    y.state = x.state ∧ y.generation = x.generation ∧ y.status = x.status :=
  ⟨congrArg Prod.fst h, congrArg (·.2.1) h, congrArg (·.2.2) h⟩

theorem live_of_stance (h : y.stance = x.stance) (hx : x.Live) : y.Live := by
  obtain ⟨hs, hg, hst⟩ := stance_inj h
  exact ⟨hg.trans hx.generation, by rw [hs, hst]; exact hx.state⟩

theorem seen_of_stance {r : Except WaitError ExitStatus} (h : y.stance = x.stance) (hx : Seen x r) : Seen y r := by
  obtain ⟨hs, -, hst⟩ := stance_inj h
  exact ⟨by rw [hs, hst]; exact hx.ok, hx.running⟩

theorem seen_timeout : Seen x (.error .timeout) := ⟨by rintro _ ⟨⟩, by rintro ⟨⟩⟩

theorem seen_of_reaped {st : ExitStatus} (hx : x.state = .reaped) (hst : x.status = some st) : Seen x (.ok st) := by
  refine ⟨fun st' h => ?_, by rintro ⟨⟩⟩
  cases h
  exact ⟨by simp [hx], hst⟩

/-- What is known of the end of the child is known after closing. -/
theorem endingFits_of_close {cap : Run.Captured} (hs : y.state ≠ .running) (hst : y.status = x.status)
    (hf : e.Fits x cap) : e.Fits y cap := by
  cases e with
  | waited r => exact ⟨⟨fun st h => ⟨hs, hst.trans (hf.1.ok st h).2⟩, hf.1.running⟩, hf.2⟩
  | aborted cause => exact trivial

theorem endingFits_of_stance {cap : Run.Captured} (h : y.stance = x.stance) (hf : e.Fits x cap) :
    e.Fits y cap := by
  cases e with
  | waited r => exact ⟨seen_of_stance h hf.1, hf.2⟩
  | aborted cause => exact trivial

/-- Trouble with the input is not heard of the child. -/
theorem Heard.trouble {tr : Run.Trouble} (hh : Heard s.captured log) (ht : tr.isStream = false) :
    Heard (s.trouble tr).captured log := by
  refine ⟨hh.out, hh.err, fun st => ?_, hh.reads⟩
  rw [← hh.faults st]
  refine exists_congr fun e => ⟨fun hm => ?_, List.mem_append_left _⟩
  refine (List.mem_append.1 hm).resolve_right fun hlast => ?_
  rw [← List.mem_singleton.1 hlast] at ht
  cases ht

/-! ## Steps without a word -/

theorem Progress.hush (hd : Delivery s.control (s.handle 0) s.captured log) (hm : Hush s t)
    (hq : s.control.isQuiet = true) (hq' : t.control.isQuiet = true)
    (hfits : ∀ log', p'.Fits (t.handle 0) s.captured log') (hpos : Position (t.handle 0) p' d' t.control t.stack)
    (hl : Leads s t p p' d d') : Progress s t log p p' d d' := by
  obtain ⟨es, hj, hdel⟩ := hm.delivery hd hq hq'
  exact ⟨⟨es, hj, hdel, hm.captured ▸ hfits _⟩, hm.size, hpos, hl⟩

/-- Neither a wait nor a pass begins, and no timer is new. -/
theorem leads_on (hrank : p.rank ≤ p'.rank) (hrun : ∀ run, p'.run? = some run → p.run? = some run)
    (hending : ∀ e, p.ending? = some e → p'.ending? = some e ∨ ∃ a, p' = .ended a ∧ e.Answered a)
    (hd : ∀ i, d' = some i → d = some i) (hcalm : t.control.isCalm = true)
    (hended : ∀ a, p' = .ended a → p = .ended a ∨ ∀ time rep execution, a = .report time (.ok rep) execution →
      ∃ run, p.run? = some run ∧ rep.duration = s.kernel.now - run.started) : Leads s t p p' d d' :=
  ⟨hrank, fun run h => .inl (hrun run h), hending, fun i h => .inl (hd i h),
    fun h τ hw => absurd hw (Control.not_wait_of_isCalm hcalm h τ),
    fun b hp => absurd hp (Control.not_pass_of_isCalm hcalm b), hended⟩

/-- The run stays in its phase, and waits for no other timer. -/
theorem Progress.stay (hd : Delivery s.control (s.handle 0) s.captured log) (hm : Mute s t)
    (hq : s.control.isQuiet = true) (hq' : t.control.isQuiet = true)
    (hf : ∀ log', p.Fits (t.handle 0) s.captured log')
    (hpos : Position (t.handle 0) p d' t.control t.stack) (hd' : ∀ i, d' = some i → d = some i)
    (hcalm : t.control.isCalm = true) : Progress s t log p p d d' :=
  .hush hd hm.toHush hq hq' hf hpos
    (leads_on (Nat.le_refl _) (fun _ h => h) (fun _ h => .inl h) hd' hcalm fun _ h => .inl h)

/-! ## Passes -/

/-- Whether the child still runs or was reaped meanwhile, the handle is as the run wants it. -/
theorem live_of_inward {K : List Frame} (hi : Inward K s t log) (hx : (s.handle 0).Live) : (t.handle 0).Live := by
  rcases hi.stance with hsame | ⟨-, st, hreaped⟩
  · exact live_of_stance hsame hx
  · obtain ⟨hs, hg, hst⟩ : _ ∧ _ ∧ _ :=
      ⟨congrArg Prod.fst hreaped, congrArg (·.2.1) hreaped, congrArg (·.2.2) hreaped⟩
    exact ⟨hg.trans hx.generation, .inr ⟨hs, by simp [show (t.handle 0).status = some st from hst]⟩⟩

theorem endingFits_of_inward {K : List Frame} (hi : Inward K s t log) (hf : e.Fits (s.handle 0) s.captured) :
    e.Fits (t.handle 0) t.captured := by
  cases e with
  | aborted cause => exact trivial
  | waited r =>
    refine ⟨⟨fun st h => ?_, hf.1.running⟩, fun n total hm => hf.2 n total (hi.troubles n total hm)⟩
    obtain ⟨hne, hst⟩ := hf.1.ok st h
    rcases hi.stance with hsame | ⟨hrun, -⟩
    · obtain ⟨hs, -, hstatus⟩ := stance_inj hsame
      exact ⟨hs ▸ hne, hstatus.trans hst⟩
    · exact absurd hrun hne

/-- While the loop is pumped, what is known of the child only grows. -/
theorem pumping_progress {i : Nat} {A K : List Frame} {wf : Frame}
    (hd : Delivery s.control (s.handle 0) s.captured log) (hf : p.Fits (s.handle 0) s.captured log)
    (hx : (s.handle 0).Live) (hp : p.rank ≠ 0) (hp' : p.rank ≠ 7) (hsize : s.handles.length = 1)
    (hfree : s.loop.ScriptFree) (hs : s.stack = A ++ wf :: K) (hA : ∀ f ∈ A, f.isInner = true)
    (hc : s.control.isPumping = true)
    (hwf : ∀ (u : Machine) v, (∀ b, v ≠ .passed b) → u.resume wf v = u.push wf)
    (hnot : ∀ b, s.control = .value (.passed b) → A ≠ [])
    (hpos : ∀ (y : Handle) c B, y.Live → c.isPumping = true → (∀ f ∈ B, f.isInner = true) →
      Position y p (some i) c (B ++ wf :: K)) : Progress s s.step log p p (some i) (some i) := by
  have hi := inner_step hs hA hc hd hsize hx.generation hfree hwf hnot
  obtain ⟨es, hj, hdel⟩ := hi.delivery
  obtain ⟨B, hB, hinner⟩ := hi.stack
  have hfits : p.Fits (s.step.handle 0) s.step.captured (es ++ log) := by
    cases p with
    | begin spec => exact absurd rfl hp
    | input run => exact fun n total hm => hf n total (hi.troubles n total hm)
    | await run => exact fun n total hm => hf n total (hi.troubles n total hm)
    | leave run e => exact endingFits_of_inward hi hf
    | grace run e => exact endingFits_of_inward hi hf
    | killed run e => exact endingFits_of_inward hi hf
    | closed run e => exact endingFits_of_inward hi hf
    | ended a => exact absurd rfl hp'
  have hpump : s.step.control.isPumping = true ∧ s.step.control.isCalm = true := by
    have hin := hi.control
    generalize s.step.control = c at hin
    cases c <;> first | (cases hin; done) | exact ⟨hin, rfl⟩
  refine ⟨⟨es, hj, hdel, hfits⟩, hi.size, ?_,
    leads_on (Nat.le_refl _) (fun _ h => h) (fun _ h => .inl h) (fun _ h => h) hpump.2 fun _ h => .inl h⟩
  rw [hB]
  exact hpos _ _ _ (live_of_inward hi hx) hpump.1 hinner

end Machine

end Overseer
