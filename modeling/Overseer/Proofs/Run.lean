import Mathlib.Logic.Relation
import Overseer.Proofs.Journal
import Overseer.Supervisor.Session

/-!
# Runs of a machine

A run moves a machine and its log, which is what has happened on this one loop, newest entry first.
Between two steps anything may happen elsewhere: the kernel may become any kernel, so pids may be
given again, children may end, calls may fail.  An isolated run that the machine waits for is such a
thing too, since it has a loop of its own.

    step       s, log  →  step s, news s ++ log           when the guard G holds of s
    elsewhere  s, log  →  s on another kernel, log
    rejoin     s, log  →  s with the answer of an isolated run, log
    start      s, log  →  s about to perform an operation, log      when s is at rest

Main statement: every machine of a session is reached by a run (`traced_run`).
-/

namespace Overseer

open Supervisor
open Relation (ReflTransGen)

namespace Machine

/-- What the next step adds to the journal. -/
def news (s : Machine) : List Entry :=
  s.step.journal.take (s.step.journal.length - s.journal.length)

inductive Move (G : Machine → Prop) : Machine × List Entry → Machine × List Entry → Prop
  | step {s : Machine} {log : List Entry} : G s → Move G (s, log) (s.step, s.news ++ log)
  | elsewhere {s : Machine} {log : List Entry} (k : Kernel) : Move G (s, log) (s.withKernel k, log)
  | rejoin {s : Machine} {log : List Entry} {spec : RunSpec} (inner : Machine) (a : Answer) :
      s.control = .suspended spec → Move G (s, log) (Session.rejoin s inner a, log)
  | start {s : Machine} {log : List Entry} (op : Op) :
      s.isIdle = true → Move G (s, log) (s.start op, log)
  | ending {s : Machine} {log : List Entry} :
      s.isIdle = true → Move G (s, log) ({ s with ending := true }, log)

/-- Where runs begin: a machine at rest, or one set up for an isolated run. -/
inductive Initial : Machine → Prop
  | fresh (config : Config) (tick : Nat) (environ : List (String × String)) (kernel : Kernel)
      (logging : Bool) :
      Initial { Machine.fresh config tick environ kernel with logging := logging }
  | forRun (outer : Machine) (spec : RunSpec) : Initial (outer.forRun spec)

/-- A run under the guard `G` leads to `s`, and `log` is what has happened. -/
def Run (G : Machine → Prop) (s : Machine) (log : List Entry) : Prop :=
  ∃ s₀, Initial s₀ ∧ ReflTransGen (Move G) (s₀, []) (s, log)

/-- Some steps of a machine, with what has happened. -/
def walk : (n : Nat) → Machine × List Entry → Machine × List Entry
  | 0, x => x
  | n + 1, x => walk n (x.1.step, x.1.news ++ x.2)

/-- The first steps of an operation upon a machine at rest. -/
def carry (x : Machine × List Entry) (op : Op) (n : Nat) : Machine × List Entry :=
  walk n (x.1.start op, x.2)

/-! ## Lemmas -/

/-- Entries that a step has put before the journal are its news. -/
theorem news_eq {s : Machine} {es : List Entry} (h : s.step.journal = es ++ s.journal) :
    s.news = es := by
  have hl : (es ++ s.journal).length - s.journal.length = es.length := by
    rw [List.length_append]
    omega
  rw [news, h, hl]
  exact List.take_left

theorem Run.init {G : Machine → Prop} {s : Machine} (h : Initial s) : Run G s [] :=
  ⟨s, h, .refl⟩

theorem Run.move {G : Machine → Prop} {s t : Machine} {log log' : List Entry} (h : Run G s log)
    (hm : Move G (s, log) (t, log')) : Run G t log' := by
  obtain ⟨s₀, hi, hr⟩ := h
  exact ⟨s₀, hi, hr.tail hm⟩

/-- What holds at first and is kept by every move holds of every run. -/
theorem Run.invariant {G : Machine → Prop} {P : Machine → List Entry → Prop}
    (init : ∀ s, Initial s → P s [])
    (move : ∀ s log t log', P s log → Move G (s, log) (t, log') → P t log')
    {s : Machine} {log : List Entry} (h : Run G s log) : P s log := by
  obtain ⟨s₀, hi, hr⟩ := h
  have key : ∀ x, ReflTransGen (Move G) (s₀, []) x → P x.1 x.2 := by
    intro x hx
    induction hx with
    | refl => exact init s₀ hi
    | tail _ hm ih => exact move _ _ _ _ ih hm
  exact key _ hr

theorem Run.walk {G : Machine → Prop} {n : Nat} {x : Machine × List Entry} (h : Run G x.1 x.2)
    (hg : ∀ m < n, G (walk m x).1) : Run G (walk n x).1 (walk n x).2 := by
  induction n generalizing x with
  | zero => exact h
  | succ n ih =>
    have hfirst : Run G x.1.step (x.1.news ++ x.2) := h.move (.step (hg 0 (Nat.succ_pos n)))
    exact ih hfirst fun m hm => hg (m + 1) (Nat.succ_lt_succ hm)

theorem Run.carry {G : Machine → Prop} {n : Nat} {x : Machine × List Entry} {op : Op}
    (h : Run G x.1 x.2) (hi : x.1.isIdle = true) (hg : ∀ m < n, G (carry x op m).1) :
    Run G (carry x op n).1 (carry x op n).2 :=
  Run.walk (x := (x.1.start op, x.2)) (h.move (.start op hi)) hg

theorem Move.mono {G G' : Machine → Prop} (hg : ∀ s, G s → G' s) {x y : Machine × List Entry} (h : Move G x y) :
    Move G' x y := by
  cases h with
  | step h => exact .step (hg _ h)
  | elsewhere k => exact .elsewhere k
  | rejoin inner a h => exact .rejoin inner a h
  | start op h => exact .start op h
  | ending h => exact .ending h

/-- A run under a guard is a run under any weaker one. -/
theorem Run.mono {G G' : Machine → Prop} (hg : ∀ s, G s → G' s) {s : Machine} {log : List Entry}
    (h : Run G s log) : Run G' s log :=
  Run.invariant (P := Run G') (fun _ => Run.init) (fun _ _ _ _ ih hm => ih.move (hm.mono hg)) h

end Machine

namespace Session

open Machine (Run Initial)

/-- Both machines of a session are reached by runs of their own, and while there is an inner one the
outer one waits for it. -/
structure Traced (s : Session) : Prop where
  outer : ∃ log, Run (fun _ => True) s.outer log
  inner : ∀ m, s.inner = some m → ∃ log, Run (fun _ => True) m log
  waits : ∀ m, s.inner = some m → ∃ spec, s.outer.control = .suspended spec

theorem traced_alone {m : Machine} {log : List Entry} (h : Run (fun _ => True) m log) :
    Traced ⟨m, none⟩ :=
  ⟨⟨log, h⟩, fun _ hm => (by cases hm), fun _ hm => (by cases hm)⟩

theorem traced_fresh {m : Machine} (h : Initial m) : (fresh m).Traced :=
  traced_alone (Run.init h)

theorem traced_step {s : Session} (h : s.Traced) : s.step.Traced := by
  obtain ⟨log, ho⟩ := h.outer
  unfold step
  split
  · next inner hin =>
    obtain ⟨log', hr⟩ := h.inner inner hin
    obtain ⟨spec, hw⟩ := h.waits inner hin
    split
    · next a _ => exact traced_alone (ho.move (.rejoin inner a hw))
    · refine ⟨h.outer, ?_, fun _ _ => ⟨spec, hw⟩⟩
      intro m hm
      cases hm
      exact ⟨_, hr.move (.step trivial)⟩
  · split
    · next spec hw =>
      refine ⟨h.outer, ?_, fun _ _ => ⟨spec, hw⟩⟩
      intro m hm
      cases hm
      exact ⟨[], Run.init (.forRun _ _)⟩
    · exact traced_alone (ho.move (.step trivial))

theorem traced_run {n : Nat} {s t : Session} (hs : s.Traced) (h : run n s = some t) : t.Traced := by
  induction n generalizing s with
  | zero =>
    unfold run at h
    split at h
    · cases h
      exact hs
    · cases h
  | succ n ih =>
    unfold run at h
    split at h
    · cases h
      exact hs
    · exact ih (traced_step hs) h

/-- A session at rest is one machine at rest. -/
theorem eq_alone_of_isIdle {s : Session} (h : s.isIdle = true) :
    s = ⟨s.outer, none⟩ ∧ s.outer.isIdle = true := by
  obtain ⟨outer, inner⟩ := s
  simp only [isIdle, Bool.and_eq_true, Option.isNone_iff_eq_none] at h
  exact ⟨by rw [h.1], h.2⟩

theorem traced_perform {n : Nat} {s t : Session} {op : Op} (hs : s.Traced) (hi : s.isIdle = true)
    (h : perform n s op = some t) : t.Traced := by
  obtain ⟨he, ho⟩ := eq_alone_of_isIdle hi
  obtain ⟨log, hr⟩ := hs.outer
  refine traced_run ?_ h
  rw [he]
  exact traced_alone (hr.move (.start op ho))

theorem traced_dropAll {n : Nat} {names : List String} {s t : Session} (hs : s.Traced)
    (hi : s.isIdle = true) (h : dropAll n names s = some t) : t.Traced := by
  induction names generalizing s with
  | nil =>
    cases h
    exact hs
  | cons x r ih =>
    obtain ⟨u, hu, hr⟩ := Option.bind_eq_some_iff.1 h
    exact ih (traced_perform hs hi hu) (isIdle_of_run hu) hr

/-- The end phase is reached by runs as well. -/
theorem traced_finish {n : Nat} {s t : Session} (hs : s.Traced) (hi : s.isIdle = true)
    (h : finish n s = some t) : t.Traced := by
  obtain ⟨he, ho⟩ := eq_alone_of_isIdle hi
  obtain ⟨log, hr⟩ := hs.outer
  refine traced_dropAll ?_ ?_ h
  · rw [he]
    exact traced_alone (hr.move (.ending ho))
  · rw [he]
    exact ho

end Session

end Overseer
