import Overseer.Proofs.ReadOut

/-!
# The last words of a child

Before the exit of a child is announced, each captured stream of it has been read out: its end or its
failure was read, or, after waitpid had told of the exit, that there is nothing more for now.

    reap x (st :: left)  →  drain st, then reap x left
    drain st             →  the pipe of st is gone, or a read of it would block: st is read out
    reap x []            →  all streams are read out, and the exit is due

Pipes are first in, first out; where the child alone has written to one, all of it is told before the
exit, and nothing of that stream is told afterwards.

Main statement: `last_words`.
-/

namespace Overseer

open Supervisor
open Kernel (Stream)
open Os (Failure)

namespace Machine

/-- If the exit `x` is still awaited, the stream has been read out for it. -/
def Done (s : Machine) (log : List Entry) (x : Reaping) (st : Stream) : Prop :=
  (s.handle x.h).generation = x.g → (s.handle x.h).state = .running → Captured x.h x.g st log →
    ReadOut 1 x.h x.g st x.status log

/-- The streams that a reap has behind it are done with, but for one that is being read for it. -/
def Backed (s : Machine) (log : List Entry) (above : Option Duty) (d : Duty) : Prop :=
  ∀ x left, d = .reap x left → ∀ st, st ∉ left → Done s log x st ∨ above = some (.drain x.h st x.g)

/-- The streams of generation `g` of handle `h` have been read out for the exit `status`, and what was
read of them has been told. -/
structure Parted (h g : Nat) (status : ExitStatus) (log : List Entry) : Prop where
  readOut : ∀ st, Captured h g st log → ReadOut 1 h g st status log
  told : ∀ st, bytesRead h g st log = (told h g st log).flatMap Event.bytes
  failed : ∀ st, Failed h g st log → ∃ e ∈ Supervisor.told h g st log, e.isFault = true

/-- Exits part from their handles in good order. -/
structure Parting (σ : Stage) (log : List Entry) : Prop where
  taps : ∀ h, Taps h (σ.machine.handle h) log
  stack : Stacked (Backed σ.machine log) none σ.duties
  due : ∀ h status, σ.due = some (h, .reaped status) → ∀ st,
    Captured h (σ.machine.handle h).generation st log →
      ReadOut 1 h (σ.machine.handle h).generation st status log
  past : ∀ h g status newer older, log = newer ++ .emitted h g (.reaped status) :: older →
    Parted h g status older ∧ ∀ p, .spawned h g p ∉ newer

/-- What is said of the streams of generation `g` of handle `h` before and after its exit is announced. -/
structure LastWords (size h g : Nat) (status : ExitStatus) (newer older : List Entry) (log : List Entry) :
    Prop where
  readOut : ∀ st, Captured h g st older → ReadOut size h g st status older
  told : ∀ st written, Captured h g st older → Fifo size h g st written log → ¬ Failed h g st older →
    (Supervisor.told h g st older).flatMap Event.bytes = written
  silent : ∀ st, (Captured h g st older → ∃ written, Fifo size h g st written log) →
    ∀ bytes, .emitted h g (.chunk st bytes) ∉ newer

variable {o s t : Machine} {σ τ : Stage} {log es : List Entry} {h g : Nat} {x y : Handle}
  {d d' : Option (Nat × Event)} {st : Stream} {status : ExitStatus}

/-! ## Duties -/

theorem Done.shift {x : Reaping} (hd : Done s log x st)
    (hs : Shift o x.h (s.handle x.h) d es (t.handle x.h) d') (hg : x.g ≤ (s.handle x.h).generation) :
    Done t (es ++ log) x st := by
  intro hgen hrun hc
  obtain ⟨hgen₀, hrun₀⟩ := hs.back hg hgen hrun
  exact (hd hgen₀ hrun₀ ((hs.captured hg).1 hc)).append es

/-- What the streams of a reap rely on is kept by every shift of the handles. -/
theorem stack_shift {D : List Duty} (hst : Stacked (Backed s log) none D)
    (hs : ∀ h, Shift o h (s.handle h) d es (t.handle h) d')
    (hg : ∀ x ∈ D.flatMap Duty.reapings, x.g ≤ (t.handle x.h).generation → x.g ≤ (s.handle x.h).generation) :
    Stacked (Backed t (es ++ log)) none D := by
  refine hst.mono fun above d hm hb x left hx st hleft => ?_
  rcases hb x left hx st hleft with hdone | habove
  · have hx : x ∈ D.flatMap Duty.reapings := by
      refine List.mem_flatMap.2 ⟨d, hm, ?_⟩
      rw [hx]
      exact List.mem_cons_self
    refine .inl fun hgen hrun hc => ?_
    exact hdone.shift (hs x.h) (hg x hx (Nat.le_of_eq hgen.symm)) hgen hrun hc
  · exact .inr habove

theorem backed_of_ne {above : Option Duty} {d : Duty} (hne : ∀ x left, d ≠ .reap x left) :
    Backed s log above d :=
  fun x left he => absurd he (hne x left)

/-- Where no stream is being read right above, a reap does not care what stands above it. -/
theorem retop_backed {D : List Duty} {a : Option Duty} (a' : Option Duty)
    (hst : Stacked (Backed s log) a D) (ha : ∀ h st g, a ≠ some (.drain h st g)) :
    Stacked (Backed s log) a' D := by
  refine hst.retop fun d _ hb x left hx st hleft => ?_
  rcases hb x left hx st hleft with hdone | habove
  · exact .inl hdone
  · exact absurd habove (ha _ _ _)

/-- A stream that has been read is done with. -/
theorem settle_backed {D : List Duty} (a' : Option Duty)
    (hst : Stacked (Backed s log) (some (.drain h st g)) D)
    (hdone : ∀ x ∈ D.flatMap Duty.reapings, x.h = h → x.g = g → Done s log x st) :
    Stacked (Backed s log) a' D := by
  refine hst.retop fun d hm hb x left hx st' hleft => .inl ?_
  rcases hb x left hx st' hleft with hd | habove
  · exact hd
  · injection habove with habove
    injection habove with hh hs hg
    subst hs
    refine hdone x (List.mem_flatMap.2 ⟨d, hm, ?_⟩) hh.symm hg.symm
    rw [hx]
    exact List.mem_cons_self

/-- A callback that is called has no stream behind it. -/
theorem stack_callback {D : List Duty} (hst : Stacked (Backed s log) none D) (cb : Callback) (id : Nat)
    (payload : Loop.Payload) : Stacked (Backed s log) none (cb.duties id payload ++ D) := by
  have below : ∀ a, Stacked (Backed s log) a D := fun a => retop_backed a hst (by simp)
  cases cb with
  | raise => exact ⟨backed_of_ne (by simp), below _⟩
  | stream h st g => exact ⟨backed_of_ne (by simp), below _⟩
  | reap h g =>
    cases payload with
    | child pid status =>
      refine ⟨fun x left he st hleft => ?_, below _⟩
      cases he
      cases st <;> simp at hleft
    | _ => exact hst
  | _ => exact hst

theorem stack_stir {D D' : List Duty} (h : Stir o s D t D') (hst : Stacked (Backed t log) none D) :
    Stacked (Backed t log) none D' := by
  cases h with
  | lent time w cb payload l hw hn hcb hp hl hlook =>
    have hlent : Stacked (Backed _ log) none (.restore w.id cb.next :: D) :=
      ⟨backed_of_ne (by simp), retop_backed _ hst (by simp)⟩
    exact stack_callback hlent cb w.id payload
  | taken time w pid fd status cb hw hs => exact stack_callback hst cb w.id (.child pid status)
  | restored time now id cb => exact retop_backed none hst.2.2 (by simp)
  | ended time id cb => exact retop_backed none hst.2.2 (by simp)
  | rung id => exact ⟨backed_of_ne (by simp), retop_backed _ hst.2 (by simp)⟩
  | engaged priority src hsrc hcb => exact ⟨backed_of_ne (by simp), retop_backed _ hst (by simp)⟩
  | cleared id => exact retop_backed none hst.2 (by simp)
  | registered name priority src x hsrc hcb ho hs => exact hst
  | watched name pid priority x ho hs => exact hst
  | dismissed id hid => exact hst

theorem stack_turn {D D' : List Duty} (h : Turn s D D') (ht : ∀ h, Taps h (s.handle h) log)
    (hst : Stacked (Backed s log) none D) : Stacked (Backed s log) none D' := by
  cases h with
  | judged b => exact ⟨backed_of_ne (by simp), retop_backed _ hst (by simp)⟩
  | hark => exact ⟨backed_of_ne (by simp), retop_backed _ hst (by simp)⟩
  | heeded b hd => exact retop_backed none hst.2 (by simp)
  | heard => exact retop_backed none hst.2 (by simp)
  | muted b => trivial
  | next x st left =>
    obtain ⟨hx, hrest⟩ := hst
    refine ⟨backed_of_ne (by simp), fun y left' he st' hleft => ?_, retop_backed _ hrest (by simp)⟩
    cases he
    by_cases hst' : st' = st
    · rw [hst']
      exact .inr rfl
    · rcases hx x (st :: left) rfl st' (by simp [hst', hleft]) with hdone | habove
      · exact .inl hdone
      · cases habove
  | shed x left hstale => exact retop_backed none hst.2 (by simp)
  | @passed D h st g hgone =>
    refine ⟨backed_of_ne (by simp), settle_backed _ hst.2 fun x _ hh hg hgen hrun hc => ?_⟩
    -- the exit is awaited by the handle itself, so that the pipe of the stream is gone
    subst hh hg
    rcases hgone with hother | hnone
    · exact absurd hgen hother
    · rw [← hgen] at hc
      obtain ⟨r, hm, hl⟩ := (ht x.h).shut hrun st hc hnone
      rw [hgen] at hm
      exact .inl ⟨r, hm, hl⟩
  | excused hid => exact retop_backed none hst.2 (by simp)
  | begun => exact retop_backed none hst.2 (by simp)

theorem stack_loud {news : List Entry} (hf : Footing σ log) (hl : Loud o σ τ)
    (hj : τ.machine.journal = news ++ σ.machine.journal)
    (hst : Stacked (Backed τ.machine (news ++ log)) none σ.duties) :
    Stacked (Backed τ.machine (news ++ log)) none τ.duties := by
  have hnews : ∀ es, τ.machine.journal = es ++ σ.machine.journal → es = news := fun _ he =>
    List.append_cancel_right (he.symm.trans hj)
  cases hl with
  | stirred hs => exact stack_stir hs hst
  | adopted i c e pid k hname hstate hsp he hk hs => exact hst
  | closed i hc hs hlast hrs => exact hst
  | reaped x hg hrun hs => exact retop_backed none hst.2 (by simp)
  | @read s D i st p r hp hr hk hc hs =>
    obtain rfl := hnews [.read i (s.handle i).generation st r] rfl
    cases r with
    | ok bytes => exact hst
    | error e =>
      unfold readLeaves
      dsimp only at hst ⊢
      split
      · exact hst
      · next hne =>
        -- the read would block, and the exit had been learnt before
        have he : e = Failure.wouldBlock := by simpa [readEnds, hne] using hr
        subst he
        refine ⟨backed_of_ne (by simp), settle_backed _ hst.2 fun x hx hh hg hgen hrun hc => ?_⟩
        have hlearnt := hf.learned.reaping x hx
        rw [← hg, ← hh]
        exact .inr ⟨[], log, rfl, hlearnt⟩
  | @finished s D i st p r n hp hr hk hs =>
    obtain ⟨es, he, -⟩ := (release_releaseStream hp r n).journal
    obtain rfl := hnews (es ++ [.read i (s.handle i).generation st r])
      (by rw [he, List.append_assoc]; rfl)
    refine ⟨backed_of_ne (by simp), settle_backed _ hst.2 fun x hx hh hg hgen hrun hc => ?_⟩
    refine .inl ⟨r, ?_, (isLast_one r).trans hr⟩
    rw [← hg, ← hh]
    simp
  | emitted i e f hlife hf hs => exact hst
  | handed i e rest entry f hbox hentry hlife hf => exact hst

/-! ## Exits -/

/-- An exit that is due after a deed was due before, or the deed has reaped. -/
theorem Loud.due_exit (hl : Loud o σ τ) (hd : τ.due = some (h, .reaped status)) :
    σ.due = some (h, .reaped status) ∨ ∃ x D, σ.duties = .reap x [] :: D ∧ x.h = h ∧ x.status = status ∧
      (σ.machine.handle h).generation = x.g ∧ (σ.machine.handle h).state = .running := by
  have unsaid : ∀ {i : Nat} {st : Stream} {r : Except Int Bytes},
      (readSays st r).map (i, ·) ≠ some (h, .reaped status) := by
    intro i st r hr
    have hnone := dueExit_readSays h i st r
    rw [hr, dueExit_self] at hnone
    cases hnone
  cases hl with
  | stirred hs => exact .inl hd
  | adopted i c e pid k hname hstate hsp he hk hs => cases hd
  | closed i hc hs hlast hrs => cases hd
  | @reaped s D x hg hrun hs =>
    cases hd
    exact .inr ⟨x, D, rfl, rfl, rfl, hg, hrun⟩
  | read i st p r hp hr hk hc hs => exact absurd hd unsaid
  | finished i st p r n hp hr hk hs => exact absurd hd unsaid
  | emitted i e f hlife hf hs => cases hd
  | handed i e rest entry f hbox hentry hlife hf => cases hd

/-- An exit is announced when it was due, by the generation that its handle has. -/
theorem Shift.announcement (hs : Shift o h x d es y d') {newer older : List Entry}
    (hm : es ++ log = newer ++ .emitted h g (.reaped status) :: older) :
    (∃ rest, newer = es ++ rest ∧ log = rest ++ .emitted h g (.reaped status) :: older) ∨
      (newer = [] ∧ older = log ∧ d = some (h, .reaped status) ∧ g = x.generation) := by
  have silent : announced h g es = [] →
      ∃ rest, newer = es ++ rest ∧ log = rest ++ .emitted h g (.reaped status) :: older := by
    intro hes
    rcases List.append_eq_append_iff.1 hm with ⟨rest, hn, hl⟩ | ⟨rest, he, hl⟩
    · exact ⟨rest, hn, hl⟩
    · cases rest with
      | nil => exact ⟨[], by simpa using he.symm, by simpa using hl.symm⟩
      | cons e rest =>
        injection hl with hhead hl
        rw [he, ← hhead, announced_append] at hes
        simp [Supervisor.announced, Entry.announces?] at hes
  cases hs with
  | keeps hs he hd => exact .inl (silent (he.announced g))
  | spawned hx₀ ho hd hd' hb hnew ha => exact .inl (silent (ha g))
  | closed hx₀ hd hd' he => exact .inl (silent (he.announced g))
  | reaped st hx₀ hd hd' he =>
    subst he
    exact .inl (silent rfl)
  | told st hx₀ hd hd' he =>
    subst he
    cases newer with
    | nil =>
      injection hm with hentry hlog
      cases hentry
      exact .inr ⟨rfl, hlog.symm, hd, rfl⟩
    | cons e newer =>
      injection hm with hentry hlog
      exact .inl ⟨newer, by rw [hentry]; rfl, hlog⟩

theorem Parting.carry {chunk : Nat} (hp : Parting σ log) (ha : AllFaithful σ log)
    (hs : ∀ h, Shift o h (σ.machine.handle h) σ.due es (τ.machine.handle h) τ.due)
    (hf : ∀ h, Flow o chunk h (σ.machine.handle h) σ.due es (τ.machine.handle h) τ.due)
    (hst : Stacked (Backed τ.machine (es ++ log)) none τ.duties)
    (hdue : ∀ h status, τ.due = some (h, .reaped status) → σ.due = some (h, .reaped status) ∨
      ((τ.machine.handle h).generation = (σ.machine.handle h).generation ∧
        ∀ st, Captured h (σ.machine.handle h).generation st log →
          ReadOut 1 h (σ.machine.handle h).generation st status log)) : Parting τ (es ++ log) := by
  have hsaid : ∀ h status, σ.due = some (h, .reaped status) → ∀ st,
      saying h (σ.machine.handle h) σ.due log (σ.machine.handle h).generation st =
        told h (σ.machine.handle h).generation st log := by
    intro h status hd st
    rw [saying, hd, if_pos rfl]
    simp [dueOf, Event.stream?]
  constructor
  case taps => exact fun h => (hp.taps h).carry (hs h) (hf h)
  case stack => exact hst
  case due =>
    intro h status hd st hc
    have hold : (τ.machine.handle h).generation = (σ.machine.handle h).generation ∧
        ∀ st, Captured h (σ.machine.handle h).generation st log →
          ReadOut 1 h (σ.machine.handle h).generation st status log := by
      rcases hdue h status hd with hd₀ | hnew
      · refine ⟨?_, hp.due h status hd₀⟩
        cases hs h with
        | keeps hs he hdd => exact hs.generation
        | spawned hx₀ ho hnone => rw [hd₀] at hnone; cases hnone
        | closed hx₀ hnone => rw [hd₀] at hnone; cases hnone
        | reaped st hx₀ hnone => rw [hd₀] at hnone; cases hnone
        | told st hx₀ hd₁ hnone => rw [hd] at hnone; cases hnone
      · exact hnew
    rw [hold.1] at hc ⊢
    exact (hold.2 st (((hs h).captured (Nat.le_refl _)).1 hc)).append es
  case past =>
    intro h g status newer older hm
    rcases (hs h).announcement hm with ⟨rest, rfl, hlog⟩ | ⟨rfl, rfl, hd, rfl⟩
    · obtain ⟨hparted, hno⟩ := hp.past h g status rest older hlog
      refine ⟨hparted, fun p hborn => ?_⟩
      rcases List.mem_append.1 hborn with hborn | hborn
      · -- what has been told of a generation is told by it, or by an older one than the next
        have hage : g ∈ ages h log := List.mem_filterMap.2
          ⟨.emitted h g (.reaped status), by simp [hlog], if_pos rfl⟩
        have hle := (ha h).age g hage
        have hnew := (hs h).newborn hborn
        omega
      · exact hno p hborn
    · refine ⟨⟨hp.due h status hd, fun st => ?_, fun st hfail => ?_⟩, fun p => List.not_mem_nil⟩
      · rw [← hsaid h status hd st]
        exact (ha h).bytes _ st
      · rw [← hsaid h status hd st]
        exact (ha h).failed _ st hfail

/-! ## Runs -/

theorem Parting.level {D : List Duty} (hp : Parting ⟨s, D, d⟩ log) (ha : AllFaithful ⟨s, D, d⟩ log)
    (hl : Level s t) (he : ∀ e ∈ es, e.isLow = true) : Parting ⟨t, D, d⟩ (es ++ log) := by
  have hs := hl.shift he s d
  have hflow : ∀ h, Flow s 0 h (s.handle h) d es (t.handle h) d := hl.flow he s d
  refine hp.carry (τ := ⟨t, D, d⟩) ha hs hflow ?_ fun h status hd => .inl hd
  refine stack_shift hp.stack hs fun x _ hg => ?_
  rwa [hl.generation] at hg

theorem Parting.loud {news : List Entry} (hp : Parting σ log) (ha : AllFaithful σ log) (hf : Footing σ log)
    (hl : Loud o σ τ) (hj : τ.machine.journal = news ++ σ.machine.journal) : Parting τ (news ++ log) := by
  have hs := hl.shift hf hj
  have known : ∀ x ∈ σ.duties.flatMap Duty.reapings, x.g ≤ (σ.machine.handle x.h).generation := by
    intro x hx
    obtain ⟨newer, older, p, a, rfl, hb, -⟩ := hf.learned.reaping x hx
    exact (hp.taps x.h).born x.g p (by simp [hb.1])
  refine hp.carry ha hs (hl.flow hf hj) ?_ fun h status hd => ?_
  · exact stack_loud hf hl hj (stack_shift hp.stack hs fun x hx _ => known x hx)
  · rcases hl.due_exit hd with hd₀ | ⟨x, D, hD, rfl, rfl, hg, hrun⟩
    · exact .inl hd₀
    · refine .inr ⟨?_, fun st hc => ?_⟩
      · cases hs x.h with
        | keeps hs he hdd => exact hs.generation
        | spawned hx₀ ho hnone hd' => rw [hd] at hd'; cases hd'
        | closed hx₀ hnone hd' => rw [hd] at hd'; cases hd'
        | reaped st hx₀ hnone hd' he hx hy => rw [hy]
        | told st hx₀ hd₁ hnone => rw [hd] at hnone; cases hnone
      · have hst := hp.stack
        rw [hD] at hst
        rcases hst.1 x [] rfl st List.not_mem_nil with hdone | habove
        · rw [hg] at hc ⊢
          exact hdone hg hrun hc
        · cases habove

theorem parting_initial (hi : Initial s) : Parting s.stage [] := by
  have hhandle : ∀ h, (s.handle h).life = Handle.fresh.life := by
    intro h
    cases hi with
    | fresh config tick environ kernel logging => rfl
    | forRun outer spec => cases h <;> rfl
  have hnone : ∀ h g st, ¬ Captured h g st [] := by
    intro h g st hc
    obtain ⟨p, hp⟩ := hc.spawned
    cases hp
  constructor
  case taps =>
    intro h
    refine ⟨fun g p hm => absurd hm List.not_mem_nil, fun st p hp => ?_, fun _ st hc => absurd hc (hnone _ _ _),
      fun g st r hm => absurd hm List.not_mem_nil⟩
    have hp : (s.handle h).pipe st = some p := hp
    rw [pipe_of_life (hhandle h)] at hp
    cases st <;> cases hp
  case stack =>
    cases hi with
    | fresh config tick environ kernel logging => trivial
    | forRun outer spec => exact ⟨backed_of_ne (by simp), trivial⟩
  case due =>
    intro h status hd st hc
    exact absurd hc (hnone _ _ _)
  case past =>
    intro h g status newer older hm
    simp at hm

theorem parting_run {G : Machine → Prop} (hr : Run G s log) : AllFaithful s.stage log ∧ Parting s.stage log := by
  refine (run_stages (P := fun σ log => AllFaithful σ log ∧ Parting σ log)
    (fun s hi => ⟨faithful_initial hi, parting_initial hi⟩) ?_ ?_ ?_ hr).2
  · exact fun s t D d log es hl he hp => ⟨hp.1.level hl he, hp.2.level hp.1 hl he⟩
  · exact fun s D D' d log ht hp =>
      ⟨hp.1, hp.2.taps, stack_turn ht hp.2.taps hp.2.stack, hp.2.due, hp.2.past⟩
  · exact fun o σ τ log news hf hp hl hj => ⟨hp.1.loud hf hl hj, hp.2.loud hp.1 hf hl hj⟩

/-! ## Main theorem -/

/-- In every run, when an exit is announced, the captured streams of its child have been read out. -/
theorem last_words (hr : Run (fun _ => True) s log) (hsize : 0 < s.config.chunk) {newer older : List Entry}
    (hlog : log = newer ++ .emitted h g (.reaped status) :: older) :
    LastWords s.config.chunk h g status newer older log := by
  obtain ⟨hfaithful, hparting⟩ := parting_run hr
  obtain ⟨hparted, hno⟩ := hparting.past h g status newer older hlog
  have hx := hfaithful h
  have hread : ∀ st, Captured h g st older → ReadOut s.config.chunk h g st status older :=
    fun st hc => (hparted.readOut st hc).resize hsize
  have hsplit : log = (newer ++ [.emitted h g (.reaped status)]) ++ older := by simp [hlog]
  have hcaptured : ∀ st, Captured h g st log → Captured h g st older := by
    intro st hc
    rw [hsplit, Captured, opened_append fun p hm => ?_] at hc
    · exact hc
    · rcases List.mem_append.1 hm with hm | hm
      · exact hno p hm
      · simp at hm
  constructor
  case readOut => exact hread
  case told =>
    intro st written hc hfifo hfail
    rw [← hparted.told]
    exact hfifo.bytesRead_eq hsplit hfail (hread st hc)
  case silent =>
    intro st hwritten bytes hm
    have hevent : .chunk st bytes ∈ told h g st log :=
      mem_told rfl (by rw [hlog]; exact List.mem_append_left _ hm)
    have hnonempty : bytes ≠ [] := by
      rcases hx.chunk g st _ (List.mem_append_left _ hevent) with hfault | hsize
      · cases hfault
      · exact hsize.1
    have hlater : .chunk st bytes ∈ told h g st newer := mem_told rfl hm
    have htold : told h g st log = told h g st older ++ told h g st newer := by
      rw [hsplit, told_append, told_append]
      simp [told, Entry.told?, Event.stream?]
    by_cases hfail : Failed h g st older
    · -- a stream that has failed has said so, and then falls silent
      obtain ⟨e, he, hfault⟩ := hparted.failed st hfail
      obtain ⟨before, after, hsaid⟩ := List.append_of_mem he
      have hlast := hx.last g st before e
        (after ++ (told h g st newer ++
          if g = (s.stage.machine.handle h).generation then dueOf h st s.stage.due else []))
        (by rw [saying, htold, hsaid]; simp) hfault
      rw [List.append_eq_nil_iff, List.append_eq_nil_iff] at hlast
      rw [hlast.2.1] at hlater
      cases hlater
    · have hsame : bytesRead h g st log = bytesRead h g st older := by
        by_cases hc : Captured h g st older
        · obtain ⟨written, hfifo⟩ := hwritten hc
          have hall := hfifo.bytesRead_eq hsplit hfail (hread st hc)
          rw [hsplit, (hfifo.all_read [] _ hsplit hall).2, hall]
        · have hunread : ∀ r, .read h g st r ∉ log :=
            fun r hm => hc (hcaptured st ((hparting.taps h).read g st r hm))
          rw [bytesRead_of_unread hunread, bytesRead_of_unread fun r hm => hunread r ?_]
          rw [hsplit]
          exact List.mem_append_right _ hm
      have hbytes := hx.bytes g st
      rw [saying, htold, List.flatMap_append, List.flatMap_append, ← hparted.told, hsame,
        List.append_assoc] at hbytes
      have hnothing := List.self_eq_append_right.1 hbytes
      have hall := List.flatMap_eq_nil_iff.1 (List.append_eq_nil_iff.1 hnothing).1
      exact hnonempty (hall _ hlater)

/-- A read that brought an error. -/
def Entry.isBroken : Entry → Bool
  | .read _ _ _ (.error _) => true
  | _ => false

/-- A machine that has announced the exit of a child, which had written two bytes before. -/
def farewell : Machine × List Entry :=
  carry (carry (carry (carry (.fresh .standard 10000000 [] (.fresh true), [])
    (.spawn "a" (.ofArgs ["/bin/echo"]) ⟨.standard, []⟩ none) 1)
    (.event (.child 4001 (.emit .out [104, 105]))) 1)
    (.event (.child 4001 (.exit 768 []))) 1) (.iterate false) 25

theorem last_words_of_farewell : Run (fun _ => True) farewell.1 farewell.2 ∧ 0 < farewell.1.config.chunk ∧
    farewell.2 = farewell.2.take 1 ++ .emitted 0 1 (.reaped (.exited 3)) :: farewell.2.drop 2 ∧
    LastWords farewell.1.config.chunk 0 1 (.exited 3) (farewell.2.take 1) (farewell.2.drop 2) farewell.2 ∧
    (told 0 1 .out (farewell.2.drop 2)).flatMap Event.bytes = [104, 105] := by
  have hrun : Run (fun _ => True) farewell.1 farewell.2 :=
    Run.carry (Run.carry (Run.carry (Run.carry (Run.init (.fresh .standard 10000000 [] (.fresh true) true)) rfl
      fun _ _ => trivial) (by decide) fun _ _ => trivial) (by decide) fun _ _ => trivial) (by decide)
      fun _ _ => trivial
  have hlog : farewell.2 = farewell.2.take 1 ++ .emitted 0 1 (.reaped (.exited 3)) :: farewell.2.drop 2 := rfl
  have hwords := last_words hrun (by decide) hlog
  have hfifo : Fifo farewell.1.config.chunk 0 1 .out [104, 105] farewell.2 :=
    fifo_of_isDry (by decide) (by decide)
  have hfine : ¬ Failed 0 1 .out (farewell.2.drop 2) := by
    rintro ⟨e, hm, -⟩
    have hread : (farewell.2.drop 2).any Entry.isBroken = false := rfl
    exact absurd (List.any_eq_false.1 hread _ hm) (by simp [Entry.isBroken])
  exact ⟨hrun, by decide, hlog, hwords, hwords.told .out _ ⟨_, rfl, rfl⟩ hfifo hfine⟩

end Machine

end Overseer
