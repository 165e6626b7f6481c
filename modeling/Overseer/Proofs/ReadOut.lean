import Overseer.Proofs.HandleDeeds
import Overseer.Proofs.Output
import Overseer.Proofs.Stacks

/-!
# Streams that have been read out

A captured stream of a child is read out when its end or its failure was read, or, after waitpid had
told of the exit, that there is nothing more for now.  Pipes are first in, first out; where the child
alone has written to one, all that it wrote has been read by then.

    Taps h x log  =  the streams of the child of h are open and captured, or their end was read

Main statements: `Fifo.all_read`, `Taps.carry`.
-/

namespace Overseer

open Supervisor
open Kernel (Stream)
open Os (Failure)

namespace Supervisor

/-- After this answer of a read of so many bytes nothing follows: the stream has ended or failed.  A
read of no bytes says nothing about the end. -/
def isLast (size : Nat) : Except Int Bytes → Bool
  | .ok bytes => decide (0 < size) && bytes.isEmpty
  | .error e => e != Failure.interrupted && e != Failure.wouldBlock

/-- The end or failure of a stream was read, or, after waitpid had told of the exit `status`, that there
was nothing more for now. -/
def ReadOut (size h g : Nat) (st : Stream) (status : ExitStatus) (log : List Entry) : Prop :=
  (∃ r, .read h g st r ∈ log ∧ isLast size r = true) ∨
    ∃ newer older, log = newer ++ .read h g st (.error Failure.wouldBlock) :: older ∧
      Learnt h g status older

/-- The pipe of a stream is first in, first out, and the child is its only writer: reads return what
was written, in order, and nothing of it is left when they come to the end, or when they would block
after the child has died. -/
structure Fifo (size h g : Nat) (st : Stream) (written : Bytes) (log : List Entry) : Prop where
  order : bytesRead h g st log <+: written
  ended : 0 < size → ∀ newer older, log = newer ++ .read h g st (.ok []) :: older →
    bytesRead h g st older = written
  dry : ∀ newer older status, log = newer ++ .read h g st (.error Failure.wouldBlock) :: older →
    Learnt h g status older → bytesRead h g st older = written

variable {size h g : Nat} {st : Stream} {status : ExitStatus} {log : List Entry}

/-! ## Pipes -/

theorem ReadOut.append (hr : ReadOut size h g st status log) (es : List Entry) :
    ReadOut size h g st status (es ++ log) := by
  rcases hr with ⟨r, hm, hl⟩ | ⟨newer, older, rfl, hl⟩
  · exact .inl ⟨r, List.mem_append_right _ hm, hl⟩
  · exact .inr ⟨es ++ newer, older, by rw [List.append_assoc], hl⟩

theorem Captured.spawned (hc : Captured h g st log) : ∃ p, .spawned h g p ∈ log := by
  obtain ⟨e, ho, -⟩ := hc
  by_contra hno
  push Not at hno
  have hnone := Machine.opened_append hno []
  rw [List.append_nil, ho] at hnone
  cases hnone

theorem isLast_one (r : Except Int Bytes) : isLast 1 r = readEnds r := by
  cases r with
  | ok bytes => rfl
  | error e => rfl

theorem isLast_of_pos (hs : 0 < size) (r : Except Int Bytes) : isLast size r = isLast 1 r := by
  cases r with
  | ok bytes => simp [isLast, hs]
  | error e => rfl

theorem ReadOut.resize (hr : ReadOut 1 h g st status log) (hs : 0 < size) :
    ReadOut size h g st status log := by
  rcases hr with ⟨r, hm, hl⟩ | hr
  · exact .inl ⟨r, hm, (isLast_of_pos hs r).trans hl⟩
  · exact .inr hr

/-- Once all is read that was written, nothing more is read. -/
theorem Fifo.all_read {written : Bytes} {older : List Entry} (hf : Fifo size h g st written log)
    (newer between : List Entry) (hlog : log = newer ++ (between ++ older))
    (hall : bytesRead h g st older = written) :
    bytesRead h g st between = [] ∧ bytesRead h g st (between ++ older) = written := by
  have hle := hf.order.length_le
  rw [hlog, Machine.bytesRead_append, Machine.bytesRead_append, hall, List.length_append,
    List.length_append] at hle
  have hnil : bytesRead h g st between = [] := List.eq_nil_of_length_eq_zero (by omega)
  refine ⟨hnil, ?_⟩
  rw [Machine.bytesRead_append, hall, hnil, List.append_nil]

/-- Whether all that was written had been read wherever a read of a stream brought nothing. -/
def isDry (h g : Nat) (st : Stream) (written : Bytes) : List Entry → Bool
  | [] => true
  | .read i j st' r :: older =>
    (!(i == h && j == g && st' == st && answerBytes r == []) || bytesRead h g st older == written) &&
      isDry h g st written older
  | _ :: older => isDry h g st written older

theorem isDry_cons {written : Bytes} {e : Entry} (hd : isDry h g st written (e :: log) = true) :
    isDry h g st written log = true := by
  cases e with
  | read i j st' r => exact (Bool.and_eq_true_iff.1 hd).2
  | _ => exact hd

theorem fifo_of_isDry {written : Bytes} (ho : bytesRead h g st log <+: written)
    (hd : isDry h g st written log = true) : Fifo size h g st written log := by
  have hall : ∀ r, answerBytes r = [] → ∀ newer older, log = newer ++ .read h g st r :: older →
      bytesRead h g st older = written := by
    intro r hr newer older hlog
    subst hlog
    clear ho
    induction newer with
    | nil =>
      rw [List.nil_append, isDry] at hd
      simpa [hr] using (Bool.and_eq_true_iff.1 hd).1
    | cons e newer ih => exact ih (isDry_cons hd)
  exact ⟨ho, fun _ => hall (.ok []) rfl, fun newer older _ hlog _ => hall _ rfl newer older hlog⟩

/-- What was written has been read, when the stream was read out and has not failed. -/
theorem Fifo.bytesRead_eq {written : Bytes} {newer older : List Entry}
    (hf : Fifo size h g st written log) (hlog : log = newer ++ older) (hfail : ¬ Failed h g st older)
    (hr : ReadOut size h g st status older) : bytesRead h g st older = written := by
  rcases hr with ⟨r, hm, hl⟩ | ⟨between, before, hsplit, hlearnt⟩
  · cases r with
    | error e => exact absurd ⟨e, hm, hl⟩ hfail
    | ok bytes =>
      obtain ⟨hpos, hnil⟩ : 0 < size ∧ bytes = [] := by simpa [isLast] using hl
      subst hnil
      obtain ⟨between, before, hsplit⟩ := List.append_of_mem hm
      have hall := hf.ended hpos (newer ++ between) before (by rw [hlog, hsplit, List.append_assoc])
      have hread := (hf.all_read newer (between ++ [.read h g st (.ok [])]) (by rw [hlog, hsplit]; simp) hall).2
      rw [hsplit]
      simpa using hread
  · have hall := hf.dry (newer ++ between) before status (by rw [hlog, hsplit, List.append_assoc]) hlearnt
    have hread := (hf.all_read newer (between ++ [.read h g st (.error Failure.wouldBlock)])
      (by rw [hlog, hsplit]; simp) hall).2
    rw [hsplit]
    simpa using hread

end Supervisor

namespace Machine

/-- How the streams of a handle's child stand. -/
structure Taps (h : Nat) (x : Handle) (log : List Entry) : Prop where
  born : ∀ g p, .spawned h g p ∈ log → g ≤ x.generation
  captured : ∀ st p, x.pipe st = some p → Captured h x.generation st log
  shut : x.state = .running → ∀ st, Captured h x.generation st log → x.pipe st = none →
    ∃ r, .read h x.generation st r ∈ log ∧ isLast 1 r = true
  read : ∀ g st r, .read h g st r ∈ log → Captured h g st log

variable {o : Machine} {log es : List Entry} {h g : Nat} {x y : Handle} {d d' : Option (Nat × Event)}
  {st : Stream}

/-! ## Generations -/

/-- A child that a deed tells of has the next generation. -/
theorem Shift.newborn {p : Int} (hs : Shift o h x d es y d') (hm : .spawned h g p ∈ es) :
    g = x.generation + 1 ∧ y.generation = x.generation + 1 := by
  cases hs with
  | keeps hs he hd => exact absurd hm (births_eq_zero.1 he.births g p)
  | spawned hx₀ ho hd hd' hb hnew ha hx hy hg =>
    have hgen := hnew g p hm
    omega
  | closed hx₀ hd hd' he => exact absurd hm (births_eq_zero.1 he.births g p)
  | reaped st hx₀ hd hd' he =>
    subst he
    cases hm
  | told st hx₀ hd hd' he =>
    subst he
    simp at hm

theorem Shift.captured (hs : Shift o h x d es y d') (hg : g ≤ x.generation) :
    Captured h g st (es ++ log) ↔ Captured h g st log := by
  rw [Captured, Captured, opened_append fun p hm => by have := hs.newborn hm; omega]

/-- A handle that runs in an old generation ran before. -/
theorem Shift.back (hs : Shift o h x d es y d') (hg : g ≤ x.generation) (hy : y.generation = g)
    (hrun : y.state = .running) : x.generation = g ∧ x.state = .running := by
  cases hs with
  | keeps hs he hd => exact ⟨hs.generation.symm.trans hy, hs.state.symm.trans hrun⟩
  | spawned hx₀ ho hd hd' hb hnew ha hx hst hgen => omega
  | closed hx₀ hd hd' he hx hl =>
    have hstate : y.state = .closed := congrArg Life.state hl
    rw [hstate] at hrun
    cases hrun
  | reaped st hx₀ hd hd' he hx hl =>
    subst hl
    cases hrun
  | told st hx₀ hd hd' he hl =>
    exact ⟨(congrArg Life.generation hl).symm.trans hy, (congrArg Life.state hl).symm.trans hrun⟩

/-! ## Taps -/

theorem Taps.carry {chunk : Nat} (ht : Taps h x log) (hs : Shift o h x d es y d')
    (hf : Flow o chunk h x d es y d') : Taps h y (es ++ log) := by
  have hle : x.generation ≤ y.generation := by
    rcases hf.onward with ⟨hg, -⟩ | ⟨hg, -⟩ <;> omega
  have kept : ∀ g st, Captured h g st log → Captured h g st (es ++ log) := by
    intro g st hc
    obtain ⟨p, hp⟩ := hc.spawned
    exact (hs.captured (ht.born g p hp)).2 hc
  constructor
  case born =>
    intro g p hm
    rcases List.mem_append.1 hm with hm | hm
    · have := hs.newborn hm
      omega
    · exact Nat.le_trans (ht.born g p hm) hle
  case captured =>
    intro st p hp
    cases hf with
    | keeps hg hpipe =>
      rcases hpipe st with hst | ⟨hst, -⟩
      · rw [hg]
        exact kept _ st (ht.captured st p (hst.symm.trans hp))
      · rw [hst] at hp
        cases hp
    | spawned hg hpipe ho =>
      obtain ⟨e, ho, hmode⟩ := ho
      exact ⟨e, ho log, (hmode st).1 (by rw [hp]; rfl)⟩
    | read st' q r more hx₀ hx hk hlen hg hpipe =>
      rw [hpipe] at hp
      split at hp
      · cases hp
      · rw [hg]
        exact kept _ st (ht.captured st p hp)
    | put e hg hpipe =>
      rw [hg]
      exact kept _ st (ht.captured st p ((hpipe st).symm.trans hp))
    | handed e entry hg hpipe =>
      rw [hg]
      exact kept _ st (ht.captured st p ((hpipe st).symm.trans hp))
  case shut =>
    intro hrun st hc hnone
    have before : y.generation = x.generation → x.pipe st = none →
        ∃ r, .read h y.generation st r ∈ es ++ log ∧ isLast 1 r = true := by
      intro hg hx
      rw [hg] at hc ⊢
      have hback := hs.back (Nat.le_refl _) hg hrun
      obtain ⟨r, hm, hl⟩ := ht.shut hback.2 st ((hs.captured (Nat.le_refl _)).1 hc) hx
      exact ⟨r, List.mem_append_right _ hm, hl⟩
    cases hf with
    | keeps hg hpipe =>
      rcases hpipe st with hst | ⟨-, hstop⟩
      · exact before hg (hst.symm.trans hnone)
      · exact absurd hrun hstop
    | spawned hg hpipe ho =>
      obtain ⟨e, ho, hmode⟩ := ho
      obtain ⟨e', ho', hm'⟩ := hc
      rw [ho log] at ho'
      cases ho'
      have hsome := (hmode st).2 hm'
      rw [hnone] at hsome
      cases hsome
    | read st' q r more hx₀ hx hk hlen hg hpipe hb he =>
      rw [hpipe] at hnone
      split at hnone
      · next hends =>
        obtain ⟨hends, rfl⟩ := hends
        refine ⟨r, List.mem_append_left _ ?_, (isLast_one r).trans hends⟩
        rw [he, hg]
        exact List.mem_append_right _ List.mem_cons_self
      · exact before hg hnone
    | put e hg hpipe => exact before hg ((hpipe st).symm.trans hnone)
    | handed e entry hg hpipe => exact before hg ((hpipe st).symm.trans hnone)
  case read =>
    intro g st r hm
    rcases List.mem_append.1 hm with hm | hm
    · obtain ⟨-, rfl, p, hp, -⟩ := hf.reads hm
      exact kept _ st (ht.captured st p hp)
    · exact kept g st (ht.read g st r hm)

end Machine

end Overseer
