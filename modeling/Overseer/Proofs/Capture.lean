import Overseer.Proofs.Calls
import Overseer.Proofs.Origins
import Overseer.Proofs.SilentChanges

/-!
# How an isolated run hears its child

The loop of an isolated run has no scripts: what it calls is the supervisor itself, and whom it tells is
the collector.  So what is read of the child reaches the collector before anything else is done.

    emit e           the event e has been read
    deliver          the event is in the outbox
    tell e [] …      the collector is about to be told
    otherwise        nothing is in hand, and the captures are all that has been read

Inner steps are those of a pass: the frames of callbacks under way are put upon the stack, and taken up.

Main statement: `inner_step`.
-/

namespace Overseer

open Supervisor
open Kernel (Stream)
open Os (Failure)

namespace Supervisor

/-- The frames of callbacks that are no scripts. -/
def Frame.isInner : Frame → Bool
  | dispatch .. => true
  | settle _ cb => !cb.isScript
  | drained .. => true
  | drainFailed => true
  | reapOut .. => true
  | reapErr .. => true
  | _ => false

/-- What a pass whose callbacks are no scripts goes on with; events are those of the first handle. -/
def Control.isInner : Control → Bool
  | dispatch .. => true
  | invoke _ cb _ => !cb.isScript
  | drain .. => true
  | emit h _ => h == 0
  | deliver h => h == 0
  | tell h _ _ _ => h == 0
  | value (.again _) => true
  | value .unit => true
  | value (.passed _) => true
  | _ => false

/-- A pass is about to begin, or under way. -/
def Control.isPumping : Control → Bool
  | pass _ => true
  | c => c.isInner

/-- No event is on its way. -/
def Control.isQuiet : Control → Bool
  | emit .. => false
  | deliver _ => false
  | tell .. => false
  | _ => true

/-- The events that the collector has still to be told, the oldest first. -/
def Control.inHand (x : Handle) : Control → List Event
  | emit _ e => x.outbox ++ [e]
  | tell _ e [] _ => e :: x.outbox
  | _ => x.outbox

/-- How the handle is set up for its one subscriber. -/
def Control.Posture (x : Handle) : Control → Prop
  | deliver _ => x.emitting = true ∧ x.subscribers = [.collector]
  | tell _ _ done rest => x.emitting = true ∧ x.subscribers = [] ∧
      ((done = [] ∧ rest = [.collector]) ∨ (done = [.collector] ∧ rest = []))
  | _ => x.voice = ([], false, [.collector])

end Supervisor

/-- No script of the user is registered. -/
def Loop.ScriptFree (l : Loop Callback) : Prop :=
  ∀ w ∈ l.watches, ∀ cb, w.source.outline.slot = some cb → cb.isScript = false

namespace Machine

/-- The captures are all that was read of the first child. -/
structure Heard (total : Run.Captured) (log : List Entry) : Prop where
  out : total.out = bytesRead 0 1 .out log
  err : total.err = bytesRead 0 1 .err log
  faults : ∀ st, (∃ e, .stream st e ∈ total.troubles) ↔ Failed 0 1 st log
  reads : ∀ h g st r, .read h g st r ∈ log → h = 0 ∧ g = 1

/-- What was read is captured, or it is on its way to the collector. -/
structure Delivery (c : Control) (x : Handle) (cap : Run.Captured) (log : List Entry) : Prop where
  posture : c.Posture x
  heard : Heard ((c.inHand x).foldl Run.Captured.add cap) log

/-- What an inner step upon the frames `K` does: the child may be reaped, and what was read is still captured
or on its way. -/
structure Inward (K : List Frame) (s t : Machine) (log : List Entry) : Prop where
  delivery : ∃ es, t.journal = es ++ s.journal ∧ Delivery t.control (t.handle 0) t.captured (es ++ log)
  size : t.handles.length = s.handles.length
  stance : (t.handle 0).stance = (s.handle 0).stance ∨ ((s.handle 0).state = .running ∧
    ∃ st, (t.handle 0).stance = (.reaped, (s.handle 0).generation, some st))
  troubles : ∀ n total, .undelivered n total ∈ t.captured.troubles → .undelivered n total ∈ s.captured.troubles
  control : t.control.isInner = true
  stack : ∃ B, t.stack = B ++ K ∧ ∀ f ∈ B, f.isInner = true

variable {s t : Machine} {c : Control} {x : Handle} {e : Event} {cap total : Run.Captured} {log es : List Entry}

/-! ## What was heard -/

theorem Heard.hush (hh : Heard total log) (he : ∀ e ∈ es, e.isRead = false) : Heard total (es ++ log) := by
  have hno : ∀ h g st r, .read h g st r ∉ es := fun h g st r hm => by cases he _ hm
  have hbytes : ∀ st, bytesRead 0 1 st (es ++ log) = bytesRead 0 1 st log := by
    intro st
    rw [bytesRead_append, bytesRead_of_unread fun r => hno 0 1 st r, List.append_nil]
  have hfailed : ∀ st, Failed 0 1 st (es ++ log) ↔ Failed 0 1 st log := by
    intro st
    refine exists_congr fun e => and_congr_left fun _ => ⟨fun hm => ?_, List.mem_append_right _⟩
    exact (List.mem_append.1 hm).resolve_left (hno 0 1 st _)
  refine ⟨by rw [hbytes, hh.out], by rw [hbytes, hh.err], fun st => by rw [hfailed, hh.faults],
    fun h g st r hm => ?_⟩
  exact hh.reads h g st r ((List.mem_append.1 hm).resolve_left (hno h g st r))

theorem bytesRead_cons_read (st st' : Stream) (r : Except Int Bytes) (log : List Entry) :
    bytesRead 0 1 st' (.read 0 1 st r :: log) =
      bytesRead 0 1 st' log ++ if st = st' then answerBytes r else [] := by
  have hone : bytesRead 0 1 st' [.read 0 1 st r] = if st = st' then answerBytes r else [] := by
    simp [bytesRead, Entry.bytesRead]
  rw [← hone]
  exact bytesRead_append 0 1 st' [_] log

theorem failed_cons_read (st st' : Stream) (r : Except Int Bytes) (log : List Entry) :
    Failed 0 1 st' (.read 0 1 st r :: log) ↔
      Failed 0 1 st' log ∨ (st' = st ∧ ∃ e, r = .error e ∧ readEnds (.error e) = true) := by
  constructor
  · rintro ⟨e, hm, he⟩
    rcases List.mem_cons.1 hm with heq | hm
    · injection heq with _ _ hst hr
      exact .inr ⟨hst, e, hr.symm, he⟩
    · exact .inl ⟨e, hm, he⟩
  · rintro (⟨e, hm, he⟩ | ⟨rfl, e, rfl, he⟩)
    · exact ⟨e, List.mem_cons_of_mem _ hm, he⟩
    · exact ⟨e, List.mem_cons_self, he⟩

/-- What a read says is what the captures have grown by. -/
theorem Heard.read (hh : Heard total log) (st : Stream) (r : Except Int Bytes) :
    Heard ((readSays st r).toList.foldl Run.Captured.add total) (.read 0 1 st r :: log) := by
  have hreads : ∀ h g st' r', .read h g st' r' ∈ Entry.read 0 1 st r :: log → h = 0 ∧ g = 1 := by
    intro h g st' r' hm
    rcases List.mem_cons.1 hm with heq | hm
    · injection heq with hh hg
      exact ⟨hh, hg⟩
    · exact hh.reads h g st' r' hm
  cases r with
  | ok bytes =>
    have hfaults : ∀ st', Failed 0 1 st' (.read 0 1 st (.ok bytes) :: log) ↔ Failed 0 1 st' log := by
      intro st'
      rw [failed_cons_read]
      simp
    cases bytes with
    | nil =>
      refine ⟨?_, ?_, fun st' => (hh.faults st').trans (hfaults st').symm, hreads⟩
      · rw [bytesRead_cons_read]
        simpa [readSays, answerBytes] using hh.out
      · rw [bytesRead_cons_read]
        simpa [readSays, answerBytes] using hh.err
    | cons b bs =>
      have hword : (readSays st (.ok (b :: bs))).toList = [.chunk st (b :: bs)] := rfl
      rw [hword]
      refine ⟨?_, ?_, fun st' => ?_, hreads⟩
      · rw [bytesRead_cons_read, ← hh.out]
        cases st <;> simp [Run.Captured.add, answerBytes]
      · rw [bytesRead_cons_read, ← hh.err]
        cases st <;> simp [Run.Captured.add, answerBytes]
      · rw [hfaults, ← hh.faults]
        cases st <;> exact Iff.rfl
  | error e =>
    by_cases he : e = Failure.interrupted ∨ e = Failure.wouldBlock
    · have hword : (readSays st (.error e)).toList = [] := by simp [readSays, he]
      have hends : readEnds (.error e) = false := by
        rcases he with rfl | rfl <;> rfl
      rw [hword]
      refine ⟨?_, ?_, fun st' => ?_, hreads⟩
      · rw [bytesRead_cons_read]
        simpa [answerBytes] using hh.out
      · rw [bytesRead_cons_read]
        simpa [answerBytes] using hh.err
      · rw [failed_cons_read]
        simpa [hends] using hh.faults st'
    · have hword : (readSays st (.error e)).toList = [.ioError st (.code e)] := by simp [readSays, he]
      have hends : readEnds (.error e) = true := by
        obtain ⟨hi, hw⟩ := not_or.1 he
        simp [readEnds, hi, hw]
      rw [hword]
      refine ⟨?_, ?_, fun st' => ?_, hreads⟩
      · rw [bytesRead_cons_read]
        simpa [Run.Captured.add, answerBytes] using hh.out
      · rw [bytesRead_cons_read]
        simpa [Run.Captured.add, answerBytes] using hh.err
      · rw [failed_cons_read, ← hh.faults]
        simp [Run.Captured.add, hends, exists_or]

/-! ## Quiet controls -/

theorem posture_of_quiet (hq : c.isQuiet = true) : c.Posture x ↔ x.voice = ([], false, [.collector]) := by
  cases c <;> first | exact Iff.rfl | cases hq

theorem inHand_of_quiet (hq : c.isQuiet = true) : c.inHand x = x.outbox := by
  cases c <;> first | rfl | cases hq

theorem Delivery.voice (hd : Delivery c x cap log) (hq : c.isQuiet = true) : x.voice = ([], false, [.collector]) :=
  (posture_of_quiet hq).1 hd.posture

theorem Delivery.outbox (hd : Delivery c x cap log) (hq : c.isQuiet = true) : x.outbox = [] :=
  congrArg Prod.fst (hd.voice hq)

/-- With nothing in hand, the captures are all that was read. -/
theorem Delivery.all (hd : Delivery c x cap log) (hq : c.isQuiet = true) : Heard cap log := by
  have hrecollected := hd.heard
  rw [inHand_of_quiet hq, hd.outbox hq] at hrecollected
  exact hrecollected

theorem delivery_of_quiet (hq : c.isQuiet = true) (hv : x.voice = ([], false, [.collector])) (hh : Heard cap log) :
    Delivery c x cap log := by
  refine ⟨(posture_of_quiet hq).2 hv, ?_⟩
  have hout : x.outbox = [] := congrArg Prod.fst hv
  rw [inHand_of_quiet hq, hout]
  exact hh

/-- What is hush neither loses nor gains an event. -/
theorem Hush.delivery (hm : Hush s t) (hd : Delivery s.control (s.handle 0) s.captured log)
    (hq : s.control.isQuiet = true) (hq' : t.control.isQuiet = true) :
    ∃ es, t.journal = es ++ s.journal ∧ Delivery t.control (t.handle 0) t.captured (es ++ log) := by
  obtain ⟨es, hj, he⟩ := hm.journal
  refine ⟨es, hj, delivery_of_quiet hq' ((hm.voice 0).trans (hd.voice hq)) ?_⟩
  rw [hm.captured]
  exact (hd.all hq).hush he

theorem Mute.inward (hm : Mute s t) (hd : Delivery s.control (s.handle 0) s.captured log)
    (hq : s.control.isQuiet = true) (hq' : t.control.isQuiet = true) (hc : t.control.isInner = true)
    (hs : ∃ B, t.stack = B ++ s.stack ∧ ∀ f ∈ B, f.isInner = true) : Inward s.stack s t log :=
  ⟨hm.toHush.delivery hd hq hq', hm.size, .inl (hm.stance 0), fun _ _ h => by rwa [hm.captured] at h, hc, hs⟩

/-! ## Scripts -/

theorem step_scriptFree (hf : s.loop.ScriptFree) (ht : s.loop.Tidy) (hr : s.registers = false)
    (hs : ∀ id cb, .settle id cb ∈ s.stack → cb.isScript = false) : s.step.loop.ScriptFree := by
  have key : s.step.loop.Tidy ∧ s.step.loop.ScriptFree := by
    refine step_keeps (P := fun t => t.loop.Tidy ∧ t.loop.ScriptFree) ⟨ht, hf⟩
      fun u v he ⟨ht, hf⟩ => ⟨he.tidy ht, ?_⟩
    intro w' hw' cb hcb
    rcases he.origin ht hw' with ⟨-, cb', hcb', hwho⟩ | ⟨w, hw, hk⟩
    · cases hcb.symm.trans hcb'
      rcases hwho with ⟨-, hreg⟩ | ⟨hno, -⟩
      · rw [hr] at hreg
        cases hreg
      · exact hno
    · rcases hk.slot with hsame | hnone | ⟨cb', hlent, hslot⟩
      · exact hf w hw cb (hsame.symm.trans hcb)
      · rw [hnone] at hcb
        cases hcb
      · cases hcb.symm.trans hslot
        exact hs _ _ hlent
  exact key.2

theorem callback_of_take {l l' : Loop Callback} {id now : Nat} {job : Loop.Job Callback} (hf : l.ScriptFree)
    (h : l.take id now = some (job, l')) : job.callback.isScript = false := by
  unfold Loop.take at h
  split at h
  · cases h
  · next w hw =>
    have hmem := (Loop.find?_spec hw).1
    split at h
    · split at h
      all_goals first | (cases h; done) | skip
      all_goals
        next hs =>
        cases h
        exact hf w hmem _ (by rw [hs]; rfl)
    · cases h

/-! ## Inner steps -/

theorem pass_inward (hc : s.control.isQuiet = true) (hd : Delivery s.control (s.handle 0) s.captured log)
    (b : Bool) : Inward s.stack s (s.pass b) log := by
  have hattentive : Mute s s.attentive := ((Mute.refl s).collect).loop _
  have hasking : ∀ k answer, Mute s (s.asking b k answer) := fun k answer =>
    (hattentive.kernel k).record (show (s.question b answer).isRead = false from rfl)
  have hrecollected : ∀ k revents, Mute s (s.recollected b k revents) := fun k revents =>
    ((hasking k (.ready revents)).loop _).collect
  have hsame : ∃ B, (s.pass b).stack = B ++ s.stack ∧ ∀ f ∈ B, f.isInner = true :=
    ⟨[], stack_pass s b, by simp⟩
  cases opening s b with
  | stalled hr ht h => rw [h] at hsame ⊢; exact (hattentive.yield _).inward hd hc rfl rfl hsame
  | failed k code hk h => rw [h] at hsame ⊢; exact ((hasking k _).yield _).inward hd hc rfl rfl hsame
  | deadlock k hk h => rw [h] at hsame ⊢; exact ((hasking k _).stopFromKernel.yield _).inward hd hc rfl rfl hsame
  | quiet k revents hk hids h =>
    rw [h] at hsame ⊢; exact ((hrecollected k revents).yield _).inward hd hc rfl rfl hsame
  | chosen k revents ids hk hne hids h =>
    rw [h] at hsame ⊢; exact ((hrecollected k revents).go _).inward hd hc rfl rfl hsame

theorem dispatch_inward (hc : s.control.isQuiet = true) (hd : Delivery s.control (s.handle 0) s.captured log)
    (hf : s.loop.ScriptFree) (rest : List Nat) (now : Nat) (ran : Bool) :
    Inward s.stack s (s.dispatch rest now ran) log := by
  unfold dispatch
  split
  · exact ((Mute.refl s).yield _).inward hd hc rfl rfl ⟨[], rfl, by simp⟩
  · next id rest =>
    split
    · exact ((Mute.refl s).go _).inward hd hc rfl rfl ⟨[], rfl, by simp⟩
    · next job l htake =>
      have hno := callback_of_take hf htake
      have htaken : Mute s (Machine.record { s with loop := l } (.started s.kernel.now id job.payload)) :=
        ((Mute.refl s).loop l).record rfl
      have hinner : (Control.invoke id job.callback job.payload).isInner = true := by simp [Control.isInner, hno]
      dsimp only
      split
      · exact ((htaken.push _).go _).inward hd hc rfl hinner ⟨[.dispatch rest now], rfl, by simp [Frame.isInner]⟩
      · refine (((htaken.push _).push _).go _).inward hd hc rfl hinner
          ⟨[.settle id _, .dispatch rest now], rfl, ?_⟩
        intro f hm
        rcases List.mem_cons.1 hm with rfl | hm
        · cases hcb : job.callback <;> first | rfl | (rw [hcb] at hno; cases hno)
        · rw [List.mem_singleton.1 hm]
          rfl

theorem settle_inward (hc : s.control.isQuiet = true) (hd : Delivery s.control (s.handle 0) s.captured log) (id : Nat)
    (cb : Callback) (again : Bool) : Inward s.stack s (s.settle id cb again) log := by
  unfold settle
  dsimp only
  have hset := (Mute.refl s).record (show (Entry.settled s.kernel.now id again).isRead = false from rfl)
  split
  · exact ((hset.loop _).yield _).inward hd hc rfl rfl ⟨[], rfl, by simp⟩
  · exact ((hset.loop _).yield _).inward hd hc rfl rfl ⟨[], rfl, by simp⟩

theorem invoke_inward (hc : s.control.isQuiet = true) (hd : Delivery s.control (s.handle 0) s.captured log) (id : Nat)
    {cb : Callback} (hcb : cb.isScript = false) (payload : Loop.Payload) :
    Inward s.stack s (s.invoke id cb payload) log := by
  have hstay : ∃ B, s.stack = B ++ s.stack ∧ ∀ f ∈ B, f.isInner = true := ⟨[], rfl, by simp⟩
  have hnoted : ∀ n, ∃ B, ((s.note n).yield (.again false)).stack = B ++ s.stack ∧
    ∀ f ∈ B, f.isInner = true :=
    fun n => ⟨[], stack_note s n, by simp⟩
  unfold invoke
  cases cb with
  | script x => cases hcb
  | stream h st g => exact ((Mute.refl s).go _).inward hd hc rfl rfl hstay
  | raise =>
    have hrung : Mute s { s with raised := id :: s.raised } := mute_of_eq rfl rfl rfl
    exact (hrung.yield _).inward hd hc rfl rfl hstay
  | detached =>
    cases payload with
    | child pid st => exact (((Mute.refl s).note _).yield _).inward hd hc rfl rfl (hnoted _)
    | _ => exact ((Mute.refl s).yield _).inward hd hc rfl rfl hstay
  | reap h g =>
    cases payload with
    | child pid st =>
      dsimp only
      split
      · exact (((Mute.refl s).note _).yield _).inward hd hc rfl rfl (hnoted _)
      · exact (((Mute.refl s).push _).go _).inward hd hc rfl rfl
          ⟨[.reapOut h g pid st], rfl, by simp [Frame.isInner]⟩
    | _ => exact ((Mute.refl s).yield _).inward hd hc rfl rfl hstay

/-- What was read is captured, unless it has to be told of. -/
theorem inward_of_read (hc : s.control.isQuiet = true) (hd : Delivery s.control (s.handle 0) s.captured log)
    (st : Stream) (r : Except Int Bytes) (k : Kernel) (hm : Mute ((s.withKernel k).record (.read 0 1 st r)) t)
    (hsay : (readSays st r = none ∧ t.control.isQuiet = true) ∨
      ∃ e, readSays st r = some e ∧ t.control = .emit 0 e)
    (hin : t.control.isInner = true) (hs : ∃ B, t.stack = B ++ s.stack ∧ ∀ f ∈ B, f.isInner = true) :
    Inward s.stack s t log := by
  obtain ⟨more, hj, hmore⟩ := hm.journal
  have hrecollected := ((hd.all hc).read st r).hush hmore
  have hvoice : (t.handle 0).voice = ([], false, [.collector]) := (hm.voice 0).trans (hd.voice hc)
  have hout : (t.handle 0).outbox = [] := congrArg Prod.fst hvoice
  have hcap : t.captured = s.captured := hm.captured
  refine ⟨⟨more ++ [.read 0 1 st r], ?_, ?_⟩, hm.size, .inl (hm.stance 0),
    fun _ _ h => by rwa [hcap] at h, hin, hs⟩
  · rw [hj, List.append_assoc]
    rfl
  · rw [List.append_assoc, hcap]
    rcases hsay with ⟨hnone, hq⟩ | ⟨e, hsome, he⟩
    · rw [hnone] at hrecollected
      exact delivery_of_quiet hq hvoice hrecollected
    · rw [hsome] at hrecollected
      rw [he]
      refine ⟨hvoice, ?_⟩
      show Heard (((t.handle 0).outbox ++ [e]).foldl _ _) _
      rw [hout]
      exact hrecollected

theorem drain_inward (hc : s.control.isQuiet = true) (hd : Delivery s.control (s.handle 0) s.captured log)
    (hsize : s.handles.length = 1) (hgen : (s.handle 0).generation = 1) (h : Nat) (st : Stream) (g : Nat) :
    Inward s.stack s (s.drain h st g) log := by
  have hstay : ∃ B, s.stack = B ++ s.stack ∧ ∀ f ∈ B, f.isInner = true := ⟨[], rfl, by simp⟩
  unfold drain
  dsimp only
  split
  · exact ((Mute.refl s).yield _).inward hd hc rfl rfl hstay
  · next hg =>
    split
    · exact ((Mute.refl s).yield _).inward hd hc rfl rfl hstay
    · next p hp =>
      -- the only handle that has a pipe is the first one
      have hlt := lt_of_pipe hp
      obtain rfl : h = 0 := by omega
      obtain rfl : g = 1 := (not_not.1 hg).symm.trans hgen
      generalize hr : s.kernel.read p.pid st s.config.chunk = rk
      obtain ⟨r, k⟩ := rk
      have hfree : ∀ n, Mute ((s.withKernel k).record (.read 0 1 st r))
          ((((s.withKernel k).record (.read 0 1 st r)).note n).releaseStream 0 st) := fun n =>
        ((Mute.refl _).note n).releaseStream 0 st
      have hstack : ∀ n, ((((s.withKernel k).record (.read 0 1 st r)).note n).releaseStream 0 st).stack = s.stack :=
        fun n => (stack_releaseStream _ 0 st).trans (stack_note _ n)
      dsimp only
      cases r with
      | ok bytes =>
        cases bytes with
        | nil =>
          exact inward_of_read hc hd st _ k ((hfree _).yield _) (.inl ⟨rfl, rfl⟩) rfl ⟨[], hstack _, by simp⟩
        | cons b bs =>
          exact inward_of_read hc hd st _ k (((Mute.refl _).push _).go _) (.inr ⟨_, rfl, rfl⟩) rfl
            ⟨[.drained 0 st 1], rfl, by simp [Frame.isInner]⟩
      | error e =>
        dsimp only
        split
        · next he =>
          exact inward_of_read hc hd st _ k ((Mute.refl _).go _) (.inl ⟨by simp [readSays, he], rfl⟩) rfl hstay
        · next hi =>
          split
          · next he =>
            exact inward_of_read hc hd st _ k ((Mute.refl _).yield _) (.inl ⟨by simp [readSays, he], rfl⟩) rfl hstay
          · next hw =>
            exact inward_of_read hc hd st _ k (((hfree _).push _).go _) (.inr ⟨_, by simp [readSays, hi, hw], rfl⟩)
              rfl ⟨[.drainFailed], congrArg _ (hstack _), by simp [Frame.isInner]⟩

/-- Passing an event on changes the voice of the one handle and what is captured. -/
theorem inward_of_voice (es : List Entry) (hx : t.handle 0 = x) (hsize : t.handles.length = s.handles.length)
    (hx' : x.stance = (s.handle 0).stance) (hj : t.journal = es ++ s.journal)
    (hcap : ∀ n total, .undelivered n total ∈ t.captured.troubles → .undelivered n total ∈ s.captured.troubles)
    (hc : t.control.isInner = true) (hs : t.stack = s.stack) (hd : Delivery t.control x t.captured (es ++ log)) :
    Inward s.stack s t log := by
  subst hx
  exact ⟨⟨es, hj, hd⟩, hsize, .inl hx', hcap, hc, [], hs, by simp⟩

theorem emit_inward (hd : Delivery (.emit 0 e) (s.handle 0) s.captured log) (hsize : s.handles.length = 1) :
    Inward s.stack s (s.emit 0 e) log := by
  have hvoice : (s.handle 0).voice = ([], false, [.collector]) := hd.posture
  have hemitting : ¬(s.handle 0).emitting = true := by
    simp [show (s.handle 0).emitting = false from congrArg (·.2.1) hvoice]
  have hsubs : (s.handle 0).subscribers = [.collector] := congrArg (·.2.2) hvoice
  unfold emit
  dsimp only
  rw [if_neg hemitting]
  refine inward_of_voice [.emitted 0 (s.handle 0).generation e]
    (handle_mapHandle_self (s.record _) _ (hsize ▸ Nat.one_pos)) (List.length_modify _ _ _) rfl rfl
    (fun _ _ h => h) rfl
    rfl ⟨⟨rfl, hsubs⟩, hd.heard.hush (by simp [Entry.isRead])⟩

theorem deliver_inward (hd : Delivery (.deliver 0) (s.handle 0) s.captured log) (hsize : s.handles.length = 1) :
    Inward s.stack s (s.deliver 0) log := by
  obtain ⟨hemitting, hsubs⟩ := hd.posture
  have hlt : 0 < s.handles.length := hsize ▸ Nat.one_pos
  have hrecollected : Heard ((s.handle 0).outbox.foldl Run.Captured.add s.captured) log := hd.heard
  unfold deliver
  dsimp only
  split
  · next hbox =>
    rw [hbox] at hrecollected
    refine inward_of_voice [] (handle_mapHandle_self s _ hlt) (List.length_modify _ _ _) rfl rfl (fun _ _ h => h)
      rfl rfl (delivery_of_quiet rfl ?_ hrecollected)
    simp [Handle.voice, hbox, hsubs]
  · next e rest hbox =>
    rw [hbox] at hrecollected
    rw [hsubs]
    dsimp only
    generalize hcut : (s.mapHandle 0 fun x => { x with outbox := rest }) = u
    have hself : u.handle 0 = { s.handle 0 with outbox := rest } := hcut ▸ handle_mapHandle_self s _ hlt
    have hsize' : u.handles.length = s.handles.length := hcut ▸ List.length_modify _ _ _
    have hjournal : u.journal = s.journal := hcut ▸ rfl
    have hcaptured : u.captured = s.captured := hcut ▸ rfl
    have hstack : u.stack = s.stack := hcut ▸ rfl
    refine inward_of_voice [.delivering 0 e 1] (handle_mapHandle_self (u.record _) _ (hsize'.symm ▸ hlt))
      ((List.length_modify _ _ _).trans hsize') ?_ (congrArg _ hjournal) (fun _ _ h => hcaptured ▸ h) rfl hstack
      ⟨⟨?_, rfl, .inl ⟨rfl, rfl⟩⟩, ?_⟩
    · show (u.handle 0).stance = _
      rw [hself]
      rfl
    · exact (congrArg Handle.emitting hself).trans hemitting
    · show Heard ((e :: (u.handle 0).outbox).foldl Run.Captured.add u.captured) ([.delivering 0 e 1] ++ log)
      rw [hself, hcaptured]
      exact hrecollected.hush (by simp [Entry.isRead])

theorem undelivered_of_add {n total : Nat} {cap : Run.Captured}
    (h : .undelivered n total ∈ (cap.add e).troubles) : .undelivered n total ∈ cap.troubles := by
  cases e with
  | chunk st b => cases st <;> exact h
  | reaped st => exact h
  | ioError st e => simpa [Run.Captured.add] using h

theorem tell_inward {done rest : List Subscriber} (hd : Delivery (.tell 0 e done rest) (s.handle 0) s.captured log)
    (hsize : s.handles.length = 1) : Inward s.stack s (s.tell 0 e done rest) log := by
  obtain ⟨hemitting, hsubs, ⟨rfl, rfl⟩ | ⟨rfl, rfl⟩⟩ := hd.posture
  · exact inward_of_voice [] rfl rfl rfl rfl (fun _ _ h => undelivered_of_add h) rfl rfl
      ⟨⟨hemitting, hsubs, .inr ⟨rfl, rfl⟩⟩, hd.heard⟩
  · have hlt : 0 < s.handles.length := hsize ▸ Nat.one_pos
    refine inward_of_voice [] (handle_mapHandle_self s _ hlt) (List.length_modify _ _ _) rfl rfl
      (fun _ _ h => h) rfl rfl ⟨⟨hemitting, ?_⟩, hd.heard⟩
    show [.collector] ++ (s.handle 0).subscribers = _
    rw [hsubs]
    rfl

/-- A child is reaped only while its handle runs. -/
theorem finishReap_inward (hc : s.control.isQuiet = true) (hd : Delivery s.control (s.handle 0) s.captured log)
    (hsize : s.handles.length = 1) (h g : Nat) (pid : Int) (st : ExitStatus) :
    Inward s.stack s (s.finishReap h g pid st) log := by
  have hstay : ∃ B, s.stack = B ++ s.stack ∧ ∀ f ∈ B, f.isInner = true := ⟨[], rfl, by simp⟩
  unfold finishReap
  dsimp only
  split
  · exact ((Mute.refl s).yield _).inward hd hc rfl rfl hstay
  · next hlive =>
    push Not at hlive
    have hlt : h < s.handles.length := lt_of_ne_fresh fun hfresh => by
      rw [hfresh] at hlive
      cases hlive.2
    obtain rfl : h = 0 := by omega
    generalize hreap : (s.mapHandle 0 fun x => { x with state := .reaped, status := some st, childWatch := none }) = u
    have hself : u.handle 0 = { s.handle 0 with state := .reaped, status := some st, childWatch := none } :=
      hreap ▸ handle_mapHandle_self s _ hlt
    have hmute : Mute u ((u.note (.reaped pid st)).go (.emit 0 (.reaped st))) := ((Mute.refl u).note _).go _
    have hhush : Hush s ((u.note (.reaped pid st)).go (.emit 0 (.reaped st))) := by
      refine (hreap ▸ hush_mapHandle s 0 ?_ : Hush s u).mute hmute
      exact fun _ => rfl
    obtain ⟨es, hj, hes⟩ := hhush.journal
    have hvoice := (hhush.voice 0).trans (hd.voice hc)
    have hout : (((u.note (.reaped pid st)).go (.emit 0 (.reaped st))).handle 0).outbox = [] :=
      congrArg Prod.fst hvoice
    refine ⟨⟨es, hj, hvoice, ?_⟩, hhush.size, .inr ⟨hlive.2, st, ?_⟩,
      fun _ _ h => hhush.captured ▸ h, rfl, [], ?_, by simp⟩
    · show Heard (((Machine.handle _ 0).outbox ++ [Event.reaped st]).foldl _ _) _
      rw [hout, hhush.captured]
      exact (hd.all hc).hush hes
    · rw [hmute.stance 0, hself]
      rfl
    · exact (stack_note u (.reaped pid st)).trans (hreap ▸ rfl)

/-! ## Steps -/

theorem Inward.above {A K : List Frame} (hi : Inward s.stack s t log) (hs : s.stack = A ++ K)
    (hA : ∀ f ∈ A, f.isInner = true) : Inward K s t log := by
  obtain ⟨B, hB, hinner⟩ := hi.stack
  refine ⟨hi.delivery, hi.size, hi.stance, hi.troubles, hi.control, B ++ A, by rw [hB, hs, List.append_assoc], ?_⟩
  intro f hm
  exact (List.mem_append.1 hm).elim (hinner f) (hA f)

/-- A frame that waits for a callback takes its value, or goes on waiting. -/
theorem resume_inward {f : Frame} {v : Value} (hv : s.control = .value v) (hc : s.control.isInner = true)
    (hf : f.isInner = true) (hd : Delivery s.control (s.handle 0) s.captured log) (hsize : s.handles.length = 1) :
    Inward s.stack s (s.resume f v) log := by
  have hq : s.control.isQuiet = true := by rw [hv]; rfl
  have hpush : Inward s.stack s (s.push f) log :=
    ((Mute.refl s).push f).inward hd hq hq hc ⟨[f], rfl, by simpa using hf⟩
  have hgo : ∀ c, c.isQuiet = true → c.isInner = true → Inward s.stack s (s.go c) log := fun c hq' hc' =>
    ((Mute.refl s).go c).inward hd hq hq' hc' ⟨[], rfl, by simp⟩
  unfold resume
  split
  all_goals first
    | exact hpush
    | (cases hf; done)
    | (rw [hv] at hc; cases hc; done)
    | skip
  · exact settle_inward hq hd _ _ _
  · exact hgo _ rfl rfl
  · exact hgo _ rfl rfl
  · exact hgo (.value (.again false)) rfl rfl
  · exact (((Mute.refl s).push _).go _).inward hd hq rfl rfl ⟨[_], rfl, by simp [Frame.isInner]⟩
  · exact finishReap_inward hq hd hsize _ _ _ _

/-- A step of a pass whose callbacks are no scripts, upon the frame that waits for the pass. -/
theorem inner_step {A K : List Frame} {wf : Frame} (hs : s.stack = A ++ wf :: K) (hA : ∀ f ∈ A, f.isInner = true)
    (hc : s.control.isPumping = true) (hd : Delivery s.control (s.handle 0) s.captured log)
    (hsize : s.handles.length = 1) (hgen : (s.handle 0).generation = 1) (hf : s.loop.ScriptFree)
    (hwf : ∀ (u : Machine) v, (∀ p, v ≠ .passed p) → u.resume wf v = u.push wf)
    (hnot : ∀ p, s.control = .value (.passed p) → A ≠ []) : Inward (wf :: K) s s.step log := by
  have habove : ∀ {t}, Inward s.stack s t log → Inward (wf :: K) s t log := fun hi => hi.above hs hA
  unfold step
  split
  all_goals first
    | (next hcon => rw [hcon] at hc; cases hc; done)
    | skip
  · next v hv =>
    have hq : s.control.isQuiet = true := by rw [hv]; rfl
    have hc : s.control.isInner = true := by rw [hv] at hc ⊢; exact hc
    cases A with
    | nil =>
      rw [hs]
      have hself : Machine.push { s with stack := K } wf = s := by
        show ({ s with stack := wf :: K } : Machine) = s
        rw [← List.nil_append (wf :: K), ← hs]
      have hstay : resume { s with stack := K } wf v = s :=
        (hwf _ v fun p hp => hnot p (hv.trans (congrArg _ hp)) rfl).trans hself
      show Inward (wf :: K) s (resume { s with stack := K } wf v) log
      rw [hstay]
      have hkeep : Inward s.stack s s log := (Mute.refl s).inward hd hq hq hc ⟨[], rfl, by simp⟩
      exact habove hkeep
    | cons f A =>
      rw [hs]
      have hpop := resume_inward (s := { s with stack := A ++ wf :: K }) (v := v) hv hc
        (hA f List.mem_cons_self) hd hsize
      have hup := hpop.above (A := A) (K := wf :: K) rfl fun g hg => hA g (List.mem_cons_of_mem _ hg)
      exact ⟨hup.delivery, hup.size, hup.stance, hup.troubles, hup.control, hup.stack⟩
  · next hcon => exact habove (pass_inward (by rw [hcon]; rfl) hd _)
  · next hcon => exact habove (dispatch_inward (by rw [hcon]; rfl) hd hf _ _ _)
  · next id cb payload hcon =>
    rw [hcon] at hc
    exact habove (invoke_inward (by rw [hcon]; rfl) hd id
      (by simpa [Control.isPumping, Control.isInner] using hc) payload)
  · next hcon => exact habove (drain_inward (by rw [hcon]; rfl) hd hsize hgen _ _ _)
  · next h e hcon =>
    rw [hcon] at hc hd
    obtain rfl : h = 0 := by simpa [Control.isPumping, Control.isInner] using hc
    exact habove (emit_inward hd hsize)
  · next h hcon =>
    rw [hcon] at hc hd
    obtain rfl : h = 0 := by simpa [Control.isPumping, Control.isInner] using hc
    exact habove (deliver_inward hd hsize)
  · next h e done rest hcon =>
    rw [hcon] at hc hd
    obtain rfl : h = 0 := by simpa [Control.isPumping, Control.isInner] using hc
    exact habove (tell_inward hd hsize)

end Machine

end Overseer
