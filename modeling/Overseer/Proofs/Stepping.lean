import Overseer.Proofs.Deeds
import Overseer.Proofs.Opening

/-!
# Every step is a chain of deeds

One lemma stands for each function of the step.  A function is entered with a chain that has led to
its machine and to the duties that its control stands for, and the lemma carries the chain on to the
stage in which the step ends.

Main statement: `step_deeds`.
-/

namespace Overseer

open Supervisor
open Kernel (Stream)

namespace Machine

variable {o s : Machine} {σ : Stage} {D : List Duty}

/-! ## Passes -/

theorem pass_deeds (hc : Deeds o σ ⟨s, s.below, none⟩) (b : Bool) : Deeds o σ (s.pass b).stage := by
  have hattentive : Deeds o σ ⟨s.attentive, s.below, none⟩ :=
    hc.collect.retouch (Loop.alike_forgetFired _) (Loop.look_forgetFired _)
  have hasking : ∀ k answer, Deeds o σ ⟨s.asking b k answer, s.below, none⟩ := fun k answer =>
    (hattentive.kernel k).record (e := s.question b answer) rfl
  have hrecollected : ∀ k revents, Deeds o σ ⟨s.recollected b k revents, s.below, none⟩ := fun k revents =>
    ((hasking k (.ready revents)).retouch (Loop.alike_record _ _) (Loop.look_record _ _)).collect
  cases opening s b with
  | stalled hr ht h => rw [h]; exact hattentive.yield rfl rfl
  | failed k code hk h => rw [h]; exact (hasking k _).yield rfl (below_of_stack (loopOnly_asking s b k _).stack)
  | deadlock k hk h =>
    rw [h]
    exact (hasking k _).stopFromKernel.yield rfl (below_of_stack (loopOnly_asking s b k _).stopFromKernel.stack)
  | quiet k revents hk hids h =>
    rw [h]
    exact (hrecollected k revents).yield rfl (below_of_stack (loopOnly_recollected s b k revents).stack)
  | chosen k revents ids hk hne hids h =>
    rw [h]
    exact (hrecollected k revents).go (below_of_stack (loopOnly_recollected s b k revents).stack) rfl

theorem dispatch_deeds (hc : Deeds o σ ⟨s, s.below, none⟩) (ht : s.loop.Tidy) (rest : List Nat)
    (now : Nat) (ran : Bool) : Deeds o σ (s.dispatch rest now ran).stage := by
  have hear := hc.turn .hark
  unfold dispatch
  split
  · exact hc.yield rfl rfl
  · next id rest =>
    split
    · exact hc.go rfl rfl
    · next job loop htake =>
      rcases Loop.look_take ht htake with ⟨w, pid, fd, st, cb, hf, hsrc, rfl, rfl⟩ |
        ⟨honce, hpay, w, hmem, rfl, hn, hslot, hal, hlook⟩
      · obtain ⟨-, rfl⟩ := Loop.find?_spec hf
        have htaken := hear.stir (.taken s.kernel.now w pid fd st cb hf hsrc)
        exact (htaken.push (.dispatch rest now)).go (c := .invoke w.id cb (.child pid st)) rfl rfl
      · obtain ⟨cb, payload, once⟩ := job
        have hlent := hear.stir (.lent s.kernel.now w cb payload loop hmem hn hslot hpay hal hlook)
        have hsettle := (hlent.push (.dispatch rest now)).push (.settle w.id cb.next)
        obtain rfl : once = false := honce
        cases cb <;> exact hsettle.go rfl rfl

theorem settle_deeds {id : Nat} {cb : Callback} {again : Bool}
    (hc : Deeds o σ ⟨s, .verdict again :: .restore id cb :: s.below, none⟩) :
    Deeds o σ (s.settle id cb again).stage := by
  unfold settle
  dsimp only
  cases again with
  | true => exact (hc.stir (.restored s.kernel.now s.kernel.now id cb)).yield rfl rfl
  | false => exact (hc.stir (.ended s.kernel.now id cb)).yield rfl rfl

/-! ## Callbacks -/

theorem callScript_deeds (hc : Deeds o σ ⟨s, s.below, none⟩) (x : Script) :
    Deeds o σ (s.callScript x).stage := by
  unfold callScript
  split
  · exact hc.judge _ rfl
  · split
    · exact hc.judge _ rfl
    · exact (hc.push _).go rfl rfl

theorem actDone_deeds (hc : Deeds o σ ⟨s, s.below, none⟩) (tag : String) (rest : List Op)
    (again : Bool) (a : Answer) : Deeds o σ (s.actDone tag rest again a).stage := by
  have hact : Deeds o σ ⟨s.record (.acted tag a), s.below, none⟩ := hc.record rfl
  unfold actDone
  dsimp only
  split
  · exact hact.judge _ rfl
  · exact (hact.push _).go rfl rfl

/-- A reap that is called goes on with the streams, unless the handle has had another child since. -/
theorem invoke_deeds {id : Nat} {cb : Callback} {payload : Loop.Payload}
    (hc : Deeds o σ ⟨s, cb.duties id payload ++ s.below, none⟩) :
    Deeds o σ (s.invoke id cb payload).stage := by
  unfold invoke
  cases cb with
  | script x => exact callScript_deeds (s := s.record _) (hc.record rfl) x
  | stream h st g => exact hc.go rfl rfl
  | raise => exact (hc.stir (.rung id)).go (c := .value (.again false)) rfl rfl
  | detached =>
    dsimp only
    split
    · exact (hc.note _).judge _ (below_of_stack (by simp))
    · exact hc.judge _ rfl
  | reap h g =>
    cases payload with
    | child pid st =>
      dsimp only
      split
      · next hg =>
        have hshed := hc.turn (.shed ⟨h, g, pid, st⟩ [.out, .err] fun hlive => hg hlive.2)
        exact (hshed.note _).judge _ (below_of_stack (by simp))
      · have hnext := hc.turn (.next ⟨h, g, pid, st⟩ .out [.err])
        exact (hnext.push (.reapOut h g pid st)).go rfl rfl
    | none => exact hc.judge _ rfl
    | io c => exact hc.judge _ rfl

/-- Both streams are drained: the handle takes the exit, unless it has had another child since or
does not run any more. -/
theorem finishReap_deeds {h g : Nat} {pid : Int} {st : ExitStatus}
    (hc : Deeds o σ ⟨s, .reap ⟨h, g, pid, st⟩ [] :: s.below, none⟩) (hs : SameChildren o s) :
    Deeds o σ (s.finishReap h g pid st).stage := by
  unfold finishReap
  dsimp only
  split
  · next hstale =>
    refine (hc.turn (.shed ⟨h, g, pid, st⟩ [] fun hlive => ?_)).judge _ rfl
    rcases hstale with hg | hrun
    · exact hg hlive.2
    · exact hrun hlive.1
  · next hlive =>
    push Not at hlive
    have hreap := hc.next (.reaped ⟨h, g, pid, st⟩ hlive.1 hlive.2 hs)
    exact (hreap.note _).go (below_of_stack (by simp)) rfl

/-! ## Streams and events -/

theorem drain_deeds {h : Nat} {st : Stream} {g : Nat}
    (hc : Deeds s σ ⟨s, .drain h st g :: s.below, none⟩) : Deeds s σ (s.drain h st g).stage := by
  unfold drain
  dsimp only
  split
  · next hg => exact (hc.turn (.passed (.inl hg))).go (c := .value (.again false)) rfl rfl
  · next hg =>
    obtain rfl : (s.handle h).generation = g := not_not.1 hg
    split
    · next hp => exact (hc.turn (.passed (.inr hp))).go (c := .value (.again false)) rfl rfl
    · next p hp =>
      generalize hrk : s.kernel.read p.pid st s.config.chunk = rk
      obtain ⟨r, k⟩ := rk
      have hk : r = (s.kernel.read p.pid st s.config.chunk).1 := by rw [hrk]
      have hsame : SameChildren s (s.withKernel k) := ⟨rfl, fun _ => rfl⟩
      have hread : ∀ {x y}, readEnds r = false → readLeaves h st (s.handle h).generation r = x →
          readSays st r = y → Deeds s σ
            ⟨(s.withKernel k).record (.read h (s.handle h).generation st r), x :: s.below, y.map (h, ·)⟩ := by
        rintro x y hr rfl rfl
        exact (hc.kernel k).next (.read (s := s.withKernel k) h st p r hp hr hk rfl hsame)
      have hend : ∀ n {y}, readEnds r = true → readSays st r = y → Deeds s σ
          ⟨(((s.withKernel k).record (.read h (s.handle h).generation st r)).note n).releaseStream h st,
            .verdict false :: s.below, y.map (h, ·)⟩ := by
        rintro n y hr rfl
        exact (hc.kernel k).next (.finished (s := s.withKernel k) h st p r n hp hr hk hsame)
      dsimp only
      split
      · exact (hend (.eof st) rfl rfl).go (c := .value (.again false)) (by simp [below, Control.duties]) rfl
      · next bytes hne =>
        have hne : bytes.isEmpty = false := by
          cases bytes with
          | nil => exact (hne rfl).elim
          | cons b bs => rfl
        have hsays : readSays st (.ok bytes) = some (.chunk st bytes) := by simp [readSays, hne]
        exact ((hread hne rfl hsays).push (.drained h st (s.handle h).generation)).go rfl rfl
      · next e =>
        split
        · next he =>
          have hsays : readSays st (.error e) = none := if_pos (.inl he)
          exact (hread (by simp [readEnds, he]) (if_pos he) hsays).go rfl rfl
        · next he =>
          split
          · next he' =>
            have hsays : readSays st (.error e) = none := if_pos (.inr he')
            exact (hread (by simp [readEnds, he']) (if_neg he) hsays).go (c := .value (.again true)) rfl rfl
          · next he' =>
            have hsays : readSays st (.error e) = some (.ioError st (.code e)) := by
              simp [readSays, he, he']
            have hfailed := hend (.readFailed st (.code e)) (by simp [readEnds, he, he']) hsays
            exact (hfailed.push .drainFailed).go (by simp [below, Control.duties, Frame.duties]) rfl

theorem emit_deeds {h : Nat} {e : Event} (hc : Deeds o σ ⟨s, s.below, some (h, e)⟩)
    (hs : SameChildren o s) :
    Deeds o σ (s.emit h e).stage := by
  unfold emit
  dsimp only
  split
  · refine Deeds.yield (hc.next (.emitted h e _ ?_ ?_ hs)) rfl rfl
    · exact fun _ => rfl
    · exact fun _ => rfl
  · refine Deeds.go (hc.next (.emitted h e _ ?_ ?_ hs)) rfl rfl
    · exact fun _ => rfl
    · exact fun _ => rfl

theorem deliver_deeds {h : Nat} (hc : Deeds o σ ⟨s, s.below, none⟩) :
    Deeds o σ (s.deliver h).stage := by
  unfold deliver
  dsimp only
  split
  · exact (hc.mapHandle h (by intro x; rfl) (by intro x; rfl)).yield rfl rfl
  · next e rest hbox =>
    have hcut : ∀ entry, (entry = .queued h e ∨ ∃ n, entry = .delivering h e n) →
        Deeds o σ ⟨(s.mapHandle h fun x => { x with outbox := rest }).record entry, s.below, none⟩ :=
      fun entry hentry => hc.next (.handed h e rest entry _ hbox hentry (fun _ => rfl) fun _ => rfl)
    split
    · exact Deeds.go ((hcut _ (.inl rfl)).mapHandle h (by intro x; rfl) (by intro x; rfl)) rfl rfl
    · exact Deeds.go ((hcut _ (.inr ⟨_, rfl⟩)).mapHandle h (by intro x; rfl) (by intro x; rfl)) rfl rfl

theorem tell_deeds (hc : Deeds o σ ⟨s, s.below, none⟩) (h : Nat) (e : Event)
    (done rest : List Subscriber) : Deeds o σ (s.tell h e done rest).stage := by
  unfold tell
  split
  · exact (hc.mapHandle h (by intro x; rfl) (by intro x; rfl)).go rfl rfl
  · have hadd : Deeds o σ ⟨{ s with captured := s.captured.add e }, s.below, none⟩ :=
      hc.calm (calm_of_eq rfl rfl rfl rfl rfl rfl rfl rfl)
    exact hadd.go rfl rfl
  · next x rest =>
    have htold := (hc.turn .hark).push (.told h e (done ++ [.script x.next]) rest)
    exact callScript_deeds (htold.record rfl) x

/-! ## Writing -/

theorem startWrite_deeds (hc : Deeds o σ ⟨s, s.below, none⟩) (w : Writing) :
    Deeds o σ (s.startWrite w).stage := by
  unfold startWrite
  split
  · exact hc.yield rfl rfl
  · exact hc.go rfl rfl

theorem write_deeds (hc : Deeds o σ ⟨s, s.below, none⟩) (w : Writing) (pid : Int) :
    Deeds o σ (s.write w pid).stage := by
  unfold write
  dsimp only
  split
  · exact hc.yield rfl rfl
  · have hwrote : ∀ k r, Deeds o σ
        ⟨(s.withKernel k).record (.wrote w.h (s.handle w.h).generation pid w.rest r), s.below, none⟩ :=
      fun k r => (hc.kernel k).record rfl
    split
    · exact (hwrote _ _).go rfl rfl
    · split
      · exact (hwrote _ _).go rfl rfl
      · split
        · exact Deeds.go ((hwrote _ _).engage Loop.Priority.normal (by simp) rfl) rfl rfl
        · exact ((hwrote _ _).note _).yield rfl (below_of_stack (by simp))

theorem awaitWritable_deeds {w : Writing} {watch : Nat}
    (hc : Deeds o σ ⟨s, .clear watch :: s.below, none⟩) :
    Deeds o σ (s.awaitWritable w watch).stage := by
  unfold awaitWritable
  split
  · next hraised =>
    have hexcused := hc.turn (.excused (by simpa [isRaised] using hraised))
    exact (hexcused.calm (calm_lower s watch)).go rfl rfl
  · split
    · exact hc.clear.yield rfl rfl
    · split
      · exact (hc.note _).clear.yield rfl (below_of_stack (by simp))
      · exact (hc.push (.writing w watch)).go rfl rfl

/-! ## Waiting and disposing -/

theorem wait_deeds (hc : Deeds o σ ⟨s, s.below, none⟩) (h timeout : Nat) :
    Deeds o σ (s.wait h timeout).stage := by
  unfold wait
  dsimp only
  split
  · exact hc.yield rfl rfl
  · exact (hc.addTimer timeout).go rfl rfl
  · exact hc.yield rfl rfl

theorem endWait_deeds {deadline : Nat} (hc : Deeds o σ ⟨s, .clear deadline :: s.below, none⟩)
    (r : Except WaitError ExitStatus) : Deeds o σ (s.endWait deadline r).stage :=
  (hc.clear.calm (calm_lower _ _)).yield rfl rfl

theorem awaitExit_deeds {h deadline : Nat} (hc : Deeds o σ ⟨s, .clear deadline :: s.below, none⟩) :
    Deeds o σ (s.awaitExit h deadline).stage := by
  unfold awaitExit
  dsimp only
  split
  · exact endWait_deeds hc _
  · split
    · exact endWait_deeds hc _
    · exact (hc.push (.waiting h deadline)).go rfl rfl
  · exact endWait_deeds hc _

/-- What closing and signalling rely on: the step has done nothing yet that changes a child, and the
reaps under way are those it has begun with. -/
structure Untouched (o s : Machine) : Prop where
  same : SameChildren o s
  lastId : s.loop.lastId = o.loop.lastId
  reapings : s.below.flatMap Duty.reapings = o.reapings

theorem Deeds.close_idle (hc : Deeds o σ ⟨s, s.below, none⟩) (hu : Untouched o s) {h : Nat}
    (hrun : (s.handle h).isRunning = false) : Deeds o σ ⟨s.close h, s.below, none⟩ :=
  hc.close (fun hst => by simp [Handle.isRunning, hst] at hrun) hu.same hu.lastId hu.reapings

/-- What runs is signalled and waited for, and what does not run is closed. -/
theorem dispose_deeds (hc : Deeds o σ ⟨s, s.below, none⟩) (hu : Untouched o s) {h : Nat}
    (ho : h ∈ o.signalling) : Deeds o σ (s.dispose h).stage := by
  unfold dispose
  split
  · dsimp only
    have hkill := hc.kill hu.same hu.reapings ho Signal.term
    split
    · exact (hkill.push (.grace h)).go (by simp [below, Control.duties, Frame.duties]) rfl
    · exact ((hkill.note _).push (.grace h)).go (by simp [below, Control.duties, Frame.duties]) rfl
  · next hrun =>
    exact (hc.close_idle hu (by simpa using hrun)).yield rfl (below_of_stack (by simp))

theorem graceOver_deeds (hc : Deeds o σ ⟨s, s.below, none⟩) (hu : Untouched o s) {h : Nat}
    (r : Except WaitError ExitStatus) (hok : ∀ st, r = .ok st → h ∈ o.closing)
    (herr : ∀ e, r = .error e → h ∈ o.signalling) : Deeds o σ (s.graceOver h r).stage := by
  unfold graceOver
  split
  · next st =>
    have hclose := hc.close (fun _ => hok st rfl) hu.same hu.lastId hu.reapings
    exact hclose.yield rfl (below_of_stack (by simp))
  · next e =>
    dsimp only
    split
    · have hkill := fun n => (hc.note n).kill (hu.same.trans (sameChildren_note s n)) hu.reapings
        (herr e rfl) Signal.kill
      split
      · exact ((hkill _).push (.killed h)).go (by simp [below, Control.duties, Frame.duties]) rfl
      · exact (((hkill _).note _).push (.killed h)).go (by simp [below, Control.duties, Frame.duties]) rfl
    · next hrun =>
      exact (hc.close_idle hu (by simpa using hrun)).yield rfl (below_of_stack (by simp))

/-! ## Isolated runs -/

theorem startRun_deeds (hc : Deeds o σ ⟨s, .commence :: s.below, none⟩) (hs : SameChildren o s)
    {spec : RunSpec} (ho : o.spawning? = some spec.command) (hk : s.kernel = o.kernel) :
    Deeds o σ (s.startRun spec).stage := by
  have hbegin : .commence ∈ Duty.commence :: s.below := List.mem_cons_self
  have hspawn := (hc.spawn (h := 0) hs (.inr ⟨rfl, hbegin⟩) ho hk spec.plan spec.execError).turn .begun
  unfold startRun
  dsimp only
  split
  · exact hspawn.yield rfl (below_of_stack (by simp))
  · split
    · exact hspawn.go (below_of_stack (by simp)) rfl
    · next payload _ =>
      have htimer := hspawn.addTimer spec.timeout
      refine Deeds.go ((htimer.push (.runWritten _ payload.length)).push (.writeDeadline _)) ?_ rfl
      exact (below_push_deadline _ rfl _).trans (congrArg _ (below_of_stack (by simp)))

theorem runWritten_deeds (hc : Deeds o σ ⟨s, s.below, none⟩) (run : Running) (total : Nat)
    (r : Except WriteError Nat) : Deeds o σ (s.runWritten run total r).stage := by
  have hgo : ∀ b, Deeds o σ (s.go (.finishInput run b)).stage := fun b => hc.go rfl rfl
  have htrouble : ∀ t b, Deeds o σ ((s.trouble t).go (.finishInput run b)).stage := by
    intro t b
    have hcalm : Deeds o σ ⟨s.trouble t, s.below, none⟩ :=
      hc.calm (calm_of_eq rfl rfl rfl rfl rfl rfl rfl rfl)
    exact hcalm.go rfl rfl
  have habort : ∀ e, Deeds o σ ((s.push (.runAborted run e)).go (.dispose 0)).stage :=
    fun e => (hc.push _).go rfl rfl
  unfold runWritten
  split
  · exact hgo _
  · exact hgo _
  · exact htrouble _ _
  · split
    · exact htrouble _ _
    · exact habort _
  · exact habort _

theorem finishInput_deeds (hc : Deeds o σ ⟨s, s.below, none⟩) (run : Running) (timedOut : Bool) :
    Deeds o σ (s.finishInput run timedOut).stage := by
  have hclose := hc.closeStdin 0
  unfold finishInput
  dsimp only
  split
  · exact hclose.go (below_of_stack (by simp)) rfl
  · exact (hclose.push (.runWaited run)).go (by simp [below, Control.duties, Frame.duties]) rfl

theorem finishWait_deeds (hc : Deeds o σ ⟨s, s.below, none⟩) (run : Running)
    (waited : Except WaitError ExitStatus) : Deeds o σ (s.finishWait run waited).stage := by
  unfold finishWait
  dsimp only
  split
  · exact ((hc.note _).push (.runDisposed run _)).go (c := .dispose 0)
      (by simp [below, Control.duties, Frame.duties]) rfl
  · exact (hc.push (.runDisposed run _)).go rfl rfl

/-! ## Operations -/

theorem reply_deeds (hc : Deeds o σ ⟨s, D, none⟩) (hD : s.below = D) (h : Nat) (a : Answer)
    (e : Option Execution) : Deeds o σ (s.reply h a e).stage :=
  hc.yield rfl hD

theorem onHandle_deeds (hc : Deeds o σ ⟨s, s.below, none⟩) (name : String) {c : Nat → Control}
    (hduties : ∀ h, (c h).duties = []) (hdue : ∀ h, (c h).due = none) :
    Deeds o σ (s.onHandle name c).stage := by
  unfold onHandle
  exact ((hc.resolve name).push _).go (by simp [below, hduties, Frame.duties]) (hdue _)

theorem answerFor_deeds (hc : Deeds o σ ⟨s, s.below, none⟩) (h : Nat) (a : Answer) :
    Deeds o σ (s.answerFor h a).stage := by
  unfold answerFor
  dsimp only
  split
  · exact ((hc.mapHandle h (by intro x; rfl) (by intro x; rfl)).push _).go rfl rfl
  · exact hc.yield rfl rfl

theorem withTag_deeds (hc : Deeds o σ ⟨s, s.below, none⟩) (tag : String) {f : Nat → Machine}
    (hf : ∀ id, id ∈ s.tags.map (·.2) → Deeds o σ (f id).stage) :
    Deeds o σ (s.withTag tag f).stage := by
  unfold withTag
  split
  · exact hc.yield rfl rfl
  · next id h => exact hf id (mem_of_look? h)

/-- A watch of the user is registered and put under its tag. -/
theorem bind_deeds (hc : Deeds o σ ⟨s, s.below, none⟩) (ho : o.registers = true)
    (hs : s.loop.lastId = o.loop.lastId) (name : String) (priority : Loop.Priority)
    {src : Loop.Source Callback} {x : Script} (hsrc : ∀ pid fd st cb, src ≠ .child pid fd st cb)
    (hcb : src.outline.slot = some (.script x)) :
    Deeds o σ (bind name (s.addWatch priority src)).stage :=
  (hc.stir (.registered name priority src x hsrc hcb ho hs)).yield rfl rfl

theorem untouched_resolve (s : Machine) (name : String)
    (hr : s.below.flatMap Duty.reapings = s.reapings) : Untouched s (s.resolve name).2 := by
  have hcalm := calm_resolve s name
  exact ⟨⟨hcalm.watches, hcalm.life⟩, hcalm.lastId, by rw [below_of_stack (stack_resolve s name), hr]⟩

theorem perform_deeds (hc : Deeds s σ ⟨s, s.below, none⟩)
    (hr : s.below.flatMap Duty.reapings = s.reapings) {op : Op} (ho : s.control = .perform op) :
    Deeds s σ (s.perform op).stage := by
  have hkernel : ∀ k a, Deeds s σ ((s.withKernel k).yieldAnswer a).stage :=
    fun k a => (hc.kernel k).yield rfl rfl
  have hres : ∀ name, Deeds s σ ⟨(s.resolve name).2, s.below, none⟩ := fun name => hc.resolve name
  have hun : ∀ name, Untouched s (s.resolve name).2 := fun name => untouched_resolve s name hr
  cases op with
  | idle priority x => exact bind_deeds hc (by rw [registers, ho]) rfl _ _ (by simp) rfl
  | timer interval priority x => exact bind_deeds hc (by rw [registers, ho]) rfl _ _ (by simp) rfl
  | io fd interest x => exact bind_deeds hc (by rw [registers, ho]) rfl _ _ (by simp) rfl
  | childWatch pid priority x =>
    exact Deeds.yield (hc.stir (.watched x.tag pid priority x ho rfl)) rfl rfl
  | remove tag =>
    exact withTag_deeds hc tag fun id hid => Deeds.yield (hc.stir (.dismissed id hid)) rfl rfl
  | contains tag => exact withTag_deeds hc tag fun id _ => hc.yield rfl rfl
  | idOf tag => exact withTag_deeds hc tag fun id _ => hc.yield rfl rfl
  | size => exact hc.yield rfl rfl
  | inspectLoop => exact hc.yield rfl rfl
  | inspectSupervisor => exact hc.yield rfl rfl
  | iterate block => exact (hc.push _).go rfl rfl
  | run => exact (hc.calm (calm_setQuit s false)).go rfl rfl
  | quit => exact hc.quit.yield rfl rfl
  | spawn name c plan execError =>
    have hcommand : s.spawning? = some c := by rw [spawning?, ho]
    have hsame : (s.resolve name).2.kernel = s.kernel := by
      unfold resolve
      split <;> rfl
    have hspawn := (hres name).spawn (hun name).same (.inl (mem_names_resolve s name)) hcommand hsame
      plan execError
    exact reply_deeds hspawn (below_of_stack (by simp)) _ _ _
  | write name data =>
    exact onHandle_deeds hc name (c := fun h => .startWrite ⟨h, data, 0, none⟩) (fun _ => rfl) fun _ => rfl
  | writeTimeout name data timeout =>
    have htimer := (hres name).addTimer timeout
    refine Deeds.go ((htimer.push (.reply _)).push (.writeDeadline _)) ?_ rfl
    exact (below_push_deadline _ rfl _).trans (congrArg _ (below_of_stack (by simp)))
  | closeStdin name =>
    exact reply_deeds ((hres name).closeStdin _) (below_of_stack (by simp)) _ _ _
  | close name =>
    have hclosing : (s.resolve name).1 ∈ s.closing := by simp [closing, ho]
    have hstack : (s.resolve name).2.below = s.below := below_of_stack (by simp)
    have hclose := (hres name).close (fun _ => hclosing) (hun name).same (hun name).lastId hr
    exact reply_deeds hclose (below_of_stack (by simp)) _ _ _
  | dispose name => exact onHandle_deeds hc name (c := .dispose) (fun _ => rfl) fun _ => rfl
  | wait name timeout =>
    exact onHandle_deeds hc name (c := fun h => .wait h timeout) (fun _ => rfl) fun _ => rfl
  | kill name sig =>
    have hsignalling : (s.resolve name).1 ∈ s.signalling := by simp [signalling, sends?, ho]
    exact reply_deeds ((hres name).kill (hun name).same hr hsignalling sig) (below_of_stack (by simp)) _ _ _
  | subscribe name x =>
    exact reply_deeds ((hres name).mapHandle _ (by intro x; rfl) (by intro x; rfl))
      (below_of_stack (by simp)) _ _ _
  | drain name =>
    exact reply_deeds ((hres name).mapHandle _ (by intro x; rfl) (by intro x; rfl))
      (below_of_stack (by simp)) _ _ _
  | isRunning name => exact reply_deeds (hres name) (below_of_stack (by simp)) _ _ _
  | command name => exact reply_deeds (hres name) (below_of_stack (by simp)) _ _ _
  | inspect name => exact reply_deeds (hres name) (below_of_stack (by simp)) _ _ _
  | drop name =>
    unfold perform
    dsimp only
    split
    · exact hc.yield rfl rfl
    · next h _ =>
      have hcut : Deeds s σ ⟨{ s with names := s.names.filter fun r => r.1 != name }, s.below, none⟩ :=
        hc.calm ⟨rfl, rfl, fun _ => rfl, fun _ => rfl, Nat.le_refl _,
          fun _ hm => .inl (List.mem_of_mem_filter hm), rfl, rfl, fun _ hid => hid, [], rfl, by simp⟩
      split
      · exact (hcut.mapHandle h (by intro x; rfl) (by intro x; rfl)).yield rfl rfl
      · exact Deeds.go (hcut.push (.answer (.flag true))) rfl rfl
  | event e => exact hkernel _ _
  | schedule time e => exact hkernel _ _
  | advance ns => exact hkernel _ _
  | consumed pid => exact hkernel _ _
  | isolated spec => exact hc.go rfl rfl

/-! ## Steps -/

theorem keepRunning_deeds (hc : Deeds o σ ⟨s, s.below, none⟩) : Deeds o σ s.keepRunning.stage := by
  unfold keepRunning
  split
  · exact (hc.calm (calm_setQuit s false)).yield rfl rfl
  · exact (hc.push _).go rfl rfl

theorem ranOn_deeds (hc : Deeds o σ ⟨s, s.below, none⟩) (p : Pass) : Deeds o σ (s.ranOn p).stage := by
  unfold ranOn
  split
  · exact (hc.calm (calm_setQuit s false)).yield rfl rfl
  · exact hc.go rfl rfl

/-- Whoever waits for a callback goes on, with or without its verdict. -/
theorem Deeds.heard {v : Value} (hc : Deeds o σ ⟨s, (Control.value v).duties ++ .hear :: D, none⟩) :
    Deeds o σ ⟨s, D, none⟩ := by
  cases v with
  | again b => exact (hc.turn (.heeded b rfl)).turn .heard
  | _ => exact hc.turn .heard

theorem Frame.reapings_duties (f : Frame) : f.duties.flatMap Duty.reapings = f.reapings := by
  cases f <;> rfl

theorem Frame.held_duties (f : Frame) : f.duties.flatMap Duty.held = f.held := by
  cases f <;> rfl

theorem reapings_below (s : Machine) :
    s.below.flatMap Duty.reapings = s.stack.flatMap Frame.reapings := by
  rw [below, List.flatMap_assoc]
  exact congrArg (fun g => s.stack.flatMap g) (funext Frame.reapings_duties)

theorem held_below (s : Machine) : s.below.flatMap Duty.held = s.stack.flatMap Frame.held := by
  rw [below, List.flatMap_assoc]
  exact congrArg (fun g => s.stack.flatMap g) (funext Frame.held_duties)

/-- A call that is waited for goes on when its value comes, and otherwise nothing has changed. -/
theorem resume_deeds {f : Frame} {rest : List Frame} {v : Value} (hv : s.control = .value v)
    (hs : s.stack = f :: rest) : Deeds s s.stage (resume { s with stack := rest } f v).stage := by
  have hpop : Deeds s s.stage ⟨{ s with stack := rest }, (Control.value v).duties ++
      (f.duties ++ Machine.below { s with stack := rest }), none⟩ := by
    have hstage : s.stage = ⟨s, (Control.value v).duties ++
        (f.duties ++ Machine.below { s with stack := rest }), none⟩ := by
      rw [stage, below, hv, hs]
      rfl
    rw [hstage]
    exact Deeds.calm .refl (calm_pop s rest)
  have hun : f.reapings = [] → Untouched s { s with stack := rest } := by
    intro hr
    refine ⟨⟨rfl, fun _ => rfl⟩, rfl, ?_⟩
    rw [reapings_below, Machine.reapings, hv, hs, List.flatMap_cons, hr]
    rfl
  unfold resume
  split
  · exact actDone_deeds hpop _ _ _ _
  · exact settle_deeds hpop
  · exact hpop.heard.go rfl rfl
  · exact hpop.yield rfl rfl
  · exact ranOn_deeds hpop _
  · exact hpop.go rfl rfl
  · exact hpop.go (c := .value (.again false)) rfl rfl
  · next h g pid st b =>
    have hnext := (hpop.turn (.heeded b rfl)).turn (.next ⟨h, g, pid, st⟩ .err [])
    exact (hnext.push (.reapErr h g pid st)).go rfl rfl
  · next h g pid st b => exact finishReap_deeds (hpop.turn (.heeded b rfl)) ⟨rfl, fun _ => rfl⟩
  · exact hpop.heard.go rfl rfl
  · exact hpop.go rfl rfl
  · next deadline r =>
    have hclear : Deeds s s.stage ⟨Machine.removeWatch { s with stack := rest } deadline, _, none⟩ :=
      Deeds.clear hpop
    exact (hclear.calm (calm_lower _ deadline)).yield rfl rfl
  · exact hpop.go rfl rfl
  · next h r =>
    refine graceOver_deeds hpop (hun rfl) r (fun st hr => ?_) (fun e hr => ?_)
    · rw [closing, hv, hs, hr]
      exact List.mem_cons_self
    · rw [signalling, sends?, hv, hs, hr]
      exact List.mem_cons_self
  · next h r =>
    have hu := hun rfl
    have hclosing : h ∈ s.closing := by
      rw [closing, hv, hs]
      cases r <;> exact List.mem_cons_self
    exact (Deeds.close hpop (fun _ => hclosing) hu.same hu.lastId hu.reapings).yield rfl
      (below_of_stack (by simp))
  · exact answerFor_deeds hpop _ _
  · exact answerFor_deeds hpop _ _
  · exact answerFor_deeds hpop _ _
  · exact hpop.yield rfl rfl
  · exact runWritten_deeds hpop _ _ _
  · exact hpop.yield rfl rfl
  · exact finishWait_deeds hpop _ _
  · exact hpop.yield rfl rfl
  · have hback : Machine.push { s with stack := rest } f = s := by
      show ({ s with stack := f :: rest } : Machine) = s
      rw [← hs]
    rw [hback]

/-- A step is a chain of deeds from one stage to the next. -/
theorem step_deeds (s : Machine) (ht : s.loop.Tidy) : Deeds s s.stage s.step.stage := by
  have hstart : ∀ c, s.control = c → Deeds s s.stage ⟨s, c.duties ++ s.below, c.due⟩ := by
    rintro c rfl
    exact .refl
  have hr : s.control.reapings = [] → s.below.flatMap Duty.reapings = s.reapings := by
    intro hnone
    rw [reapings_below, Machine.reapings, hnone]
    rfl
  unfold step
  split
  · next v hv =>
    split
    · exact .refl
    · next f rest hs => exact resume_deeds hv hs
  · next op ho => exact perform_deeds (hstart _ ho) (hr (by rw [ho]; rfl)) ho
  · next ho => exact pass_deeds (hstart _ ho) _
  · next ho => exact dispatch_deeds (hstart _ ho) ht _ _ _
  · next ho => exact invoke_deeds (hstart _ ho)
  · next ho => exact keepRunning_deeds (hstart _ ho)
  · next ho => exact drain_deeds (hstart _ ho)
  · next ho => exact emit_deeds (hstart _ ho) ⟨rfl, fun _ => rfl⟩
  · next ho => exact deliver_deeds (hstart _ ho)
  · next ho => exact tell_deeds (hstart _ ho) _ _ _ _
  · next ho => exact startWrite_deeds (hstart _ ho) _
  · next ho => exact write_deeds (hstart _ ho) _ _
  · next ho => exact awaitWritable_deeds (hstart _ ho)
  · next ho => exact wait_deeds (hstart _ ho) _ _
  · next ho => exact awaitExit_deeds (hstart _ ho)
  · next h ho =>
    refine dispose_deeds (hstart _ ho) ⟨⟨rfl, fun _ => rfl⟩, rfl, hr (by rw [ho]; rfl)⟩ ?_
    rw [signalling, sends?, ho]
    exact List.mem_cons_self
  · next ho =>
    refine startRun_deeds (hstart _ ho) ⟨rfl, fun _ => rfl⟩ ?_ rfl
    rw [spawning?, ho]
  · next ho => exact finishInput_deeds (hstart _ ho) _ _
  · next ho => exact finishWait_deeds (hstart _ ho) _ _
  · exact .refl

end Machine

end Overseer
