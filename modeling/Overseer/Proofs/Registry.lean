import Overseer.Proofs.RegistryEdits

/-!
# What a step does to the registry

Each step is a chain of edits, one lemma for each kind of control and for each frame that is resumed.

Main statement: `step_edits`.
-/

namespace Overseer

open Supervisor
open Kernel (Stream)
open Relation (ReflTransGen)

namespace Machine

variable {o s t : Machine}

/-! ## Passes -/

theorem pass_edits (s : Machine) (b : Bool) (ho : o.control = .pass b) : Edits o s (s.pass b) := by
  have hsleeps : o.sleeps = true := by rw [sleeps, ho]
  have hattentive : Edits o s s.attentive := (ReflTransGen.single (.collected ⟨_, ho⟩)).tail (.forgot ⟨_, ho⟩)
  have hasking : ∀ k answer, s.polls b = (answer, k) → Edits o s (s.asking b k answer) := by
    intro k answer hk
    have hnow : s.attentive.kernel.now ≤ k.now := by
      have hpoll := Kernel.now_le_poll s.collect.kernel (s.collect.loop.requests.map Prod.snd)
        ((s.collect.loop.timeout b s.collect.kernel.now).map Loop.timeoutMs)
      rw [polls] at hk
      rwa [hk] at hpoll
    exact Edits.record (hattentive.tail (.slept k hsleeps hnow)) (show (s.question b answer).isApart = true from rfl)
  have hrecollected : ∀ k revents, s.polls b = (.ready revents, k) → Edits o s (s.recollected b k revents) :=
    fun k revents hk => ((hasking k _ hk).tail (.reported _ ⟨_, ho⟩)).tail (.collected ⟨_, ho⟩)
  cases opening s b with
  | stalled hr ht h => rw [h]; exact hattentive.yield _
  | failed k code hk h => rw [h]; exact (hasking k _ hk).yield _
  | deadlock k hk h => rw [h]; exact ((hasking k _ hk).aside (apart_stopFromKernel _)).yield _
  | quiet k revents hk hids h => rw [h]; exact (hrecollected k revents hk).yield _
  | chosen k revents ids hk hne hids h => rw [h]; exact (hrecollected k revents hk).go _

theorem dispatch_edits (rest : List Nat) (now : Nat) (ran : Bool) (ho : o.control = .dispatch rest now ran) :
    Edits o s (s.dispatch rest now ran) := by
  unfold dispatch
  split
  · exact Edits.yield .refl _
  · next id rest =>
    split
    · exact Edits.go .refl _
    · next job l htake =>
      have htaken : Edits o s _ := .single (.taken id now rest ran job l ho htake)
      dsimp only
      split
      · exact (htaken.push _).go _
      · exact ((htaken.push _).push _).go _

theorem settle_edits {id : Nat} {cb : Callback} {again : Bool} (ho : o.TakesBack id cb again) :
    Edits o s (s.settle id cb again) := by
  unfold settle
  dsimp only
  cases again with
  | true => exact Edits.yield (.single (.restored id cb ho)) _
  | false => exact Edits.yield (.single (.ended id cb ho)) _

/-! ## Callbacks, streams and events -/

theorem callScript_edits (hc : Edits o s t) (x : Script) : Edits o s (t.callScript x) := by
  unfold callScript
  split
  · exact hc.yield _
  · split
    · exact hc.yield _
    · exact (hc.push _).go _

theorem actDone_edits (tag : String) (rest : List Op) (again : Bool) (a : Answer) :
    Edits o s (s.actDone tag rest again a) := by
  have hact : Edits o s (s.record (.acted tag a)) := Edits.record .refl rfl
  unfold actDone
  dsimp only
  split
  · exact hact.yield _
  · exact (hact.push _).go _

theorem invoke_edits {id : Nat} {cb : Callback} {payload : Loop.Payload}
    (ho : o.control = .invoke id cb payload) : Edits o s (s.invoke id cb payload) := by
  unfold invoke
  cases cb with
  | script x => exact callScript_edits (Edits.record .refl rfl) x
  | stream h st g => exact Edits.go .refl _
  | raise => exact Edits.yield (.single (.rung id payload ho)) _
  | detached =>
    dsimp only
    split
    · exact (Edits.note .refl _).yield _
    · exact Edits.yield .refl _
  | reap h g =>
    dsimp only
    split
    · split
      · exact (Edits.note .refl _).yield _
      · exact (Edits.push .refl _).go _
    · exact Edits.yield .refl _

theorem finishReap_edits (h g : Nat) (pid : Int) (st : ExitStatus) : Edits o s (s.finishReap h g pid st) := by
  unfold finishReap
  dsimp only
  split
  · exact Edits.yield .refl _
  · exact ((Edits.mapHandle .refl h _).note _).go _

theorem drain_edits {h : Nat} {st : Stream} {g : Nat}
    (ho : ∀ p, (s.handle h).pipe st = some p → p.watch ∈ o.drops) :
    Edits o s (s.drain h st g) := by
  unfold drain
  dsimp only
  split
  · exact Edits.yield .refl _
  · split
    · exact Edits.yield .refl _
    · next p _ =>
      have hread : ∀ r, Edits o s ((s.withKernel (s.kernel.read p.pid st s.config.chunk).2).record
          (.read h g st r)) := fun r => (Edits.kernel .refl (by simp)).record rfl
      have hfree : ∀ r n, Edits o s ((((s.withKernel (s.kernel.read p.pid st s.config.chunk).2).record
          (.read h g st r)).note n).releaseStream h st) := fun r n =>
        ((hread r).note n).releaseStream fun q hq => ho q (by
          have hsame := (aside_note ((s.withKernel (s.kernel.read p.pid st s.config.chunk).2).record
            (.read h g st r)) n).handle h
          rwa [hsame] at hq)
      split
      · exact (hfree _ _).yield _
      · exact ((hread _).push _).go _
      · split
        · exact (hread _).go _
        · split
          · exact (hread _).yield _
          · exact ((hfree _ _).push _).go _

theorem emit_edits (h : Nat) (e : Event) : Edits o s (s.emit h e) := by
  have hsaid : Edits o s (s.record (.emitted h (s.handle h).generation e)) := Edits.record .refl rfl
  unfold emit
  dsimp only
  split
  · exact (hsaid.mapHandle h _).yield _
  · exact (hsaid.mapHandle h _).go _

theorem deliver_edits (h : Nat) : Edits o s (s.deliver h) := by
  unfold deliver
  dsimp only
  split
  · exact (Edits.mapHandle .refl h _).yield _
  · split
    · exact (((Edits.mapHandle .refl h _).mapHandle h _).record rfl).go _
    · exact (((Edits.mapHandle .refl h _).record rfl).mapHandle h _).go _

theorem tell_edits (h : Nat) (e : Event) (done rest : List Subscriber) :
    Edits o s (s.tell h e done rest) := by
  unfold tell
  split
  · exact (Edits.mapHandle .refl h _).go _
  · exact (Edits.aside .refl (apart_of_eq (s := s) (t := { s with captured := s.captured.add e })
      rfl rfl rfl rfl rfl)).go _
  · exact callScript_edits ((Edits.push .refl _).record rfl) _

/-! ## Writing and waiting -/

theorem startWrite_edits (w : Writing) : Edits o s (s.startWrite w) := by
  unfold startWrite
  split
  · exact Edits.yield .refl _
  · exact Edits.go .refl _

theorem write_edits (w : Writing) (pid : Int) : Edits o s (s.write w pid) := by
  unfold write
  split
  · exact Edits.yield .refl _
  · have hwrote : ∀ g r, Edits o s ((s.withKernel (s.kernel.write pid w.rest).2).record
        (.wrote w.h g pid w.rest r)) := fun g r => (Edits.kernel .refl (by simp)).record rfl
    dsimp only
    split
    · exact (hwrote _ _).go _
    · split
      · exact (hwrote _ _).go _
      · split
        · refine Edits.go (Edits.engage (hwrote _ _) rfl rfl ?_) _
          exact rfl
        · exact ((hwrote _ _).note _).yield _

theorem awaitWritable_edits (w : Writing) {watch : Nat} (ho : watch ∈ o.lowers) :
    Edits o s (s.awaitWritable w watch) := by
  have hdrop := mem_drops_of_lowers ho
  unfold awaitWritable
  split
  · exact (Edits.lower .refl ho).go _
  · split
    · exact (Edits.removeWatch .refl hdrop).yield _
    · split
      · exact ((Edits.note .refl _).removeWatch hdrop).yield _
      · exact (Edits.push .refl _).go _

theorem wait_edits (hc : Edits o s t) (h timeout : Nat) : Edits o s (t.wait h timeout) := by
  unfold wait
  dsimp only
  split
  · exact hc.yield _
  · exact (hc.addTimer timeout).go _
  · exact hc.yield _

theorem endWait_edits {deadline : Nat} (ho : deadline ∈ o.lowers) (r : Except WaitError ExitStatus) :
    Edits o s (s.endWait deadline r) :=
  ((Edits.removeWatch .refl (mem_drops_of_lowers ho)).lower ho).yield _

theorem awaitExit_edits (h : Nat) {deadline : Nat} (ho : deadline ∈ o.lowers) :
    Edits o s (s.awaitExit h deadline) := by
  unfold awaitExit
  dsimp only
  split
  · exact endWait_edits ho _
  · split
    · exact endWait_edits ho _
    · exact (Edits.push .refl _).go _
  · exact endWait_edits ho _

theorem dispose_edits {h : Nat} (ho : ∀ id ∈ (s.handle h).watches, id ∈ o.drops) : Edits o s (s.dispose h) := by
  have hkill : Edits o s _ := Edits.aside .refl (apart_kill s h Signal.term)
  unfold dispose
  split
  · dsimp only
    split
    · exact (hkill.push _).go _
    · exact ((hkill.note _).push _).go _
  · exact (Edits.close .refl ho).yield _

theorem graceOver_edits {h : Nat} (ho : ∀ id ∈ (s.handle h).watches, id ∈ o.drops)
    (r : Except WaitError ExitStatus) : Edits o s (s.graceOver h r) := by
  unfold graceOver
  split
  · exact (Edits.close .refl ho).yield _
  · dsimp only
    split
    · have hkill := fun n => (Edits.note (.refl : Edits o s s) n).aside (apart_kill _ h Signal.kill)
      split
      · exact ((hkill _).push _).go _
      · exact (((hkill _).note _).push _).go _
    · exact (Edits.close .refl ho).yield _

/-! ## Isolated runs -/

theorem startRun_edits (spec : RunSpec) : Edits o s (s.startRun spec) := by
  have hspawn : Edits o s _ := Edits.spawn .refl 0 spec.command spec.plan spec.execError
  unfold startRun
  dsimp only
  split
  · exact hspawn.yield _
  · split
    · exact hspawn.go _
    · exact (((hspawn.addTimer _).push _).push _).go _

theorem apart_trouble (s : Machine) (t : Run.Trouble) : Apart s (s.trouble t) := apart_of_eq rfl rfl rfl rfl rfl

theorem runWritten_edits (run : Running) (total : Nat) (r : Except WriteError Nat) :
    Edits o s (s.runWritten run total r) := by
  unfold runWritten
  split
  · exact Edits.go .refl _
  · exact Edits.go .refl _
  · exact (Edits.aside .refl (apart_trouble s _)).go _
  · split
    · exact (Edits.aside .refl (apart_trouble s _)).go _
    · exact (Edits.push .refl _).go _
  · exact (Edits.push .refl _).go _

theorem finishInput_edits (run : Running) (timedOut : Bool) : Edits o s (s.finishInput run timedOut) := by
  have hclose : Edits o s _ := Edits.aside .refl (apart_closeStdin s 0)
  unfold finishInput
  dsimp only
  split
  · exact hclose.go _
  · exact (hclose.push _).go _

theorem finishWait_edits (run : Running) (waited : Except WaitError ExitStatus) :
    Edits o s (s.finishWait run waited) := by
  unfold finishWait
  dsimp only
  split
  · exact ((Edits.note .refl _).push _).go _
  · exact (Edits.push .refl _).go _

/-! ## Operations -/

/-- A watch of the user is registered under a tag. -/
theorem bind_edits (tag : String) (priority : Loop.Priority) {src : Loop.Source Callback} {x : Script}
    (hcb : src.outline.slot = some (.script x)) (ht : src.Newborn s.kernel.now) (ho : o.registers = true) :
    Edits o s (bind tag (s.addWatch priority src)) := by
  have hadd : Edits o s (s.addWatch priority src).2 := .single (.added _ _ ⟨_, hcb, .inl ⟨rfl, ho⟩⟩ ht)
  exact (hadd.aside (apart_of_eq (t := (s.addWatch priority src).2.tag tag (s.loop.lastId + 1))
    rfl rfl rfl rfl rfl)).yield _

theorem withTag_edits {f : Nat → Machine} {tag : String}
    (hf : ∀ id, Command.look? tag s.tags = some id → Edits o s (f id)) : Edits o s (s.withTag tag f) := by
  unfold withTag
  split
  · exact Edits.yield .refl _
  · next id hid => exact hf id hid

theorem perform_edits (s : Machine) (op : Op) (hs : s.control = .perform op) : Edits s s (s.perform op) := by
  unfold perform
  cases op with
  | idle priority x => exact bind_edits x.tag priority rfl trivial (by rw [registers, hs])
  | timer interval priority x => exact bind_edits x.tag priority rfl rfl (by rw [registers, hs])
  | io fd interest x => exact bind_edits x.tag Loop.Priority.normal rfl rfl (by rw [registers, hs])
  | childWatch pid priority x => exact bind_edits x.tag priority rfl trivial (by rw [registers, hs])
  | remove tag =>
    refine withTag_edits fun id hid => (Edits.removeWatch .refl ?_).yield _
    rw [drops, hs]
    exact Option.mem_toList.2 hid
  | contains tag => exact withTag_edits fun id _ => Edits.yield .refl _
  | idOf tag => exact withTag_edits fun id _ => Edits.yield .refl _
  | size => exact Edits.yield .refl _
  | inspectLoop => exact Edits.yield .refl _
  | inspectSupervisor => exact Edits.yield .refl _
  | iterate block => exact (Edits.push .refl _).go _
  | run => exact (Edits.aside .refl (apart_setQuit s false)).go _
  | quit => exact (Edits.aside .refl (apart_quit s)).yield _
  | spawn name c plan execError =>
    exact ((Edits.resolve .refl name).spawn _ c plan execError).yield _
  | write name data => exact ((Edits.resolve .refl name).push _).go _
  | writeTimeout name data timeout =>
    exact ((((Edits.resolve .refl name).addTimer timeout).push _).push _).go _
  | closeStdin name => exact ((Edits.resolve .refl name).aside (apart_closeStdin _ _)).yield _
  | close name =>
    refine ((Edits.resolve .refl name).close fun id hid => ?_).yield _
    rw [handle_resolve] at hid
    rw [drops, hs]
    exact hid
  | dispose name => exact ((Edits.resolve .refl name).push _).go _
  | wait name timeout => exact ((Edits.resolve .refl name).push _).go _
  | kill name sig => exact ((Edits.resolve .refl name).aside (apart_kill _ _ sig)).yield _
  | subscribe name x => exact ((Edits.resolve .refl name).mapHandle _ _).yield _
  | drain name => exact ((Edits.resolve .refl name).mapHandle _ _).yield _
  | isRunning name => exact (Edits.resolve .refl name).yield _
  | command name => exact (Edits.resolve .refl name).yield _
  | inspect name => exact (Edits.resolve .refl name).yield _
  | drop name =>
    dsimp only
    split
    · exact Edits.yield .refl _
    · have hnames : Edits s s { s with names := s.names.filter fun r => r.1 != name } :=
        Edits.aside .refl (apart_of_eq rfl rfl rfl rfl rfl)
      split
      · exact (hnames.mapHandle _ _).yield _
      · exact (hnames.push _).go _
  | event e => exact (Edits.kernel .refl (Kernel.now_apply _ _)).yield _
  | schedule time e =>
    have hk : (s.kernel.schedule time e).now = s.kernel.now := rfl
    exact (Edits.kernel .refl hk).yield _
  | advance ns =>
    have hslept : Edits s s (s.withKernel (s.kernel.advance ns)) :=
      .single (.slept _ (by rw [sleeps, hs]) (Nat.le_add_right _ _))
    exact hslept.yield _
  | consumed pid =>
    have hk : (s.kernel.takeConsumed pid).2.now = s.kernel.now := Kernel.now_takeConsumed _ _
    exact (Edits.kernel .refl hk).yield _
  | isolated spec => exact Edits.go .refl _

theorem keepRunning_edits : Edits o s s.keepRunning := by
  unfold keepRunning
  split
  · exact (Edits.aside .refl (apart_setQuit s false)).yield _
  · exact (Edits.push .refl _).go _

theorem ranOn_edits (p : Pass) : Edits o s (s.ranOn p) := by
  unfold ranOn
  split
  · exact (Edits.aside .refl (apart_setQuit s false)).yield _
  · exact Edits.go .refl _

theorem answerFor_edits (h : Nat) (a : Answer) : Edits o s (s.answerFor h a) := by
  unfold answerFor
  dsimp only
  split
  · exact ((Edits.mapHandle .refl h _).push _).go _
  · exact Edits.yield .refl _

/-! ## Steps -/

theorem resume_edits {f : Frame} {v : Value} {rest : List Frame} (hv : o.control = .value v)
    (hst : o.stack = f :: rest) : Edits o { o with stack := rest } (resume { o with stack := rest } f v) := by
  unfold resume
  split
  · exact actDone_edits ..
  · exact settle_edits ⟨hv, _, hst⟩
  · exact Edits.go .refl _
  · exact Edits.yield .refl _
  · exact ranOn_edits _
  · exact Edits.go .refl _
  · exact Edits.yield .refl _
  · exact (Edits.push .refl _).go _
  · exact finishReap_edits ..
  · exact Edits.go .refl _
  · exact Edits.go .refl _
  · next deadline r =>
    have hd : deadline ∈ o.lowers := by
      rw [lowers, hv, hst]
      exact List.mem_cons_self
    exact ((Edits.removeWatch .refl (mem_drops_of_lowers hd)).lower hd).yield _
  · exact Edits.go .refl _
  · exact graceOver_edits (fun id hid => by rw [drops, hv, hst]; exact hid) _
  · exact (Edits.close .refl fun id hid => by rw [drops, hv, hst]; exact hid).yield _
  · exact answerFor_edits ..
  · exact answerFor_edits ..
  · exact answerFor_edits ..
  · exact Edits.yield .refl _
  · exact runWritten_edits ..
  · exact Edits.yield .refl _
  · exact finishWait_edits ..
  · exact Edits.yield .refl _
  · exact Edits.push .refl _

theorem step_edits (s : Machine) : Edits s s s.step := by
  unfold step
  split
  · next v hv =>
    split
    · exact .refl
    · next f rest hst =>
      have hpop : Edits s s { s with stack := rest } := Edits.aside .refl (apart_of_eq rfl rfl rfl rfl rfl)
      exact hpop.trans (resume_edits hv hst)
  · next op hc => exact perform_edits s op hc
  · next b hc => exact pass_edits s b hc
  · next rest now ran hc => exact dispatch_edits rest now ran hc
  · next id cb payload hc => exact invoke_edits hc
  · exact keepRunning_edits
  · next h st g hc =>
    refine drain_edits fun p hp => ?_
    rw [drops, hc]
    exact List.mem_map_of_mem (Option.mem_toList.2 hp)
  · exact emit_edits ..
  · exact deliver_edits ..
  · exact tell_edits ..
  · exact startWrite_edits ..
  · exact write_edits ..
  · next w watch hc => exact awaitWritable_edits w (by rw [lowers, hc]; exact List.mem_cons_self)
  · exact wait_edits .refl ..
  · next h deadline hc => exact awaitExit_edits h (by rw [lowers, hc]; exact List.mem_cons_self)
  · next h hc => exact dispose_edits fun id hid => by rw [drops, hc]; exact hid
  · exact startRun_edits _
  · exact finishInput_edits ..
  · exact finishWait_edits ..
  · exact .refl

end Machine

end Overseer
