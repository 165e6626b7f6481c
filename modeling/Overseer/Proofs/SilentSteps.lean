import Overseer.Proofs.Frames
import Overseer.Proofs.SpawnAndClose

/-!
# Steps without events

Few steps have to do with events, or with the watches that a pass still has to call.  All others are tacit: they leave
what every handle holds of events as it is, and they neither begin nor go on with a delivery or a round of calls.

    mail s h      =  outbox, flag, subscribers and queue of the handle h
    f.isLoud      =  the frame f waits for a subscriber, or for a watch that a pass has called
    Tacit K s t   =  s and t have the same mail, and the loud frames of t are those of K
    Speaks s      =  the next step is one of the others

Main statement: `speaks_or_tacit`.
-/

namespace Overseer

open Supervisor
open Kernel (Stream)

namespace Supervisor

/-- What a handle holds of events, and who is told of them. -/
structure Mail where
  outbox : List Event
  emitting : Bool
  subscribers : List Subscriber
  queue : List Event

def Handle.mail (x : Handle) : Mail := ⟨x.outbox, x.emitting, x.subscribers, x.queue⟩

/-- A subscriber, or a watch that a pass has called, has to return to this frame. -/
def Frame.isLoud : Frame → Bool
  | told .. => true
  | dispatch .. => true
  | _ => false

/-- An event is being delivered, or a pass is about to call. -/
def Control.isLoud : Control → Bool
  | deliver _ => true
  | tell .. => true
  | dispatch .. => true
  | _ => false

end Supervisor

namespace Machine

def mail (s : Machine) (h : Nat) : Mail := (s.handle h).mail

@[mk_iff]
structure Tacit (K : List Frame) (s t : Machine) : Prop where
  mail : t.mail = s.mail
  stack : t.stack.filter Frame.isLoud = K.filter Frame.isLoud
  control : t.control.isLoud = false

/-- The steps that are not tacit: a pass begins, calls, or goes on after a call; an event is put out, is
delivered, or a subscriber has returned; a handle is subscribed to, or its queue is emptied. -/
inductive Speaks (s : Machine) : Prop
  | pass (b : Bool) (hc : s.control = .pass b)
  | dispatch (ids : List Nat) (now : Nat) (ran : Bool) (hc : s.control = .dispatch ids now ran)
  | called (v : Value) (ids : List Nat) (now : Nat) (K : List Frame) (hc : s.control = .value v)
      (hst : s.stack = .dispatch ids now :: K)
  | emit (h : Nat) (e : Event) (hc : s.control = .emit h e)
  | deliver (h : Nat) (hc : s.control = .deliver h)
  | tell (h : Nat) (e : Event) (done rest : List Subscriber) (hc : s.control = .tell h e done rest)
  | heard (h : Nat) (e : Event) (done rest : List Subscriber) (b : Bool) (K : List Frame)
      (hc : s.control = .value (.again b)) (hst : s.stack = .told h e done rest :: K)
  | subscribe (name : String) (x : Script) (hc : s.control = .perform (.subscribe name x))
  | drain (name : String) (hc : s.control = .perform (.drain name))

variable {s t : Machine}

/-! ## Mail -/

/-- A change of a handle that has nothing to do with events. -/
theorem mail_mapHandle (s : Machine) (h : Nat) {f : Handle → Handle} (hf : ∀ x, (f x).mail = x.mail) :
    (s.mapHandle h f).mail = s.mail := by
  funext i
  rw [mail, mail, handle_mapHandle]
  split
  · next hi => rw [hf, hi.1]
  · rfl

theorem mail_mapHandle_of_ne (s : Machine) {h i : Nat} (f : Handle → Handle) (hi : i ≠ h) :
    (s.mapHandle h f).mail i = s.mail i := by
  rw [mail, mail, handle_mapHandle_of_ne s f (.inl hi)]

@[simp] theorem mail_record (s : Machine) (e : Entry) : (s.record e).mail = s.mail := rfl

@[simp] theorem mail_note (s : Machine) (n : Notice) : (s.note n).mail = s.mail := by
  unfold note
  split <;> rfl

@[simp] theorem mail_withKernel (s : Machine) (k : Kernel) : (s.withKernel k).mail = s.mail := rfl

@[simp] theorem mail_lower (s : Machine) (id : Nat) : (s.lower id).mail = s.mail := rfl

@[simp] theorem mail_push (s : Machine) (f : Frame) : (s.push f).mail = s.mail := rfl

@[simp] theorem mail_go (s : Machine) (c : Control) : (s.go c).mail = s.mail := rfl

@[simp] theorem mail_yield (s : Machine) (v : Value) : (s.yield v).mail = s.mail := rfl

@[simp] theorem mail_yieldAnswer (s : Machine) (a : Answer) : (s.yieldAnswer a).mail = s.mail := rfl

@[simp] theorem mail_addWatch (s : Machine) (priority : Loop.Priority) (src : Loop.Source Callback) :
    (s.addWatch priority src).2.mail = s.mail := rfl

@[simp] theorem mail_watchChild (s : Machine) (pid : Int) (priority : Loop.Priority) (cb : Callback) :
    (s.watchChild pid priority cb).2.mail = s.mail := rfl

@[simp] theorem mail_addTimer (s : Machine) (interval : Nat) (priority : Loop.Priority) (cb : Callback) :
    (s.addTimer interval priority cb).2.mail = s.mail := rfl

@[simp] theorem mail_removeWatch (s : Machine) (id : Nat) : (s.removeWatch id).mail = s.mail := rfl

@[simp] theorem mail_quit (s : Machine) : s.quit.mail = s.mail := rfl

@[simp] theorem mail_resolve (s : Machine) (name : String) : (s.resolve name).2.mail = s.mail := by
  funext h
  rw [mail, mail, handle_resolve]

@[simp] theorem mail_closeStdin (s : Machine) (h : Nat) : (s.closeStdin h).mail = s.mail := by
  unfold closeStdin
  split
  · rfl
  · exact mail_mapHandle s h fun _ => rfl

@[simp] theorem mail_releaseStream (s : Machine) (h : Nat) (st : Stream) : (s.releaseStream h st).mail = s.mail := by
  unfold releaseStream
  split
  · rfl
  · exact mail_mapHandle s h fun x => by cases st <;> rfl

@[simp] theorem mail_kill (s : Machine) (h : Nat) (sig : Int) : (s.kill h sig).2.mail = s.mail := by
  unfold kill
  dsimp only
  split
  · rfl
  · split
    · rfl
    · split
      · rfl
      · split
        · rfl
        · split <;> rfl

theorem mail_removeWatches (s : Machine) (ids : List Nat) : (ids.foldl removeWatch s).mail = s.mail := by
  induction ids generalizing s with
  | nil => rfl
  | cons id r ih => rw [List.foldl_cons, ih, mail_removeWatch]

@[simp] theorem mail_close (s : Machine) (h : Nat) : (s.close h).mail = s.mail := by
  unfold close
  dsimp only
  split
  · rfl
  · have hclosed : ∀ ids : List Nat, (ids.foldl removeWatch ((s.closeStdin h).mapHandle h fun x =>
        { x with state := .closed, out := none, err := none, childWatch := none })).mail = s.mail := by
      intro ids
      rw [mail_removeWatches, mail_mapHandle, mail_closeStdin]
      exact fun _ => rfl
    split
    · rw [mail_watchChild, hclosed]
    · exact hclosed _

@[simp] theorem mail_setNonblocking (s : Machine) (pid : Int) (n : Nat) : (s.setNonblocking pid n).mail = s.mail := by
  induction n generalizing s with
  | zero => rfl
  | succ n ih =>
    unfold setNonblocking
    dsimp only
    rw [ih]
    split <;> simp

@[simp] theorem mail_watchStream (s : Machine) (h g : Nat) (pid : Int) (st : Stream) (mode : Stdio) :
    (s.watchStream h g pid st mode).2.mail = s.mail := by
  unfold watchStream
  split <;> rfl

@[simp] theorem mail_adopt (s : Machine) (h : Nat) (c : Command) (e : Execution) (pid : Int) :
    (s.adopt h c e pid).mail = s.mail := by
  unfold adopt
  dsimp only
  rw [mail_mapHandle, mail_note, mail_watchChild, mail_watchStream, mail_watchStream, mail_record, mail_mapHandle,
    mail_setNonblocking]
  · exact fun _ => rfl
  · exact fun _ => rfl

@[simp] theorem mail_spawn (s : Machine) (h : Nat) (c : Command) (plan : Kernel.Plan) (execError : Option Int) :
    (s.spawn h c plan execError).2.2.mail = s.mail := by
  unfold spawn
  split
  · rfl
  · dsimp only
    split
    · rfl
    · split
      · simp
      · split <;> simp

/-- A pass has nothing to do with events. -/
theorem mail_pass (s : Machine) (b : Bool) : (s.pass b).mail = s.mail := by
  funext h
  rw [mail, mail, handle, handle, (loopOnly_pass s b).handles]

/-! ## Tacit steps -/

theorem callScript_tacit (s : Machine) (x : Script) : Tacit s.stack s (s.callScript x) := by
  unfold callScript
  split
  · simp [tacit_iff, Control.isLoud]
  · split <;> simp [tacit_iff, Frame.isLoud, Control.isLoud]

theorem actDone_tacit (s : Machine) (tag : String) (rest : List Op) (again : Bool) (a : Answer) :
    Tacit s.stack s (s.actDone tag rest again a) := by
  unfold actDone
  dsimp only
  split <;> simp [tacit_iff, Frame.isLoud, Control.isLoud]

theorem settle_tacit (s : Machine) (id : Nat) (cb : Callback) (again : Bool) :
    Tacit s.stack s (s.settle id cb again) := by
  unfold settle
  dsimp only
  split <;> exact ⟨rfl, rfl, rfl⟩

theorem invoke_tacit (s : Machine) (id : Nat) (cb : Callback) (payload : Loop.Payload) :
    Tacit s.stack s (s.invoke id cb payload) := by
  unfold invoke
  cases cb with
  | script x =>
    have hcall := callScript_tacit (s.record (.called x.tag payload)) x
    exact ⟨hcall.mail, hcall.stack, hcall.control⟩
  | stream h st g => simp [tacit_iff, Control.isLoud]
  | raise => exact ⟨rfl, rfl, rfl⟩
  | detached => cases payload <;> simp [tacit_iff, Control.isLoud]
  | reap h g =>
    cases payload with
    | child pid st =>
      dsimp only
      split <;> simp [tacit_iff, Frame.isLoud, Control.isLoud]
    | _ => simp [tacit_iff, Control.isLoud]

theorem finishReap_tacit (s : Machine) (h g : Nat) (pid : Int) (st : ExitStatus) :
    Tacit s.stack s (s.finishReap h g pid st) := by
  unfold finishReap
  dsimp only
  split
  · simp [tacit_iff, Control.isLoud]
  · refine ⟨?_, by simp, rfl⟩
    rw [mail_go, mail_note, mail_mapHandle]
    exact fun _ => rfl

theorem drain_tacit (s : Machine) (h : Nat) (st : Stream) (g : Nat) : Tacit s.stack s (s.drain h st g) := by
  unfold drain
  dsimp only
  split
  · simp [tacit_iff, Control.isLoud]
  · split
    · simp [tacit_iff, Control.isLoud]
    · split
      · simp [tacit_iff, Control.isLoud]
      · simp [tacit_iff, Frame.isLoud, Control.isLoud]
      · split
        · simp [tacit_iff, Control.isLoud]
        · split <;> simp [tacit_iff, Frame.isLoud, Control.isLoud]

theorem startWrite_tacit (s : Machine) (w : Writing) : Tacit s.stack s (s.startWrite w) := by
  unfold startWrite
  split <;> simp [tacit_iff, Control.isLoud]

theorem write_tacit (s : Machine) (w : Writing) (pid : Int) : Tacit s.stack s (s.write w pid) := by
  unfold write
  split
  · simp [tacit_iff, Control.isLoud]
  · dsimp only
    split
    · simp [tacit_iff, Control.isLoud]
    · split
      · simp [tacit_iff, Control.isLoud]
      · split <;> simp [tacit_iff, Control.isLoud]

theorem awaitWritable_tacit (s : Machine) (w : Writing) (watch : Nat) :
    Tacit s.stack s (s.awaitWritable w watch) := by
  unfold awaitWritable
  split
  · simp [tacit_iff, Control.isLoud]
  · split
    · simp [tacit_iff, Control.isLoud]
    · split <;> simp [tacit_iff, Frame.isLoud, Control.isLoud]

theorem wait_tacit (s : Machine) (h timeout : Nat) : Tacit s.stack s (s.wait h timeout) := by
  unfold wait
  dsimp only
  split <;> simp [tacit_iff, Control.isLoud]

theorem awaitExit_tacit (s : Machine) (h deadline : Nat) : Tacit s.stack s (s.awaitExit h deadline) := by
  unfold awaitExit endWait
  dsimp only
  split
  · simp [tacit_iff, Control.isLoud]
  · split <;> simp [tacit_iff, Frame.isLoud, Control.isLoud]
  · simp [tacit_iff, Control.isLoud]

theorem dispose_tacit (s : Machine) (h : Nat) : Tacit s.stack s (s.dispose h) := by
  unfold dispose
  split
  · dsimp only
    split <;> simp [tacit_iff, Frame.isLoud, Control.isLoud]
  · simp [tacit_iff, Control.isLoud]

theorem graceOver_tacit (s : Machine) (h : Nat) (r : Except WaitError ExitStatus) :
    Tacit s.stack s (s.graceOver h r) := by
  unfold graceOver
  split
  · simp [tacit_iff, Control.isLoud]
  · dsimp only
    split
    · split <;> simp [tacit_iff, Frame.isLoud, Control.isLoud]
    · simp [tacit_iff, Control.isLoud]

theorem startRun_tacit (s : Machine) (spec : RunSpec) : Tacit s.stack s (s.startRun spec) := by
  unfold startRun
  dsimp only
  split
  · simp [tacit_iff, Control.isLoud]
  · split <;> simp [tacit_iff, Frame.isLoud, Control.isLoud]

@[simp] theorem mail_trouble (s : Machine) (t : Run.Trouble) : (s.trouble t).mail = s.mail := rfl

@[simp] theorem stack_trouble (s : Machine) (t : Run.Trouble) : (s.trouble t).stack = s.stack := rfl

theorem runWritten_tacit (s : Machine) (run : Running) (total : Nat) (r : Except WriteError Nat) :
    Tacit s.stack s (s.runWritten run total r) := by
  unfold runWritten
  split
  · simp [tacit_iff, Control.isLoud]
  · simp [tacit_iff, Control.isLoud]
  · simp [tacit_iff, Control.isLoud]
  · split <;> simp [tacit_iff, Frame.isLoud, Control.isLoud]
  · simp [tacit_iff, Frame.isLoud, Control.isLoud]

theorem finishInput_tacit (s : Machine) (run : Running) (timedOut : Bool) :
    Tacit s.stack s (s.finishInput run timedOut) := by
  unfold finishInput
  dsimp only
  split <;> simp [tacit_iff, Frame.isLoud, Control.isLoud]

theorem finishWait_tacit (s : Machine) (run : Running) (waited : Except WaitError ExitStatus) :
    Tacit s.stack s (s.finishWait run waited) := by
  unfold finishWait
  dsimp only
  split <;> simp [tacit_iff, Frame.isLoud, Control.isLoud]

theorem answerFor_tacit (s : Machine) (h : Nat) (a : Answer) : Tacit s.stack s (s.answerFor h a) := by
  unfold answerFor
  dsimp only
  split
  · refine ⟨?_, by simp [Frame.isLoud], rfl⟩
    rw [mail_go, mail_push, mail_mapHandle]
    exact fun _ => rfl
  · simp [tacit_iff, Control.isLoud]

theorem keepRunning_tacit (s : Machine) : Tacit s.stack s s.keepRunning := by
  unfold keepRunning
  split
  · exact ⟨rfl, rfl, rfl⟩
  · simp [tacit_iff, Frame.isLoud, Control.isLoud]

theorem ranOn_tacit (s : Machine) (p : Pass) : Tacit s.stack s (s.ranOn p) := by
  cases p <;> exact ⟨rfl, rfl, rfl⟩

theorem withTag_tacit (s : Machine) (tag : String) {f : Nat → Machine} (hf : ∀ id, Tacit s.stack s (f id)) :
    Tacit s.stack s (s.withTag tag f) := by
  unfold withTag
  split
  · simp [tacit_iff, Control.isLoud]
  · exact hf _

theorem bind_tacit {r : Nat × Machine} (tag : String) (hm : r.2.mail = s.mail) (hst : r.2.stack = s.stack) :
    Tacit s.stack s (bind tag r) :=
  ⟨hm, congrArg (List.filter Frame.isLoud) hst, rfl⟩

theorem perform_tacit (s : Machine) {op : Op} (hs : ∀ name x, op ≠ .subscribe name x)
    (hd : ∀ name, op ≠ .drain name) :
    Tacit s.stack s (s.perform op) := by
  unfold perform
  cases op with
  | subscribe name x => exact absurd rfl (hs name x)
  | drain name => exact absurd rfl (hd name)
  | idle priority x => exact bind_tacit _ rfl rfl
  | timer interval priority x => exact bind_tacit _ rfl rfl
  | io fd interest x => exact bind_tacit _ rfl rfl
  | childWatch pid priority x => exact bind_tacit _ rfl rfl
  | remove tag => exact withTag_tacit s tag fun id => by simp [tacit_iff, Control.isLoud]
  | contains tag => exact withTag_tacit s tag fun id => by simp [tacit_iff, Control.isLoud]
  | idOf tag => exact withTag_tacit s tag fun id => by simp [tacit_iff, Control.isLoud]
  | run => exact ⟨rfl, rfl, rfl⟩
  | drop name =>
    dsimp only
    split
    · simp [tacit_iff, Control.isLoud]
    · split
      · refine ⟨?_, rfl, rfl⟩
        rw [mail_yieldAnswer, mail_mapHandle]
        · rfl
        · exact fun _ => rfl
      · exact ⟨rfl, by simp [Frame.isLoud], rfl⟩
  | _ => simp [tacit_iff, reply, onHandle, Frame.isLoud, Control.isLoud]

/-- A value has come back to a frame that is not loud. -/
theorem resume_tacit (s : Machine) {f : Frame} (v : Value) (hf : f.isLoud = false) (hc : s.control.isLoud = false) :
    Tacit s.stack s (s.resume f v) := by
  unfold resume
  split
  · exact actDone_tacit ..
  · exact settle_tacit ..
  · cases hf
  · simp [tacit_iff, Control.isLoud]
  · exact ranOn_tacit ..
  · simp [tacit_iff, Control.isLoud]
  · simp [tacit_iff, Control.isLoud]
  · simp [tacit_iff, Frame.isLoud, Control.isLoud]
  · exact finishReap_tacit ..
  · cases hf
  · simp [tacit_iff, Control.isLoud]
  · simp [tacit_iff, Control.isLoud]
  · simp [tacit_iff, Control.isLoud]
  · exact graceOver_tacit ..
  · simp [tacit_iff, Control.isLoud]
  · exact answerFor_tacit ..
  · exact answerFor_tacit ..
  · exact answerFor_tacit ..
  · simp [tacit_iff, Control.isLoud]
  · exact runWritten_tacit ..
  · simp [tacit_iff, Control.isLoud]
  · exact finishWait_tacit ..
  · simp [tacit_iff, Control.isLoud]
  · exact ⟨rfl, by simp [hf], hc⟩

/-- A value has come back to a loud frame for which it is meant, or the step is tacit. -/
theorem value_speaks_or_tacit {v : Value} (hv : s.control = .value v) : Speaks s ∨ ∃ K, Tacit K s s.step ∧
    (K = s.stack ∨ ∃ v f, s.control = .value v ∧ s.stack = f :: K ∧ f.isLoud = false) := by
  have hquiet : s.control.isLoud = false := by rw [hv]; rfl
  cases hst : s.stack with
  | nil =>
    have hstep : s.step = s := by simp [step, hv, hst]
    exact .inr ⟨s.stack, by rw [hstep]; exact ⟨rfl, rfl, hquiet⟩, .inl hst⟩
  | cons f rest =>
    have hstep : s.step = resume { s with stack := rest } f v := by simp [step, hv, hst]
    cases hf : f.isLoud with
    | false =>
      refine .inr ⟨rest, ?_, .inr ⟨v, f, hv, rfl, hf⟩⟩
      have hres := resume_tacit { s with stack := rest } v hf hquiet
      rw [hstep]
      exact ⟨hres.mail, hres.stack, hres.control⟩
    | true =>
      cases f with
      | dispatch ids now => exact .inl (.called v ids now rest hv hst)
      | told h e done more =>
        cases v with
        | again b => exact .inl (.heard h e done more b rest hv hst)
        | _ =>
          -- the value is not of the kind that the frame waits for, so it waits on
          have hback : s.step = Machine.push { s with stack := rest } (.told h e done more) := hstep
          exact .inr ⟨s.stack, by rw [hback, tacit_iff]; exact ⟨rfl, by rw [hst]; rfl, hquiet⟩, .inl hst⟩
      | _ => cases hf

/-- A step has to do with events or with the calls of a pass, or it is tacit. -/
theorem speaks_or_tacit (s : Machine) : Speaks s ∨ ∃ K, Tacit K s s.step ∧
    (K = s.stack ∨ ∃ v f, s.control = .value v ∧ s.stack = f :: K ∧ f.isLoud = false) := by
  have here : Tacit s.stack s s.step → Speaks s ∨ ∃ K, Tacit K s s.step ∧
      (K = s.stack ∨ ∃ v f, s.control = .value v ∧ s.stack = f :: K ∧ f.isLoud = false) :=
    fun h => .inr ⟨s.stack, h, .inl rfl⟩
  cases hc : s.control with
  | value v => exact hc ▸ value_speaks_or_tacit hc
  | pass b => exact .inl (.pass b hc)
  | dispatch ids now ran => exact .inl (.dispatch ids now ran hc)
  | emit h e => exact .inl (.emit h e hc)
  | deliver h => exact .inl (.deliver h hc)
  | tell h e done rest => exact .inl (.tell h e done rest hc)
  | perform op =>
    by_cases hs : ∃ name x, op = .subscribe name x
    · obtain ⟨name, x, rfl⟩ := hs
      exact .inl (.subscribe name x hc)
    · by_cases hd : ∃ name, op = .drain name
      · obtain ⟨name, rfl⟩ := hd
        exact .inl (.drain name hc)
      · have hop : Tacit s.stack s (s.perform op) :=
          perform_tacit s (fun name x he => hs ⟨name, x, he⟩) fun name he => hd ⟨name, he⟩
        exact hc ▸ here (by rw [step, hc]; exact hop)
  | invoke id cb payload => exact hc ▸ here (by rw [step, hc]; exact invoke_tacit s id cb payload)
  | keepRunning => exact hc ▸ here (by rw [step, hc]; exact keepRunning_tacit s)
  | drain h st g => exact hc ▸ here (by rw [step, hc]; exact drain_tacit s h st g)
  | startWrite w => exact hc ▸ here (by rw [step, hc]; exact startWrite_tacit s w)
  | write w pid => exact hc ▸ here (by rw [step, hc]; exact write_tacit s w pid)
  | awaitWritable w watch => exact hc ▸ here (by rw [step, hc]; exact awaitWritable_tacit s w watch)
  | wait h timeout => exact hc ▸ here (by rw [step, hc]; exact wait_tacit s h timeout)
  | awaitExit h deadline => exact hc ▸ here (by rw [step, hc]; exact awaitExit_tacit s h deadline)
  | dispose h => exact hc ▸ here (by rw [step, hc]; exact dispose_tacit s h)
  | isolated spec => exact hc ▸ here (by rw [step, hc]; exact startRun_tacit s spec)
  | finishInput run timedOut => exact hc ▸ here (by rw [step, hc]; exact finishInput_tacit s run timedOut)
  | finishWait run waited => exact hc ▸ here (by rw [step, hc]; exact finishWait_tacit s run waited)
  | suspended spec => exact hc ▸ here (by rw [step, hc]; exact ⟨rfl, rfl, by rw [hc]; rfl⟩)

end Machine

end Overseer
