import Overseer.Proofs.Opening

/-!
# What a step does to the stack

Passes and running loops leave frames on the stack that others do not, and they alone look at the request
to stop.  Every other step is plain: it goes on upon the stack, or behind a plain frame that a value has
come back to, puts plain frames there, and leaves the request to stop as it is.

    isLoopStep s  =  the next step is one of a pass, of a running loop, or a call of run or quit
    Plain K q t    =  t has plain frames upon K, its request to stop is q, and no run goes on in it

Main statement: `plain_step`.
-/

namespace Overseer

open Supervisor
open Kernel (Stream)

namespace Supervisor

/-- No pass and no running loop waits behind this frame. -/
def Frame.isPlain : Frame → Bool
  | settle .. => false
  | dispatch .. => false
  | running => false
  | _ => true

/-- What waits below a frame of a stack is shorter than the stack. -/
theorem length_lt_of_suffix {f : Frame} {K L : List Frame} (h : f :: K <:+ L) : K.length < L.length := by
  simpa only [List.length_cons, Nat.succ_le_iff] using h.length_le

/-- Plain frames have come upon the stack `K`. -/
def Grown (K L : List Frame) : Prop := ∃ B, L = B ++ K ∧ ∀ f ∈ B, f.isPlain = true

@[simp] theorem grown_self (K : List Frame) : Grown K K := ⟨[], rfl, by simp⟩

@[simp] theorem grown_cons (f : Frame) (K : List Frame) : Grown K (f :: K) ↔ f.isPlain = true := by
  constructor
  · rintro ⟨B, hB, hf⟩
    have hcons : [f] ++ K = B ++ K := hB
    obtain rfl := List.append_cancel_right hcons
    exact hf f List.mem_cons_self
  · exact fun hf => ⟨[f], rfl, by simpa using hf⟩

@[simp] theorem grown_cons_cons (f g : Frame) (K : List Frame) :
    Grown K (f :: g :: K) ↔ f.isPlain = true ∧ g.isPlain = true := by
  constructor
  · rintro ⟨B, hB, hf⟩
    have hcons : [f, g] ++ K = B ++ K := hB
    obtain rfl := List.append_cancel_right hcons
    exact ⟨hf f (by simp), hf g (by simp)⟩
  · exact fun hf => ⟨[f, g], rfl, by simpa using hf⟩

theorem Grown.under {K L : List Frame} {f : Frame} (h : Grown (f :: K) L) (hf : f.isPlain = true) : Grown K L := by
  obtain ⟨B, rfl, hB⟩ := h
  refine ⟨B ++ [f], by simp, fun g hg => ?_⟩
  rcases List.mem_append.1 hg with hg | hg
  · exact hB g hg
  · rwa [List.mem_singleton.1 hg]

theorem Grown.suffix {K L : List Frame} (h : Grown K L) : K <:+ L := by
  obtain ⟨B, rfl, -⟩ := h
  exact List.suffix_append B K

/-- What stands upon a frame that is not plain has not come from the stack above it. -/
theorem Grown.suffix_of_not_plain {K L M : List Frame} {f : Frame} (h : Grown K L) (hf : f.isPlain = false)
    (hM : f :: M <:+ L) : f :: M <:+ K := by
  obtain ⟨B, rfl, hB⟩ := h
  induction B with
  | nil => exact hM
  | cons b B ih =>
    have hrest : ∀ g ∈ B, g.isPlain = true := fun g hg => hB g (List.mem_cons_of_mem _ hg)
    rcases List.suffix_cons_iff.1 hM with he | hM
    · obtain rfl : f = b := (List.cons.inj he).1
      rw [hB f List.mem_cons_self] at hf
      cases hf
    · exact ih hrest hM

end Supervisor

namespace Machine

/-- The next step is one of a pass, of a running loop, or a call of run or quit. -/
def isLoopStep (s : Machine) : Bool :=
  match s.control, s.stack with
  | .pass _, _ => true
  | .dispatch .., _ => true
  | .keepRunning, _ => true
  | .perform .run, _ => true
  | .perform .quit, _ => true
  | .value _, .dispatch .. :: _ => true
  | .value (.again _), .settle .. :: _ => true
  | .value (.passed _), .running :: _ => true
  | _, _ => false

/-- The steps that are not plain: a pass begins, calls the next watch, takes back a callback or goes on
after it; a loop is told to run or to stop, runs on, or has made a pass. -/
inductive LoopStep (s : Machine) : Prop
  | pass (b : Bool) (hc : s.control = .pass b)
  | dispatch (ids : List Nat) (now : Nat) (ran : Bool) (hc : s.control = .dispatch ids now ran)
  | settled (id : Nat) (cb : Callback) (b : Bool) (K : List Frame) (hc : s.control = .value (.again b))
      (hst : s.stack = .settle id cb :: K)
  | called (v : Value) (ids : List Nat) (now : Nat) (K : List Frame) (hc : s.control = .value v)
      (hst : s.stack = .dispatch ids now :: K)
  | run (hc : s.control = .perform .run)
  | quit (hc : s.control = .perform .quit)
  | runsOn (hc : s.control = .keepRunning)
  | passed (p : Pass) (K : List Frame) (hc : s.control = .value (.passed p)) (hst : s.stack = .running :: K)

/-- Plain frames have come upon `K`, no loop is about to run on, and the request to stop is `q`. -/
@[mk_iff]
structure Plain (K : List Frame) (q : Bool) (t : Machine) : Prop where
  stack : Grown K t.stack
  control : t.control ≠ .keepRunning
  quit : t.loop.quit = q

variable {s t : Machine}

/-! ## The request to stop -/

@[simp] theorem quit_record (s : Machine) (e : Entry) : (s.record e).loop.quit = s.loop.quit := rfl

@[simp] theorem quit_note (s : Machine) (n : Notice) : (s.note n).loop.quit = s.loop.quit := by
  unfold note
  split <;> rfl

@[simp] theorem quit_withKernel (s : Machine) (k : Kernel) : (s.withKernel k).loop.quit = s.loop.quit := rfl

@[simp] theorem quit_mapHandle (s : Machine) (h : Nat) (f : Handle → Handle) :
    (s.mapHandle h f).loop.quit = s.loop.quit := rfl

@[simp] theorem quit_lower (s : Machine) (id : Nat) : (s.lower id).loop.quit = s.loop.quit := rfl

@[simp] theorem quit_push (s : Machine) (f : Frame) : (s.push f).loop.quit = s.loop.quit := rfl

@[simp] theorem quit_go (s : Machine) (c : Control) : (s.go c).loop.quit = s.loop.quit := rfl

@[simp] theorem quit_yield (s : Machine) (v : Value) : (s.yield v).loop.quit = s.loop.quit := rfl

@[simp] theorem quit_yieldAnswer (s : Machine) (a : Answer) : (s.yieldAnswer a).loop.quit = s.loop.quit := rfl

@[simp] theorem quit_addWatch (s : Machine) (priority : Loop.Priority) (src : Loop.Source Callback) :
    (s.addWatch priority src).2.loop.quit = s.loop.quit := rfl

@[simp] theorem quit_watchChild (s : Machine) (pid : Int) (priority : Loop.Priority) (cb : Callback) :
    (s.watchChild pid priority cb).2.loop.quit = s.loop.quit := rfl

@[simp] theorem quit_addTimer (s : Machine) (interval : Nat) (priority : Loop.Priority) (cb : Callback) :
    (s.addTimer interval priority cb).2.loop.quit = s.loop.quit := rfl

@[simp] theorem quit_removeWatch (s : Machine) (id : Nat) : (s.removeWatch id).loop.quit = s.loop.quit := rfl

@[simp] theorem quit_resolve (s : Machine) (name : String) : (s.resolve name).2.loop.quit = s.loop.quit := by
  unfold resolve
  split <;> rfl

@[simp] theorem quit_releaseStream (s : Machine) (h : Nat) (st : Stream) :
    (s.releaseStream h st).loop.quit = s.loop.quit := by
  unfold releaseStream
  split <;> rfl

@[simp] theorem quit_closeStdin (s : Machine) (h : Nat) : (s.closeStdin h).loop.quit = s.loop.quit := by
  unfold closeStdin
  split <;> rfl

@[simp] theorem quit_kill (s : Machine) (h : Nat) (sig : Int) : (s.kill h sig).2.loop.quit = s.loop.quit := by
  unfold kill
  dsimp only
  split
  · rfl
  · split
    · rfl
    · split
      · rfl
      · split
        · rfl
        · split <;> rfl

theorem quit_removeWatches (s : Machine) (ids : List Nat) :
    (ids.foldl removeWatch s).loop.quit = s.loop.quit := by
  induction ids generalizing s with
  | nil => rfl
  | cons id r ih => rw [List.foldl_cons, ih, quit_removeWatch]

@[simp] theorem quit_close (s : Machine) (h : Nat) : (s.close h).loop.quit = s.loop.quit := by
  unfold close
  dsimp only
  split
  · rfl
  · split
    · rw [quit_watchChild, quit_removeWatches, quit_mapHandle, quit_closeStdin]
    · rw [quit_removeWatches, quit_mapHandle, quit_closeStdin]

@[simp] theorem quit_setNonblocking (s : Machine) (pid : Int) (n : Nat) :
    (s.setNonblocking pid n).loop.quit = s.loop.quit := by
  induction n generalizing s with
  | zero => rfl
  | succ n ih =>
    unfold setNonblocking
    dsimp only
    rw [ih]
    split <;> simp

@[simp] theorem quit_watchStream (s : Machine) (h g : Nat) (pid : Int) (st : Stream) (mode : Stdio) :
    (s.watchStream h g pid st mode).2.loop.quit = s.loop.quit := by
  unfold watchStream
  split <;> rfl

@[simp] theorem quit_adopt (s : Machine) (h : Nat) (c : Command) (e : Execution) (pid : Int) :
    (s.adopt h c e pid).loop.quit = s.loop.quit := by
  unfold adopt
  simp

@[simp] theorem quit_spawn (s : Machine) (h : Nat) (c : Command) (plan : Kernel.Plan) (execError : Option Int) :
    (s.spawn h c plan execError).2.2.loop.quit = s.loop.quit := by
  unfold spawn
  split
  · rfl
  · dsimp only
    split
    · rfl
    · split
      · simp
      · split <;> simp

/-! ## Plain steps -/

@[simp] theorem control_go (s : Machine) (c : Control) : (s.go c).control = c := rfl

@[simp] theorem control_yield (s : Machine) (v : Value) : (s.yield v).control = .value v := rfl

@[simp] theorem control_yieldAnswer (s : Machine) (a : Answer) : (s.yieldAnswer a).control = .value (.answer a) :=
  rfl

theorem callScript_plain (s : Machine) (x : Script) : Plain s.stack s.loop.quit (s.callScript x) := by
  unfold callScript
  split
  · simp [plain_iff]
  · split <;> simp [plain_iff, Frame.isPlain]

theorem actDone_plain (s : Machine) (tag : String) (rest : List Op) (again : Bool) (a : Answer) :
    Plain s.stack s.loop.quit (s.actDone tag rest again a) := by
  unfold actDone
  dsimp only
  split <;> simp [plain_iff, Frame.isPlain]

theorem invoke_plain (s : Machine) (id : Nat) (cb : Callback) (payload : Loop.Payload) :
    Plain s.stack s.loop.quit (s.invoke id cb payload) := by
  unfold invoke
  cases cb with
  | script x => exact callScript_plain (s.record (.called x.tag payload)) x
  | stream h st g => simp [plain_iff]
  | raise => simp [plain_iff]
  | detached => cases payload <;> simp [plain_iff]
  | reap h g =>
    cases payload with
    | child pid st =>
      dsimp only
      split <;> simp [plain_iff, Frame.isPlain]
    | _ => simp [plain_iff]

theorem finishReap_plain (s : Machine) (h g : Nat) (pid : Int) (st : ExitStatus) :
    Plain s.stack s.loop.quit (s.finishReap h g pid st) := by
  unfold finishReap
  dsimp only
  split <;> simp [plain_iff]

theorem drain_plain (s : Machine) (h : Nat) (st : Stream) (g : Nat) :
    Plain s.stack s.loop.quit (s.drain h st g) := by
  unfold drain
  dsimp only
  split
  · simp [plain_iff]
  · split
    · simp [plain_iff]
    · split
      · simp [plain_iff]
      · simp [plain_iff, Frame.isPlain]
      · split
        · simp [plain_iff]
        · split <;> simp [plain_iff, Frame.isPlain]

theorem emit_plain (s : Machine) (h : Nat) (e : Event) : Plain s.stack s.loop.quit (s.emit h e) := by
  unfold emit
  dsimp only
  split <;> simp [plain_iff]

theorem deliver_plain (s : Machine) (h : Nat) : Plain s.stack s.loop.quit (s.deliver h) := by
  unfold deliver
  dsimp only
  split
  · simp [plain_iff]
  · split <;> simp [plain_iff]

theorem tell_plain (s : Machine) (h : Nat) (e : Event) (done rest : List Subscriber) :
    Plain s.stack s.loop.quit (s.tell h e done rest) := by
  unfold tell
  split
  · simp [plain_iff]
  · simp [plain_iff]
  · next x rest =>
    have hscript := callScript_plain ((s.push (.told h e (done ++ [.script x.next]) rest)).record
      (.told x.tag e)) x
    exact ⟨hscript.stack.under rfl, hscript.control, hscript.quit⟩

theorem startWrite_plain (s : Machine) (w : Writing) : Plain s.stack s.loop.quit (s.startWrite w) := by
  unfold startWrite
  split <;> simp [plain_iff]

theorem write_plain (s : Machine) (w : Writing) (pid : Int) : Plain s.stack s.loop.quit (s.write w pid) := by
  unfold write
  split
  · simp [plain_iff]
  · dsimp only
    split
    · simp [plain_iff]
    · split
      · simp [plain_iff]
      · split <;> simp [plain_iff]

theorem awaitWritable_plain (s : Machine) (w : Writing) (watch : Nat) :
    Plain s.stack s.loop.quit (s.awaitWritable w watch) := by
  unfold awaitWritable
  split
  · simp [plain_iff]
  · split
    · simp [plain_iff]
    · split <;> simp [plain_iff, Frame.isPlain]

theorem wait_plain (s : Machine) (h timeout : Nat) : Plain s.stack s.loop.quit (s.wait h timeout) := by
  unfold wait
  dsimp only
  split <;> simp [plain_iff]

theorem awaitExit_plain (s : Machine) (h deadline : Nat) :
    Plain s.stack s.loop.quit (s.awaitExit h deadline) := by
  unfold awaitExit endWait
  dsimp only
  split
  · simp [plain_iff]
  · split <;> simp [plain_iff, Frame.isPlain]
  · simp [plain_iff]

theorem dispose_plain (s : Machine) (h : Nat) : Plain s.stack s.loop.quit (s.dispose h) := by
  unfold dispose
  split
  · dsimp only
    split <;> simp [plain_iff, Frame.isPlain]
  · simp [plain_iff]

theorem graceOver_plain (s : Machine) (h : Nat) (r : Except WaitError ExitStatus) :
    Plain s.stack s.loop.quit (s.graceOver h r) := by
  unfold graceOver
  split
  · simp [plain_iff]
  · dsimp only
    split
    · split <;> simp [plain_iff, Frame.isPlain]
    · simp [plain_iff]

theorem startRun_plain (s : Machine) (spec : RunSpec) : Plain s.stack s.loop.quit (s.startRun spec) := by
  unfold startRun
  dsimp only
  split
  · simp [plain_iff]
  · split <;> simp [plain_iff, Frame.isPlain]

theorem runWritten_plain (s : Machine) (run : Running) (total : Nat) (r : Except WriteError Nat) :
    Plain s.stack s.loop.quit (s.runWritten run total r) := by
  unfold runWritten
  split
  · simp [plain_iff]
  · simp [plain_iff]
  · simp [plain_iff, trouble]
  · split <;> simp [plain_iff, trouble, Frame.isPlain]
  · simp [plain_iff, Frame.isPlain]

theorem finishInput_plain (s : Machine) (run : Running) (timedOut : Bool) :
    Plain s.stack s.loop.quit (s.finishInput run timedOut) := by
  unfold finishInput
  dsimp only
  split <;> simp [plain_iff, Frame.isPlain]

theorem finishWait_plain (s : Machine) (run : Running) (waited : Except WaitError ExitStatus) :
    Plain s.stack s.loop.quit (s.finishWait run waited) := by
  unfold finishWait
  dsimp only
  split <;> simp [plain_iff, Frame.isPlain]

theorem answerFor_plain (s : Machine) (h : Nat) (a : Answer) :
    Plain s.stack s.loop.quit (s.answerFor h a) := by
  unfold answerFor
  dsimp only
  split <;> simp [plain_iff, Frame.isPlain]

theorem withTag_plain (s : Machine) (tag : String) {f : Nat → Machine}
    (hf : ∀ id, Plain s.stack s.loop.quit (f id)) : Plain s.stack s.loop.quit (s.withTag tag f) := by
  unfold withTag
  split
  · simp [plain_iff]
  · exact hf _

theorem perform_plain (s : Machine) {op : Op} (hr : op ≠ .run) (hq : op ≠ .quit) :
    Plain s.stack s.loop.quit (s.perform op) := by
  unfold perform
  cases op with
  | run => exact absurd rfl hr
  | quit => exact absurd rfl hq
  | remove tag => exact withTag_plain s tag fun id => by simp [plain_iff]
  | contains tag => exact withTag_plain s tag fun id => by simp [plain_iff]
  | idOf tag => exact withTag_plain s tag fun id => by simp [plain_iff]
  | drop name =>
    dsimp only
    split
    · simp [plain_iff]
    · split <;> simp [plain_iff, Frame.isPlain]
  | _ => simp [plain_iff, bind, reply, onHandle, Frame.isPlain]

/-- A plain frame to which a value has come back goes on plainly, or waits on. -/
theorem resume_plain (s : Machine) {f : Frame} (v : Value) (hf : f.isPlain = true)
    (hc : s.control ≠ .keepRunning) : Plain s.stack s.loop.quit (s.resume f v) := by
  unfold resume
  split
  · exact actDone_plain ..
  · cases hf
  · cases hf
  · simp [plain_iff]
  · cases hf
  · simp [plain_iff]
  · simp [plain_iff]
  · simp [plain_iff, Frame.isPlain]
  · exact finishReap_plain ..
  · simp [plain_iff]
  · simp [plain_iff]
  · simp [plain_iff]
  · simp [plain_iff]
  · exact graceOver_plain ..
  · simp [plain_iff]
  · exact answerFor_plain ..
  · exact answerFor_plain ..
  · exact answerFor_plain ..
  · simp [plain_iff]
  · exact runWritten_plain ..
  · simp [plain_iff]
  · exact finishWait_plain ..
  · simp [plain_iff]
  · exact ⟨by simpa using hf, hc, rfl⟩

/-- A value has come back to a frame that is not that of a pass or of a running loop, or not the right one
for it. -/
theorem value_plain {v : Value} (hv : s.control = .value v) (hp : s.isLoopStep = false) :
    ∃ K, Plain K s.loop.quit s.step ∧
      (K = s.stack ∨ ∃ v f, s.control = .value v ∧ s.stack = f :: K ∧ f.isPlain = true) := by
  have hrun : s.control ≠ .keepRunning := by simp [hv]
  cases hst : s.stack with
  | nil =>
    have hstep : s.step = s := by simp [step, hv, hst]
    exact ⟨s.stack, by rw [hstep]; exact ⟨grown_self _, hrun, rfl⟩, .inl hst⟩
  | cons f rest =>
    have hstep : s.step = resume { s with stack := rest } f v := by simp [step, hv, hst]
    cases hf : f.isPlain with
    | true =>
      refine ⟨rest, ?_, .inr ⟨v, f, hv, rfl, hf⟩⟩
      rw [hstep]
      exact resume_plain { s with stack := rest } v hf hrun
    | false =>
      -- the value is not of the kind that the frame waits for, so it waits on
      have hback : s.step = Machine.push { s with stack := rest } f := by
        rw [hstep]
        unfold isLoopStep at hp
        rw [hv, hst] at hp
        cases f with
        | settle id cb => cases v <;> first | rfl | simp at hp
        | dispatch ids now => simp at hp
        | running => cases v <;> first | rfl | simp at hp
        | _ => cases hf
      exact ⟨f :: rest, by rw [hback]; exact ⟨grown_self _, hrun, rfl⟩, .inl rfl⟩

/-- A step that is not one of a pass or of a running loop is plain. -/
theorem plain_step (hp : s.isLoopStep = false) : ∃ K, Plain K s.loop.quit s.step ∧
    (K = s.stack ∨ ∃ v f, s.control = .value v ∧ s.stack = f :: K ∧ f.isPlain = true) := by
  have here : ∀ {t}, s.step = t → Plain s.stack s.loop.quit t → ∃ K, Plain K s.loop.quit s.step ∧
      (K = s.stack ∨ ∃ v f, s.control = .value v ∧ s.stack = f :: K ∧ f.isPlain = true) :=
    fun ht h => ⟨s.stack, by rwa [ht], .inl rfl⟩
  cases hc : s.control with
  | value v => exact hc ▸ value_plain hc hp
  | pass b => simp [isLoopStep, hc] at hp
  | dispatch ids now ran => simp [isLoopStep, hc] at hp
  | keepRunning => simp [isLoopStep, hc] at hp
  | perform op =>
    have hop : op ≠ .run ∧ op ≠ .quit := by
      constructor <;> rintro rfl <;> simp [isLoopStep, hc] at hp
    exact hc ▸ here (by rw [step, hc]) (perform_plain s hop.1 hop.2)
  | invoke id cb payload => exact hc ▸ here (by rw [step, hc]) (invoke_plain s id cb payload)
  | drain h st g => exact hc ▸ here (by rw [step, hc]) (drain_plain s h st g)
  | emit h e => exact hc ▸ here (by rw [step, hc]) (emit_plain s h e)
  | deliver h => exact hc ▸ here (by rw [step, hc]) (deliver_plain s h)
  | tell h e done rest => exact hc ▸ here (by rw [step, hc]) (tell_plain s h e done rest)
  | startWrite w => exact hc ▸ here (by rw [step, hc]) (startWrite_plain s w)
  | write w pid => exact hc ▸ here (by rw [step, hc]) (write_plain s w pid)
  | awaitWritable w watch => exact hc ▸ here (by rw [step, hc]) (awaitWritable_plain s w watch)
  | wait h timeout => exact hc ▸ here (by rw [step, hc]) (wait_plain s h timeout)
  | awaitExit h deadline => exact hc ▸ here (by rw [step, hc]) (awaitExit_plain s h deadline)
  | dispose h => exact hc ▸ here (by rw [step, hc]) (dispose_plain s h)
  | isolated spec => exact hc ▸ here (by rw [step, hc]) (startRun_plain s spec)
  | finishInput run timedOut => exact hc ▸ here (by rw [step, hc]) (finishInput_plain s run timedOut)
  | finishWait run waited => exact hc ▸ here (by rw [step, hc]) (finishWait_plain s run waited)
  | suspended spec => exact hc ▸ here (by rw [step, hc]) ⟨grown_self _, by simp [hc], rfl⟩

theorem loopStep_of_isLoopStep (hp : s.isLoopStep = true) : LoopStep s := by
  unfold isLoopStep at hp
  split at hp
  · next b hc => exact .pass b hc
  · next ids now ran hc => exact .dispatch ids now ran hc
  · next hc => exact .runsOn hc
  · next hc => exact .run hc
  · next hc => exact .quit hc
  · next v ids now K hc hst => exact .called v ids now K hc hst
  · next b id cb K hc hst => exact .settled id cb b K hc hst
  · next p K hc hst => exact .passed p K hc hst
  · cases hp

/-! ## Passes and running loops -/

theorem step_value {v : Value} {f : Frame} {rest : List Frame} (hctl : s.control = .value v)
    (hst : s.stack = f :: rest) : s.step = resume { s with stack := rest } f v := by
  unfold step
  rw [hctl, hst]

theorem suffix_dispatch (s : Machine) (ids : List Nat) (now : Nat) (ran : Bool) :
    s.stack <:+ (s.dispatch ids now ran).stack := by
  unfold dispatch
  split
  · exact List.suffix_rfl
  · split
    · exact List.suffix_rfl
    · dsimp only
      split
      · exact List.suffix_cons _ _
      · exact (List.suffix_cons _ _).trans (List.suffix_cons _ _)

@[simp] theorem stack_settle (s : Machine) (id : Nat) (cb : Callback) (b : Bool) :
    (s.settle id cb b).stack = s.stack := by
  unfold settle
  dsimp only
  split <;> rfl

theorem suffix_keepRunning (s : Machine) : s.stack <:+ s.keepRunning.stack := by
  unfold keepRunning
  split
  · exact List.suffix_rfl
  · exact List.suffix_cons _ _

@[simp] theorem stack_ranOn (s : Machine) (p : Pass) : (s.ranOn p).stack = s.stack := by
  cases p <;> rfl

/-- A step leaves alone what stands below the frame that a value has come back to. -/
theorem suffix_resume (s : Machine) (f : Frame) (v : Value) (hc : s.control ≠ .keepRunning) :
    s.stack <:+ (s.resume f v).stack := by
  cases hf : f.isPlain with
  | true => exact (resume_plain s v hf hc).stack.suffix
  | false =>
    cases f with
    | settle id cb =>
      cases v with
      | again b =>
        show s.stack <:+ (s.settle id cb b).stack
        simp
      | _ => exact List.suffix_cons _ _
    | dispatch ids now => exact List.suffix_rfl
    | running =>
      cases v with
      | passed p =>
        show s.stack <:+ (s.ranOn p).stack
        simp
      | _ => exact List.suffix_cons _ _
    | _ => cases hf

end Machine

end Overseer
