import Overseer.Proofs.Calls
import Overseer.Proofs.SilentChanges

/-!
# Callbacks that leave a handle alone

A call that pumps the loop waits below whatever the callbacks of other watches do.  As long as they carry
out no operation upon its handle, they do not close the handle, and they do not touch its deadline.

    aloof c, aloof f   =  control and frame are not about the handle h and the deadline i
    shuns s t          =  from s to t only aloof frames came upon the stack, and h was not closed

The watches that a pass has still to run, and the callback that it is about to call, are left to whoever
uses this: P says what is known of the former, and R of the latter.

Main statement: `aloof_step`.
-/

namespace Overseer

open Supervisor
open Kernel (Stream)

namespace Supervisor

/-- The handle that an operation is upon. -/
def Op.name? : Op → Option String
  | spawn name _ _ _ => some name
  | write name _ => some name
  | writeTimeout name _ _ => some name
  | closeStdin name => some name
  | close name => some name
  | dispose name => some name
  | wait name _ => some name
  | kill name _ => some name
  | subscribe name _ => some name
  | drain name => some name
  | isRunning name => some name
  | command name => some name
  | inspect name => some name
  | drop name => some name
  | _ => none

/-- A frame that is not about the handle `h` and the deadline `i`. -/
def Frame.Aloof (h i : Nat) (P : List Nat → Nat → Prop) : Frame → Prop
  | dispatch rest now => P rest now
  | writing _ watch => watch ≠ i
  | writeDeadline deadline => deadline ≠ i
  | waiting _ deadline => deadline ≠ i
  | grace h' => h' ≠ h
  | killed h' => h' ≠ h
  | reply h' => h' ≠ h
  | runWritten .. => False
  | runAborted .. => False
  | runWaited _ => False
  | runDisposed .. => False
  | _ => True

/-- A control that is not about the handle `h` and the deadline `i`. -/
def Control.Aloof (h i : Nat) (P : List Nat → Nat → Prop) (R : Prop) : Control → Prop
  | dispatch ids now _ => P ids now
  | invoke id _ _ => id = i → R
  | awaitWritable _ watch => watch ≠ i
  | awaitExit _ deadline => deadline ≠ i
  | dispose h' => h' ≠ h
  | isolated _ => False
  | finishInput .. => False
  | finishWait .. => False
  | _ => True

theorem Frame.Aloof.mono {h i : Nat} {P P' : List Nat → Nat → Prop} (hp : ∀ ids now, P ids now → P' ids now)
    {f : Frame} (hf : f.Aloof h i P) : f.Aloof h i P' := by
  cases f with
  | dispatch rest now => exact hp rest now hf
  | _ => exact hf

theorem Control.Aloof.mono {h i : Nat} {P P' : List Nat → Nat → Prop} {R R' : Prop}
    (hp : ∀ ids now, P ids now → P' ids now) (hr : R → R') {c : Control} (hc : c.Aloof h i P R) :
    c.Aloof h i P' R' := by
  cases c with
  | dispatch ids now ran => exact hp ids now hc
  | invoke id cb payload => exact fun hi => hr (hc hi)
  | _ => exact hc

end Supervisor

namespace Machine

/-- The handle that the next step carries out an operation upon. -/
def upon? (s : Machine) : Option Nat :=
  match s.control with
  | .perform op => op.name?.map fun name => (s.resolve name).1
  | _ => none

/-- Only aloof frames have come upon the stack, and the handle has not been closed. -/
structure Shuns (h i : Nat) (P : List Nat → Nat → Prop) (s t : Machine) : Prop where
  stack : ∃ B, t.stack = B ++ s.stack ∧ ∀ f ∈ B, f.Aloof h i P
  state : (t.handle h).state = .closed → (s.handle h).state = .closed

/-- The machine goes on with an aloof control as well. -/
structure Parts (h i : Nat) (P : List Nat → Nat → Prop) (R : Prop) (s t : Machine) :
    Prop extends Shuns h i P s t where
  control : t.control.Aloof h i P R

variable {s t u : Machine} {h i : Nat} {P : List Nat → Nat → Prop} {R : Prop}

/-! ## Small changes -/

namespace Shuns

theorem refl (s : Machine) : Shuns h i P s s := ⟨⟨[], rfl, by simp⟩, id⟩

theorem trans (hs : Shuns h i P s t) (h' : Shuns h i P t u) : Shuns h i P s u := by
  obtain ⟨B, hB, hf⟩ := hs.stack
  obtain ⟨B', hB', hf'⟩ := h'.stack
  refine ⟨⟨B' ++ B, by rw [hB', hB, List.append_assoc], fun f hm => ?_⟩, fun hc => hs.state (h'.state hc)⟩
  rcases List.mem_append.1 hm with hm | hm
  · exact hf' f hm
  · exact hf f hm

/-- Handles and stack are as they were. -/
theorem same (hs : Shuns h i P s t) (hh : u.handle h = t.handle h) (hst : u.stack = t.stack) : Shuns h i P s u :=
  hs.trans ⟨⟨[], hst, by simp⟩, fun hc => by rwa [hh] at hc⟩

theorem record (hs : Shuns h i P s t) (e : Entry) : Shuns h i P s (t.record e) := hs.same rfl rfl

theorem mute (hs : Shuns h i P s t) (hm : Mute t u) (hst : u.stack = t.stack) : Shuns h i P s u := by
  refine hs.trans ⟨⟨[], hst, by simp⟩, fun hc => ?_⟩
  have hstate : (u.handle h).state = (t.handle h).state := congrArg Prod.fst (hm.stance h)
  rwa [hstate] at hc

theorem push (hs : Shuns h i P s t) {f : Frame} (hf : f.Aloof h i P) : Shuns h i P s (t.push f) :=
  hs.trans ⟨⟨[f], rfl, by simpa using hf⟩, id⟩

theorem note (hs : Shuns h i P s t) (n : Notice) : Shuns h i P s (t.note n) :=
  hs.mute ((Mute.refl t).note n) (stack_note t n)

theorem mapHandle (hs : Shuns h i P s t) (j : Nat) {f : Handle → Handle}
    (hf : ∀ x, (f x).state = .closed → x.state = .closed) :
    Shuns h i P s (t.mapHandle j f) := by
  refine hs.trans ⟨⟨[], rfl, by simp⟩, fun hc => ?_⟩
  rw [handle_mapHandle] at hc
  split at hc
  · next hj =>
    rw [hj.1]
    exact hf _ hc
  · exact hc

theorem kill (hs : Shuns h i P s t) (j : Nat) (sig : Int) : Shuns h i P s (t.kill j sig).2 :=
  hs.mute ((Mute.refl t).kill j sig) (stack_kill t j sig)

theorem resolve (hs : Shuns h i P s t) (name : String) : Shuns h i P s (t.resolve name).2 :=
  hs.same (handle_resolve t name h) (stack_resolve t name)

theorem releaseStream (hs : Shuns h i P s t) (j : Nat) (st : Stream) : Shuns h i P s (t.releaseStream j st) :=
  hs.mute ((Mute.refl t).releaseStream j st) (stack_releaseStream t j st)

theorem closeStdin (hs : Shuns h i P s t) (j : Nat) : Shuns h i P s (t.closeStdin j) :=
  hs.mute ((Mute.refl t).closeStdin j) (stack_closeStdin t j)

theorem close (hs : Shuns h i P s t) {j : Nat} (hj : j ≠ h) : Shuns h i P s (t.close j) := by
  refine hs.same ?_ (stack_close t j)
  by_cases hlive : (t.handle j).state = .running ∨ (t.handle j).state = .reaped
  · exact (closed_close t hlive).others h hj.symm
  · rw [close_eq_self t hlive]

theorem spawn (hs : Shuns h i P s t) {j : Nat} (hj : j ≠ h) (c : Command) (plan : Kernel.Plan)
    (execError : Option Int) :
    Shuns h i P s (t.spawn j c plan execError).2.2 := by
  refine hs.same ?_ (stack_spawn t j c plan execError)
  rcases spawn_cases t j c plan execError with ⟨e, -, hh, -⟩ | ⟨-, e, pid, k, hu⟩
  · rw [handle, handle, hh]
  · rw [hu]
    exact (adopted_adopt _ j c e pid).others h (.inl hj.symm)

end Shuns

namespace Parts

theorem go (hs : Shuns h i P s t) {c : Control} (hc : c.Aloof h i P R) : Parts h i P R s (t.go c) :=
  ⟨hs.same rfl rfl, hc⟩

theorem yield (hs : Shuns h i P s t) (v : Value) : Parts h i P R s (t.yield v) := ⟨hs.same rfl rfl, trivial⟩

/-- Nothing more has changed than the control. -/
theorem goOn (hs : Shuns h i P s t) (hh : u.handle h = t.handle h) (hst : u.stack = t.stack)
    (hc : u.control.Aloof h i P R) : Parts h i P R s u :=
  ⟨hs.same hh hst, hc⟩

/-- One aloof frame more waits for a value. -/
theorem call (hs : Shuns h i P s t) {f : Frame} (hh : u.handle h = t.handle h) (hst : u.stack = f :: t.stack)
    (hf : f.Aloof h i P) (hc : u.control.Aloof h i P R) : Parts h i P R s u :=
  ⟨(hs.push hf).same hh hst, hc⟩

end Parts

/-! ## Callbacks -/

theorem settle_parts (id : Nat) (cb : Callback) (again : Bool) : Parts h i P R s (s.settle id cb again) := by
  unfold settle
  dsimp only
  split
  · exact .goOn (.refl s) rfl rfl trivial
  · exact .goOn (.refl s) rfl rfl trivial

theorem callScript_parts (hs : Shuns h i P s t) (x : Script) : Parts h i P R s (t.callScript x) := by
  unfold callScript
  split
  · exact .yield hs _
  · split
    · exact .yield hs _
    · exact .call hs rfl rfl trivial trivial

theorem actDone_parts (tag : String) (rest : List Op) (again : Bool) (a : Answer) :
    Parts h i P R s (s.actDone tag rest again a) := by
  unfold actDone
  dsimp only
  split
  · exact .goOn (.refl s) rfl rfl trivial
  · exact .call (.refl s) rfl rfl trivial trivial

theorem invoke_parts (id : Nat) (cb : Callback) (payload : Loop.Payload) :
    Parts h i P R s (s.invoke id cb payload) := by
  cases cb with
  | script x => exact callScript_parts (.record (.refl s) (.called x.tag payload)) x
  | stream j st g => exact .go (.refl s) trivial
  | raise => exact .goOn (.refl s) rfl rfl trivial
  | detached =>
    unfold invoke
    dsimp only
    split
    · exact .yield (.note (.refl s) _) _
    · exact .yield (.refl s) _
  | reap j g =>
    unfold invoke
    dsimp only
    split
    · split
      · exact .yield (.note (.refl s) _) _
      · exact .call (.refl s) rfl rfl trivial trivial
    · exact .yield (.refl s) _

theorem finishReap_parts (j g : Nat) (pid : Int) (st : ExitStatus) : Parts h i P R s (s.finishReap j g pid st) := by
  unfold finishReap
  dsimp only
  split
  · exact .yield (.refl s) _
  · exact .go (.note (.mapHandle (.refl s) j (by simp)) _) trivial

/-! ## Passes -/

theorem dispatch_parts {ids : List Nat} {now : Nat} (ran : Bool) (hnext : ∀ id rest, ids = id :: rest → P rest now)
    (hring : ∀ rest job l, ids = i :: rest → s.loop.take i now = some (job, l) → R) :
    Parts h i P R s (s.dispatch ids now ran) := by
  unfold dispatch
  split
  · exact .yield (.refl s) _
  · next id rest =>
    split
    · exact .go (.refl s) (hnext id rest rfl)
    · next job l htake =>
      have hcall : id = i → R := by
        rintro rfl
        exact hring rest job l rfl htake
      have htaken : Shuns h i P s (Machine.record { s with loop := l } (.started s.kernel.now id job.payload)) :=
        (Shuns.refl s).same rfl rfl
      dsimp only
      split
      · exact .call htaken rfl rfl (hnext id rest rfl) hcall
      · exact .call (htaken.push (f := .dispatch rest now) (hnext id rest rfl)) rfl rfl trivial hcall

theorem pass_parts (b : Bool) (hids : ∀ ids now ran, (s.pass b).control = .dispatch ids now ran → P ids now) :
    Parts h i P R s (s.pass b) := by
  have honly := loopOnly_pass s b
  have hhandle : (s.pass b).handle h = s.handle h := by rw [handle, handle, honly.handles]
  refine ⟨(Shuns.refl s).same hhandle honly.stack, ?_⟩
  cases opening s b with
  | stalled hr ht h' => rw [h']; trivial
  | failed k code hk h' => rw [h']; trivial
  | deadlock k hk h' => rw [h']; trivial
  | quiet k revents hk hempty h' => rw [h']; trivial
  | chosen k revents ids hk hne hchosen h' =>
    rw [h'] at hids ⊢
    exact hids _ _ _ rfl

/-! ## Streams and events -/

theorem drain_parts (j : Nat) (st : Stream) (g : Nat) : Parts h i P R s (s.drain j st g) := by
  unfold drain
  dsimp only
  split
  · exact .yield (.refl s) _
  · split
    · exact .yield (.refl s) _
    · next p _ =>
      have hread : ∀ r, Shuns h i P s ((s.withKernel (s.kernel.read p.pid st s.config.chunk).2).record
          (.read j g st r)) := fun r => .same (.refl s) rfl rfl
      split
      · exact .yield (.releaseStream (.note (hread _) _) j st) _
      · exact .call (hread _) rfl rfl trivial trivial
      · split
        · exact .go (hread _) trivial
        · split
          · exact .yield (hread _) _
          · exact .call (.releaseStream (.note (hread _) _) j st) rfl rfl trivial trivial

theorem emit_parts (j : Nat) (e : Event) : Parts h i P R s (s.emit j e) := by
  have hsaid : Shuns h i P s (s.record (.emitted j (s.handle j).generation e)) := .same (.refl s) rfl rfl
  unfold emit
  dsimp only
  split
  · exact .yield (hsaid.mapHandle j (by exact fun _ hc => hc)) _
  · exact .go (hsaid.mapHandle j (by exact fun _ hc => hc)) trivial

theorem deliver_parts (j : Nat) : Parts h i P R s (s.deliver j) := by
  unfold deliver
  dsimp only
  split
  · exact .yield (.mapHandle (.refl s) j (by exact fun _ hc => hc)) _
  · next e rest _ =>
    have htaken : Shuns h i P s (s.mapHandle j fun x => { x with outbox := rest }) :=
      .mapHandle (.refl s) j fun _ hc => hc
    split
    · exact .goOn (htaken.mapHandle j (by exact fun _ hc => hc)) rfl rfl trivial
    · next subs _ =>
      have hsaid := htaken.record (.delivering j e subs.length)
      exact .goOn (hsaid.mapHandle (f := fun x => { x with subscribers := [] }) j fun _ hc => hc) rfl rfl trivial

theorem tell_parts (j : Nat) (e : Event) (done rest : List Subscriber) : Parts h i P R s (s.tell j e done rest) := by
  unfold tell
  split
  · exact .go (.mapHandle (.refl s) j (by exact fun _ hc => hc)) trivial
  · exact .goOn (.refl s) rfl rfl trivial
  · next x rest =>
    have htold : Shuns h i P s (s.push (.told j e (done ++ [.script x.next]) rest)) := .push (.refl s) trivial
    exact callScript_parts (htold.record (.told x.tag e)) x

/-! ## Writing, waiting and disposing -/

theorem startWrite_parts (w : Writing) : Parts h i P R s (s.startWrite w) := by
  unfold startWrite
  split
  · exact .yield (.refl s) _
  · exact .go (.refl s) trivial

theorem write_parts (hi : i ≤ s.loop.lastId) (w : Writing) (pid : Int) : Parts h i P R s (s.write w pid) := by
  unfold write
  split
  · exact .yield (.refl s) _
  · have hwrote : ∀ k r, Shuns h i P s ((s.withKernel k).record
        (.wrote w.h (s.handle w.h).generation pid w.rest r)) := fun k r => .same (.refl s) rfl rfl
    have hfresh : s.loop.lastId + 1 ≠ i := by omega
    dsimp only
    split
    · exact .go (hwrote _ _) trivial
    · split
      · exact .go (hwrote _ _) trivial
      · split
        · exact .goOn (hwrote (s.kernel.write pid w.rest).2 (s.kernel.write pid w.rest).1) rfl rfl hfresh
        · exact .yield (.note (hwrote _ _) _) _

theorem awaitWritable_parts (w : Writing) {watch : Nat} (hw : watch ≠ i) :
    Parts h i P R s (s.awaitWritable w watch) := by
  unfold awaitWritable
  split
  · exact .goOn (.refl s) rfl rfl trivial
  · split
    · exact .goOn (.refl s) rfl rfl trivial
    · split
      · exact .goOn (.note (.refl s) _) rfl rfl trivial
      · exact .call (.refl s) rfl rfl hw trivial

theorem wait_parts (hi : i ≤ s.loop.lastId) (j timeout : Nat) : Parts h i P R s (s.wait j timeout) := by
  have hfresh : s.loop.lastId + 1 ≠ i := by omega
  unfold wait
  dsimp only
  split
  · exact .yield (.refl s) _
  · exact .goOn (.refl s) rfl rfl hfresh
  · exact .yield (.refl s) _

theorem awaitExit_parts (j : Nat) {deadline : Nat} (hd : deadline ≠ i) :
    Parts h i P R s (s.awaitExit j deadline) := by
  have hend : ∀ r, Parts h i P R s (s.endWait deadline r) := fun r => .goOn (.refl s) rfl rfl trivial
  unfold awaitExit
  dsimp only
  split
  · exact hend _
  · split
    · exact hend _
    · exact .call (.refl s) rfl rfl hd trivial
  · exact hend _

theorem dispose_parts {j : Nat} (hj : j ≠ h) : Parts h i P R s (s.dispose j) := by
  unfold dispose
  split
  · dsimp only
    split
    · exact .call (.kill (.refl s) j _) rfl rfl hj trivial
    · exact .call (.note (.kill (.refl s) j _) _) rfl rfl hj trivial
  · exact .yield (.close (.refl s) hj) _

theorem graceOver_parts {j : Nat} (hj : j ≠ h) (r : Except WaitError ExitStatus) :
    Parts h i P R s (s.graceOver j r) := by
  unfold graceOver
  split
  · exact .yield (.close (.refl s) hj) _
  · dsimp only
    split
    · split
      · exact .call (.kill (.note (.refl s) _) j _) rfl rfl hj trivial
      · exact .call (.note (.kill (.note (.refl s) _) j _) _) rfl rfl hj trivial
    · exact .yield (.close (.refl s) hj) _

/-! ## Operations -/

theorem withTag_parts (tag : String) {f : Nat → Machine} (hf : ∀ id, Parts h i P R s (f id)) :
    Parts h i P R s (s.withTag tag f) := by
  unfold withTag
  split
  · exact .yield (.refl s) _
  · exact hf _

theorem perform_parts (hi : i ≤ s.loop.lastId) {op : Op}
    (hop : ∀ name, op.name? = some name → (s.resolve name).1 ≠ h) :
    Parts h i P R s (s.perform op) := by
  have hat : ∀ name, Shuns h i P s (s.resolve name).2 := fun name => .resolve (.refl s) name
  cases op with
  | idle priority x => exact .goOn (.refl s) rfl rfl trivial
  | timer interval priority x => exact .goOn (.refl s) rfl rfl trivial
  | io fd interest x => exact .goOn (.refl s) rfl rfl trivial
  | childWatch pid priority x => exact .goOn (.refl s) rfl rfl trivial
  | remove tag => exact withTag_parts tag fun id => .goOn (.refl s) rfl rfl trivial
  | contains tag => exact withTag_parts tag fun id => .goOn (.refl s) rfl rfl trivial
  | idOf tag => exact withTag_parts tag fun id => .goOn (.refl s) rfl rfl trivial
  | size => exact .yield (.refl s) _
  | inspectLoop => exact .yield (.refl s) _
  | inspectSupervisor => exact .yield (.refl s) _
  | iterate block => exact .call (.refl s) rfl rfl trivial trivial
  | run => exact .goOn (.refl s) rfl rfl trivial
  | quit => exact .goOn (.refl s) rfl rfl trivial
  | spawn name c plan execError => exact .goOn (.spawn (hat name) (hop name rfl) c plan execError) rfl rfl trivial
  | write name data => exact .call (hat name) rfl rfl (hop name rfl) trivial
  | writeTimeout name data timeout =>
    have hfresh : (s.resolve name).2.loop.lastId + 1 ≠ i := by
      rw [loop_resolve]
      omega
    exact .call (.push (f := .reply _) (hat name) (hop name rfl)) rfl rfl hfresh trivial
  | closeStdin name => exact .goOn (.closeStdin (hat name) _) rfl rfl trivial
  | close name => exact .goOn (.close (hat name) (hop name rfl)) rfl rfl trivial
  | dispose name => exact .call (hat name) rfl rfl (hop name rfl) (hop name rfl)
  | wait name timeout => exact .call (hat name) rfl rfl (hop name rfl) trivial
  | kill name sig => exact .goOn (.kill (hat name) _ sig) rfl rfl trivial
  | subscribe name x => exact .goOn (.mapHandle (hat name) _ (by exact fun _ hc => hc)) rfl rfl trivial
  | drain name => exact .goOn (.mapHandle (hat name) _ (by exact fun _ hc => hc)) rfl rfl trivial
  | isRunning name => exact .goOn (hat name) rfl rfl trivial
  | command name => exact .goOn (hat name) rfl rfl trivial
  | inspect name => exact .goOn (hat name) rfl rfl trivial
  | drop name =>
    unfold perform
    dsimp only
    split
    · exact .yield (.refl s) _
    · next j hlook =>
      have hj : j ≠ h := by
        have hne := hop name rfl
        rwa [resolve, hlook] at hne
      split
      · exact .goOn (.mapHandle (f := fun y => { y with orphan := true }) (.refl s) j fun _ hc => hc) rfl rfl trivial
      · exact .call (.refl s) rfl rfl trivial hj
  | event e => exact .goOn (.refl s) rfl rfl trivial
  | schedule time e => exact .goOn (.refl s) rfl rfl trivial
  | advance ns => exact .goOn (.refl s) rfl rfl trivial
  | consumed pid => exact .goOn (.refl s) rfl rfl trivial
  | isolated spec => exact .goOn (.refl s) rfl rfl trivial

theorem keepRunning_parts : Parts h i P R s s.keepRunning := by
  unfold keepRunning
  split
  · exact .goOn (.refl s) rfl rfl trivial
  · exact .call (.refl s) rfl rfl trivial trivial

/-! ## Values -/

theorem answerFor_parts {j : Nat} (hj : j ≠ h) (a : Answer) : Parts h i P R s (s.answerFor j a) := by
  unfold answerFor
  dsimp only
  split
  · exact .call (.mapHandle (f := fun y => { y with orphan := false }) (.refl s) j fun _ hc => hc) rfl rfl trivial hj
  · exact .yield (.refl s) _

theorem ranOn_parts (p : Pass) : Parts h i P R s (s.ranOn p) := by
  unfold ranOn
  split
  · exact .goOn (.refl s) rfl rfl trivial
  · exact .go (.refl s) trivial

theorem resume_parts {f : Frame} {v : Value} (hf : f.Aloof h i P) (hv : s.control = .value v) :
    Parts h i P R s (s.resume f v) := by
  unfold resume
  split
  · exact actDone_parts ..
  · exact settle_parts ..
  · exact .go (.refl s) hf
  · exact .yield (.refl s) _
  · exact ranOn_parts _
  · exact .go (.refl s) trivial
  · exact .yield (.refl s) _
  · exact .call (.refl s) rfl rfl trivial trivial
  · exact finishReap_parts ..
  · exact .go (.refl s) trivial
  · exact .go (.refl s) hf
  · exact .goOn (.refl s) rfl rfl trivial
  · exact .go (.refl s) hf
  · exact graceOver_parts hf _
  · exact .yield (.close (.refl s) hf) _
  · exact answerFor_parts hf _
  · exact answerFor_parts hf _
  · exact answerFor_parts hf _
  · exact .yield (.refl s) _
  · exact hf.elim
  · exact hf.elim
  · exact hf.elim
  · exact hf.elim
  · exact .call (.refl s) rfl rfl hf (by rw [show (s.push f).control = .value v from hv]; trivial)

/-! ## One step -/

/-- A step above a call that waits leaves the call, its handle and its deadline alone, provided that it
does so with the watches of a pass. -/
theorem aloof_step {A K : List Frame} {wf : Frame} {Q : List Nat → Nat → Prop} {R' : Prop}
    (hst : s.stack = A ++ wf :: K) (hA : ∀ f ∈ A, f.Aloof h i P) (hctl : s.control.Aloof h i Q R')
    (hi : i ≤ s.loop.lastId) (hleave : s.upon? ≠ some h) (hbusy : A = [] → ∀ v, s.control ≠ .value v)
    (hnext : ∀ id rest now ran, s.control = .dispatch (id :: rest) now ran → P rest now)
    (hring : ∀ rest now ran job l, s.control = .dispatch (i :: rest) now ran →
      s.loop.take i now = some (job, l) → R)
    (hpass : ∀ b ids now ran, s.control = .pass b → s.step.control = .dispatch ids now ran → P ids now) :
    (∃ A', s.step.stack = A' ++ wf :: K ∧ ∀ f ∈ A', f.Aloof h i P) ∧ s.step.control.Aloof h i P R ∧
      ((s.step.handle h).state = .closed → (s.handle h).state = .closed) := by
  have plain : Parts h i P R s s.step → (∃ A', s.step.stack = A' ++ wf :: K ∧ ∀ f ∈ A', f.Aloof h i P) ∧
      s.step.control.Aloof h i P R ∧ ((s.step.handle h).state = .closed → (s.handle h).state = .closed) := by
    rintro ⟨⟨⟨B, hB, hf⟩, hclosed⟩, hc⟩
    refine ⟨⟨B ++ A, by rw [hB, hst, List.append_assoc], fun f hm => ?_⟩, hc, hclosed⟩
    rcases List.mem_append.1 hm with hm | hm
    · exact hf f hm
    · exact hA f hm
  cases hc : s.control with
  | value v =>
    cases A with
    | nil => exact absurd hc (hbusy rfl v)
    | cons f A =>
      have hstep : s.step = { s with stack := A ++ wf :: K }.resume f v := by
        rw [step, hc]
        dsimp only
        rw [hst]
        rfl
      have hres : Parts h i P R { s with stack := A ++ wf :: K } ({ s with stack := A ++ wf :: K }.resume f v) :=
        resume_parts (hA f (List.mem_cons_self ..)) hc
      obtain ⟨⟨⟨B, hB, hf⟩, hclosed⟩, hc'⟩ := hres
      rw [hstep]
      refine ⟨⟨B ++ A, by rw [hB, List.append_assoc], fun g hm => ?_⟩, hc', hclosed⟩
      rcases List.mem_append.1 hm with hm | hm
      · exact hf g hm
      · exact hA g (List.mem_cons_of_mem _ hm)
  | perform op =>
    refine plain ?_
    rw [step, hc]
    exact perform_parts hi fun name hn he => hleave (by rw [upon?, hc]; dsimp only; rw [hn, Option.map_some, he])
  | pass b =>
    refine plain ?_
    have hstep : s.step = s.pass b := by rw [step, hc]
    rw [hstep]
    refine pass_parts b fun ids now ran hd => hpass b ids now ran hc ?_
    rw [hstep, hd]
  | dispatch rest now ran =>
    refine plain ?_
    rw [step, hc]
    refine dispatch_parts ran (fun id rest' he => hnext id rest' now ran (by rw [hc, he])) ?_
    exact fun rest' job l he ht => hring rest' now ran job l (by rw [hc, he]) ht
  | invoke id cb payload => exact plain (by rw [step, hc]; exact invoke_parts ..)
  | keepRunning => exact plain (by rw [step, hc]; exact keepRunning_parts)
  | drain j st g => exact plain (by rw [step, hc]; exact drain_parts ..)
  | emit j e => exact plain (by rw [step, hc]; exact emit_parts ..)
  | deliver j => exact plain (by rw [step, hc]; exact deliver_parts ..)
  | tell j e done rest => exact plain (by rw [step, hc]; exact tell_parts ..)
  | startWrite w => exact plain (by rw [step, hc]; exact startWrite_parts w)
  | write w pid => exact plain (by rw [step, hc]; exact write_parts hi w pid)
  | awaitWritable w watch =>
    rw [hc] at hctl
    exact plain (by rw [step, hc]; exact awaitWritable_parts w hctl)
  | wait j timeout => exact plain (by rw [step, hc]; exact wait_parts hi j timeout)
  | awaitExit j deadline =>
    rw [hc] at hctl
    exact plain (by rw [step, hc]; exact awaitExit_parts j hctl)
  | dispose j =>
    rw [hc] at hctl
    exact plain (by rw [step, hc]; exact dispose_parts hctl)
  | isolated spec =>
    rw [hc] at hctl
    exact hctl.elim
  | finishInput r t =>
    rw [hc] at hctl
    exact hctl.elim
  | finishWait r w =>
    rw [hc] at hctl
    exact hctl.elim
  | suspended spec =>
    refine plain ?_
    have hstep : s.step = s := by rw [step, hc]
    rw [hstep]
    exact ⟨.refl s, by rw [hc]; trivial⟩

end Machine

end Overseer
