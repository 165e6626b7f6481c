import Overseer.Proofs.Binding
import Overseer.Proofs.Limits

/-!
# What a write delivers

A write passes what is left of its payload to the kernel until nothing is left, and pumps the loop while there is no
room.  Each of its own calls of the kernel takes a part off the front of what is left, or nothing.

    begun  →  writing  ⇄  awaiting  ⇄  pumping        writing, awaiting  →  done  →  returned

    accepted ++ rest = payload,   written = length of accepted       as long as it goes on

What callbacks do meanwhile, upon the same handle as well, does not count: the steps of the write itself
are those that are made upon the frames with which it has begun.

Main statement: `write_delivers`.
-/

namespace Overseer

open Supervisor
open Os (Failure)

/-- The kernel takes no more than it is given. -/
theorem Kernel.write_le {k : Kernel} {pid : Int} {data : Bytes} {n : Nat} (h : (k.write pid data).1 = .ok n) :
    n ≤ data.length := by
  unfold Kernel.write at h
  split at h
  · cases h
  · split at h
    · cases h
    · split at h
      · cases h
      · split at h
        · cases h
        · dsimp only at h
          split at h
          · cases h
          · cases h
            exact List.length_take_le' _ _

namespace Supervisor

/-- The bytes that a call of the kernel has taken. -/
def Entry.taken : Entry → Bytes
  | wrote _ _ _ data (.ok n) => data.take n
  | _ => []

/-- The kernel had no room. -/
def Entry.isRefusal : Entry → Bool
  | wrote _ _ _ _ (.error e) => e == Failure.wouldBlock
  | _ => false

/-- What a call is to deliver: the payload, for a handle, by the time at which a timer is due, if there is
one, and the frames of its callers. -/
structure Order where
  h : Nat
  payload : Bytes
  deadline : Option Nat
  due : Nat
  callers : List Frame

/-- The frames upon which the steps of the write itself are made. -/
def Order.base (o : Order) : List Frame := o.deadline.toList.map Frame.writeDeadline ++ o.callers

end Supervisor

namespace Machine

/-- The bytes that the step from a machine passes to the kernel, if its stack is as high as this. -/
def passed (height : Nat) (m : Machine) : Bytes :=
  if m.stack.length = height then m.news.reverse.flatMap Entry.taken else []

/-- The bytes that have been taken, the first ones first, where the last machine stepped from comes first. -/
def accepted (height : Nat) (past : List Machine) : Bytes := past.reverse.flatMap (passed height)

/-- One of the calls of the kernel was refused for want of room. -/
def Refused (height : Nat) (past : List Machine) : Prop :=
  ∃ m ∈ past, m.stack.length = height ∧ m.news.any Entry.isRefusal = true

/-- A write is going to be made in the next steps, with a timeout or without. -/
inductive Asks (h : Nat) (payload : Bytes) (s : Machine) : Option Nat → Prop
  | plain (name : String) (hc : s.control = .perform (.write name payload)) (hh : (s.resolve name).1 = h) :
      Asks h payload s none
  | timed (name : String) (timeout : Nat) (hc : s.control = .perform (.writeTimeout name payload timeout))
      (hh : (s.resolve name).1 = h) : Asks h payload s (some timeout)
  | run (spec : RunSpec) (hc : s.control = .isolated spec) (hh : h = 0) (hp : spec.payload = some payload)
    (w : Writing)
      (hw : s.step.control = .startWrite w) : Asks h payload s (some spec.timeout)

/-- A write has part of its payload taken, and goes on with the rest. -/
structure Underway (o : Order) (w : Writing) (past : List Machine) (s : Machine) : Prop where
  handle : w.h = o.h
  deadline : w.deadline = o.deadline
  split : accepted o.base.length past ++ w.rest = o.payload
  count : w.written = (accepted o.base.length past).length
  limit : ∀ i ∈ o.deadline, Limit i o.due s

/-- What the answer of a write tells. -/
structure Tallied (o : Order) (past : List Machine) (s : Machine) (r : Except WriteError Nat) : Prop where
  front : accepted o.base.length past <+: o.payload
  whole : ∀ n, r = .ok n → n = o.payload.length ∧ accepted o.base.length past = o.payload
  part : ∀ n, r = .error (.timeout n) → n = (accepted o.base.length past).length ∧ n < o.payload.length ∧
    o.deadline.isSome = true ∧ o.due ≤ s.kernel.now ∧ (s.handle o.h).state = .running ∧
    (s.handle o.h).stdin.isSome = true ∧ Refused o.base.length past

/-- Where a write is. -/
inductive Delivering (o : Order) (past : List Machine) (s : Machine) : Prop
  | begun (w : Writing) (hc : s.control = .startWrite w) (hst : s.stack = o.base) (hw : Underway o w past s)
  | writing (w : Writing) (pid : Int) (hc : s.control = .write w pid) (hst : s.stack = o.base)
    (hw : Underway o w past s)
  | awaiting (w : Writing) (watch : Nat) (hc : s.control = .awaitWritable w watch) (hst : s.stack = o.base)
      (hw : Underway o w past s) (hleft : w.rest ≠ []) (hrefused : Refused o.base.length past)
      (hne : watch ∉ o.deadline)
  | pumping (w : Writing) (watch : Nat) (A : List Frame) (hst : s.stack = A ++ .writing w watch :: o.base)
      (hw : Underway o w past s) (hleft : w.rest ≠ []) (hrefused : Refused o.base.length past)
      (hne : watch ∉ o.deadline)
      (hA : ∀ i ∈ o.deadline, Spared i o.due A s)
  | done (r : Except WriteError Nat) (hc : s.control = .value (.wrote r)) (hst : s.stack = o.base)
    (hr : Tallied o past s r)
  | returned (r : Except WriteError Nat) (hc : s.control = .value (.wrote r)) (hst : s.stack = o.callers)
      (hr : Tallied o past s r)

variable {o : Order} {w w' : Writing} {s t : Machine} {h watch height : Nat} {payload : Bytes} {timeout : Option Nat}
  {past : List Machine} {log : List Entry} {r : Except WriteError Nat} {A : List Frame} {pid : Int}

/-! ## Bytes -/

theorem accepted_cons : accepted height (s :: past) = accepted height past ++ passed height s := by
  simp [accepted]

theorem passed_of_news (es : List Entry) (hst : s.stack.length = height) (hj : s.step.journal = es ++ s.journal) :
    passed height s = es.reverse.flatMap Entry.taken := by
  rw [passed, if_pos hst, news_eq hj]

theorem Refused.cons (hr : Refused height past) : Refused height (s :: past) :=
  let ⟨m, hm, hrest⟩ := hr
  ⟨m, List.mem_cons_of_mem s hm, hrest⟩

theorem Underway.front (hw : Underway o w past s) : accepted o.base.length past <+: o.payload := ⟨_, hw.split⟩

/-- A step takes a part off the front of what is left. -/
theorem Underway.step (hw : Underway o w past s) (hh : w'.h = w.h) (hd : w'.deadline = w.deadline)
    (hsplit : passed o.base.length s ++ w'.rest = w.rest)
    (hcount : w'.written = w.written + (passed o.base.length s).length)
    (hlimit : ∀ i ∈ o.deadline, Limit i o.due s.step) :
    Underway o w' (s :: past) s.step := by
  refine ⟨hh.trans hw.handle, hd.trans hw.deadline, ?_, ?_, hlimit⟩
  · rw [accepted_cons, List.append_assoc, hsplit, hw.split]
  · rw [accepted_cons, List.length_append, hcount, hw.count]

/-- A step that passes nothing to the kernel. -/
theorem Underway.keep (hw : Underway o w past s) (hnone : passed o.base.length s = [])
    (hlimit : ∀ i ∈ o.deadline, Limit i o.due s.step) : Underway o w (s :: past) s.step :=
  hw.step rfl rfl (by rw [hnone, List.nil_append]) (by rw [hnone]; rfl) hlimit

theorem Underway.later (hw : Underway o w past s) (hl : Lull s t) (hnow : s.kernel.now ≤ t.kernel.now) :
    Underway o w past t :=
  ⟨hw.handle, hw.deadline, hw.split, hw.count, fun i hi => (hw.limit i hi).later hl hnow⟩

theorem limits_step {trail : List Machine} (ht : Trail trail s log) (hl : ∀ i ∈ o.deadline, Limit i o.due s)
    (hlow : ∀ i ∈ o.deadline, i ∉ s.lowers) (hring : ∀ i payload, s.control ≠ .invoke i .raise payload) :
    ∀ i ∈ o.deadline, Limit i o.due s.step :=
  fun i hi => limit_step ht (hl i hi) (hlow i hi) fun payload hc => absurd hc (hring i payload)

/-! ## Answers -/

/-- An answer that comes of no timeout, and not of the end of the payload. -/
theorem tallied_error {e : WriteError} (hfront : accepted o.base.length past <+: o.payload)
    (he : ∀ n, e ≠ .timeout n) :
    Tallied o past s (.error e) :=
  ⟨hfront, fun n hn => (by cases hn), fun n hn => absurd (by cases hn; rfl) (he n)⟩

theorem Tallied.step (hr : Tallied o past s r) (hnone : passed o.base.length s = [])
    (hsame : s.step.handle o.h = s.handle o.h) : Tallied o (s :: past) s.step r := by
  have hacc : accepted o.base.length (s :: past) = accepted o.base.length past := by
    rw [accepted_cons, hnone, List.append_nil]
  refine ⟨?_, ?_, fun n hn => ?_⟩
  · rw [hacc]
    exact hr.front
  · rw [hacc]
    exact hr.whole
  · obtain ⟨hcount, hlt, hdeadline, hdue, hrun, hin, hrefused⟩ := hr.part n hn
    rw [hacc, hsame]
    exact ⟨hcount, hlt, hdeadline, Nat.le_trans hdue (now_le_step s), hrun, hin, hrefused.cons⟩

theorem Tallied.later (hr : Tallied o past s r) (hl : Lull s t) (hnow : s.kernel.now ≤ t.kernel.now) :
    Tallied o past t r := by
  refine ⟨hr.front, hr.whole, fun n hn => ?_⟩
  obtain ⟨hcount, hlt, hdeadline, hdue, hrun, hin, hrefused⟩ := hr.part n hn
  rw [hl.handle]
  exact ⟨hcount, hlt, hdeadline, Nat.le_trans hdue hnow, hrun, hin, hrefused⟩

theorem writable_ne_timeout {x : Handle} {e : WriteError} (he : x.writable = .error e) (n : Nat) :
    e ≠ .timeout n := by
  unfold Handle.writable at he
  split at he
  · split at he <;> cases he
    nofun
  · cases he
    nofun

theorem state_of_writable {x : Handle} (hw : x.writable = .ok pid) : x.state = .running ∧ x.stdin.isSome = true := by
  refine ⟨?_, by rw [stdin_of_writable hw]; rfl⟩
  unfold Handle.writable at hw
  split at hw
  · next hrun => exact hrun
  · cases hw

/-! ## Steps of the write itself -/

/-- A call of the kernel that fails takes nothing. -/
theorem journal_write_error {e : Int} {k : Kernel} (hleft : ¬ w.rest.isEmpty = true)
    (hr : s.kernel.write pid w.rest = (.error e, k)) : ∃ es, (s.write w pid).journal = es ++ s.journal ∧
      es.reverse.flatMap Entry.taken = [] ∧ (e = Failure.wouldBlock → es.any Entry.isRefusal = true) := by
  rw [write, if_neg hleft, hr]
  dsimp only
  by_cases hinterrupted : e = Failure.interrupted
  · rw [if_pos hinterrupted]
    exact ⟨[_], rfl, rfl, fun h => absurd (h.symm.trans hinterrupted) (by decide)⟩
  · rw [if_neg hinterrupted]
    by_cases hfull : e = Failure.wouldBlock
    · rw [if_pos hfull]
      exact ⟨[_, _], rfl, rfl, fun h => by simp [Entry.isRefusal, h]⟩
    · rw [if_neg hfull]
      unfold note
      split
      · exact ⟨[_, _], rfl, rfl, fun h => absurd h hfull⟩
      · exact ⟨[_], rfl, rfl, fun h => absurd h hfull⟩

section

variable {trail : List Machine} (ht : Trail trail s log) (hst : s.stack = o.base) (hw : Underway o w past s)

include ht hst hw

theorem begun_delivers (hc : s.control = .startWrite w) : Delivering o (s :: past) s.step := by
  have hstep : s.step = s.startWrite w := by rw [step, hc]
  have hlimit := limits_step ht hw.limit (by rw [lowers, hc]; simp) (by simp [hc])
  have hnone : passed o.base.length s = [] := by
    refine passed_of_news [] (by rw [hst]) ?_
    rw [hstep]
    unfold startWrite
    split <;> rfl
  have hnext := hw.keep hnone hlimit
  cases hready : (s.handle w.h).writable with
  | error e =>
    have hcase : s.step = s.yield (.wrote (.error e)) := by
      rw [hstep, startWrite, hready]
    rw [hcase]
    exact .done _ rfl hst (tallied_error hnext.front (writable_ne_timeout hready))
  | ok pid =>
    have hcase : s.step = s.go (.write w pid) := by
      rw [hstep, startWrite, hready]
    rw [hcase] at hnext ⊢
    exact .writing w pid rfl hst hnext

/-- One call of the kernel. -/
theorem writing_delivers (hc : s.control = .write w pid) : Delivering o (s :: past) s.step := by
  have hstep : s.step = s.write w pid := by rw [step, hc]
  have hlimit := limits_step ht hw.limit (by rw [lowers, hc]; simp) (by simp [hc])
  have hheight : s.stack.length = o.base.length := by rw [hst]
  by_cases hempty : w.rest.isEmpty = true
  · have hcase : s.step = s.yield (.wrote (.ok w.written)) := by rw [hstep, write, if_pos hempty]
    have hnext := hw.keep (passed_of_news [] hheight (by rw [hcase]; rfl)) hlimit
    have hall : accepted o.base.length (s :: past) = o.payload := by
      have hsplit := hnext.split
      rwa [List.isEmpty_iff.1 hempty, List.append_nil] at hsplit
    rw [hcase]
    refine .done (.ok w.written) rfl hst ⟨hnext.front, fun n hn => ?_, fun n hn => by cases hn⟩
    cases hn
    exact ⟨by rw [hnext.count, hall], hall⟩
  · generalize hr : s.kernel.write pid w.rest = answer at hstep
    obtain ⟨r, k⟩ := answer
    cases r with
    | ok n =>
      have hcase : s.step = ((s.withKernel k).record (.wrote w.h (s.handle w.h).generation pid w.rest (.ok n))).go
          (.write { w with rest := w.rest.drop n, written := w.written + n } pid) := by
        rw [hstep, write, if_neg hempty, hr]
      have hle : n ≤ w.rest.length := Kernel.write_le (by rw [hr])
      have hpassed : passed o.base.length s = w.rest.take n := by
        rw [passed_of_news [_] hheight (by rw [hcase]; rfl)]
        simp [Entry.taken]
      have hnext : Underway o { w with rest := w.rest.drop n, written := w.written + n } (s :: past) s.step :=
        hw.step rfl rfl
        (by rw [hpassed, List.take_append_drop]) (by rw [hpassed, List.length_take, Nat.min_eq_left hle]) hlimit
      rw [hcase] at hnext ⊢
      exact .writing _ pid rfl hst hnext
    | error e =>
      obtain ⟨es, hj, htaken, hrefusal⟩ := journal_write_error hempty hr
      rw [← hstep] at hj
      have hnext := hw.keep ((passed_of_news es hheight hj).trans htaken) hlimit
      by_cases hinterrupted : e = Failure.interrupted
      · have hcase : s.step = ((s.withKernel k).record
          (.wrote w.h (s.handle w.h).generation pid w.rest (.error e))).go
            (.write w pid) := by
          rw [hstep, write, if_neg hempty, hr]
          dsimp only
          rw [if_pos hinterrupted]
        rw [hcase] at hnext ⊢
        exact .writing w pid rfl hst hnext
      · by_cases hfull : e = Failure.wouldBlock
        · have hcase : s.step.control = .awaitWritable w (s.loop.lastId + 1) ∧ s.step.stack = s.stack := by
            rw [hstep, write, if_neg hempty, hr]
            dsimp only
            rw [if_neg hinterrupted, if_pos hfull]
            exact ⟨rfl, rfl⟩
          refine .awaiting w _ hcase.1 (hcase.2.trans hst) hnext (by simpa using hempty) ?_ fun hi => ?_
          · exact ⟨s, List.mem_cons_self, hheight, by rw [news_eq hj]; exact hrefusal hfull⟩
          · have hle := (hw.limit _ hi).le
            omega
        · have hcase : s.step.control = .value (.wrote (.error (.io (.code e)))) ∧ s.step.stack = s.stack := by
            rw [hstep, write, if_neg hempty, hr]
            dsimp only
            rw [if_neg hinterrupted, if_neg hfull]
            exact ⟨rfl, stack_note _ _⟩
          exact .done _ hcase.1 (hcase.2.trans hst) (tallied_error hnext.front (by simp))

/-- There is room, the handle is lost, the time is up, or the loop is pumped once more. -/
theorem awaiting_delivers (hc : s.control = .awaitWritable w watch) (hleft : w.rest ≠ [])
    (hrefused : Refused o.base.length past) (hne : watch ∉ o.deadline) : Delivering o (s :: past) s.step := by
  have hstep : s.step = s.awaitWritable w watch := by rw [step, hc]
  have hlimit := limits_step ht hw.limit (by rw [lowers, hc]; simpa using fun i hi => by rintro rfl; exact hne hi)
    (by simp [hc])
  have hnone : passed o.base.length s = [] := by
    obtain ⟨es, hj, hes⟩ := journal_awaitWritable (s := s) w watch
    rw [passed_of_news es (by rw [hst]) (by rw [hstep]; exact hj), List.flatMap_eq_nil_iff]
    rintro e he
    cases e with
    | wrote i g p data r => exact absurd (List.mem_reverse.1 he) (hes i g p data r)
    | _ => rfl
  have hnext := hw.keep hnone hlimit
  by_cases hroom : s.isRaised watch = true
  · have hcase : s.step = (s.lower watch).go (.startWrite w) := by rw [hstep, awaitWritable, if_pos hroom]
    rw [hcase] at hnext ⊢
    exact .begun w rfl hst hnext
  · cases hready : (s.handle w.h).writable with
    | error e =>
      have hcase : s.step = (s.removeWatch watch).yield (.wrote (.error e)) := by
        rw [hstep, awaitWritable, if_neg hroom, hready]
      rw [hcase]
      exact .done _ rfl hst (tallied_error hnext.front (writable_ne_timeout hready))
    | ok pid =>
      by_cases hlate : w.deadline.any s.isRaised = true
      · have hcase : s.step = ((s.note (.writeTimedOut w.written)).removeWatch watch).yield
            (.wrote (.error (.timeout w.written))) := by
          rw [hstep, awaitWritable, if_neg hroom, hready]
          dsimp only
          rw [if_pos hlate]
        have hsame : s.step.handle o.h = s.handle o.h := by
          rw [hcase]
          exact congrArg (·.getD o.h .fresh) (beside_note s _).handles
        have hstack : s.step.stack = s.stack := by
          rw [hcase]
          exact stack_note s _
        rw [hw.deadline, Option.any_eq_true] at hlate
        obtain ⟨i, hi, hraised⟩ := hlate
        rw [hw.handle] at hready
        obtain ⟨hrun, hin⟩ := state_of_writable hready
        refine .done (.error (.timeout w.written)) (by rw [hcase]; rfl) (hstack.trans hst)
          ⟨hnext.front, fun n hn => (by cases hn), fun n hn => ?_⟩
        cases hn
        refine ⟨hnext.count, ?_, Option.isSome_iff_exists.2 ⟨i, hi⟩, ?_, ?_, ?_, hrefused.cons⟩
        -- a write that waits for room has something left
        · have hlength := congrArg List.length hnext.split
          have hpos := List.length_pos_iff.2 hleft
          rw [List.length_append, ← hnext.count] at hlength
          omega
        · exact Nat.le_trans ((hw.limit i hi).rung (List.contains_iff_mem.1 hraised)) (now_le_step s)
        · rw [hsame]
          exact hrun
        · rw [hsame]
          exact hin
      · have hcase : s.step = (s.push (.writing w watch)).go (.pass true) := by
          rw [hstep, awaitWritable, if_neg hroom, hready]
          dsimp only
          rw [if_neg hlate]
        rw [hcase] at hnext ⊢
        refine .pumping w watch [] (by rw [← hst]; rfl) hnext hleft hrefused.cons hne fun i hi => ?_
        exact ⟨0, fun h _ => ⟨List.forall_mem_nil _, trivial⟩⟩

end

/-! ## Steps above it -/

/-- When a pass is over, the write looks for room again; until then what is done above it leaves it alone. -/
theorem pumping_delivers {trail : List Machine} (ht : Trail trail s log)
    (hst : s.stack = A ++ .writing w watch :: o.base)
    (hw : Underway o w past s) (hleft : w.rest ≠ []) (hrefused : Refused o.base.length past)
    (hne : watch ∉ o.deadline)
    (hA : ∀ i ∈ o.deadline, Spared i o.due A s) : Delivering o (s :: past) s.step := by
  have hnone : passed o.base.length s = [] := by
    refine if_neg ?_
    rw [hst, List.length_append, List.length_cons]
    omega
  -- only an answer with nothing above the write reaches it, and only that of a pass takes its frame off
  by_cases hwoken : A = [] ∧ ∃ v, s.control = .value v
  · obtain ⟨rfl, v, hv⟩ := hwoken
    have hst : s.stack = .writing w watch :: o.base := hst
    have hstep : s.step = { s with stack := o.base }.resume (.writing w watch) v := by
      rw [step, hv]
      dsimp only
      rw [hst]
    have hlimit := limits_step ht hw.limit (by rw [lowers, hv, hst]; cases v <;> simp) (by simp [hv])
    have hnext := hw.keep hnone hlimit
    cases v with
    | passed p => exact .awaiting w watch (by rw [hstep]; rfl) (by rw [hstep]; rfl) hnext hleft hrefused.cons hne
    | _ =>
      refine .pumping w watch [] (by rw [hstep]; rfl) hnext hleft hrefused.cons hne fun i hi => ?_
      have hcontrol : s.step.control = s.control := by rw [hstep]; rfl
      exact ⟨0, fun h _ => ⟨List.forall_mem_nil _, by rw [hcontrol, hv]; trivial⟩⟩
  · have hbusy : A = [] → ∀ v, s.control ≠ .value v := fun hnil v hv => hwoken ⟨hnil, v, hv⟩
    have hret : returned (Frame.writing w watch :: o.base).length s = false := by
      unfold returned
      split
      · next v hv =>
        have hpos : A ≠ [] := fun hnil => hbusy hnil v hv
        rw [hst, List.length_append]
        simpa using hpos
      · rfl
    obtain ⟨A', hst'⟩ := suffix_step ⟨A, hst.symm⟩ hret
    have hspared : ∀ i ∈ o.deadline, Spared i o.due A' s.step ∧ Limit i o.due s.step := fun i hi => by
      obtain ⟨⟨B, hB, hs⟩, hl⟩ := spared_step ht hst (by simp) (hA i hi) (hw.limit i hi) hbusy
      rw [List.append_cancel_right (hst'.trans hB)]
      exact ⟨hs, hl⟩
    exact .pumping w watch A' hst'.symm (hw.keep hnone fun i hi => (hspared i hi).2) hleft hrefused.cons hne
      fun i hi => (hspared i hi).1

/-- The answer goes to the caller, and the timer is dropped. -/
theorem done_delivers (hc : s.control = .value (.wrote r)) (hst : s.stack = o.base) (hr : Tallied o past s r)
    (hret : returned o.callers.length s = false) : Delivering o (s :: past) s.step := by
  cases hd : o.deadline with
  | none =>
    have hbase : o.base = o.callers := by rw [Order.base, hd]; rfl
    cases (returned_of_value hc (hst.trans hbase)).symm.trans hret
  | some i =>
    have hbase : o.base = .writeDeadline i :: o.callers := by rw [Order.base, hd]; rfl
    have hstep : s.step = ((({ s with stack := o.callers }).removeWatch i).lower i).yield (.wrote r) := by
      rw [step, hc]
      dsimp only
      rw [hst, hbase]
      rfl
    have hnone : passed o.base.length s = [] := passed_of_news [_] (by rw [hst]) (by rw [hstep]; rfl)
    have hnext := hr.step hnone (by rw [hstep]; rfl)
    rw [hstep] at hnext ⊢
    exact .returned r rfl rfl hnext

/-! ## The whole write -/

theorem Delivering.front (hd : Delivering o past s) : accepted o.base.length past <+: o.payload := by
  cases hd with
  | begun w hc hst hw => exact hw.front
  | writing w pid hc hst hw => exact hw.front
  | awaiting w watch hc hst hw => exact hw.front
  | pumping w watch A hst hw => exact hw.front
  | done r hc hst hr => exact hr.front
  | returned r hc hst hr => exact hr.front

theorem delivering_step {trail : List Machine} (ht : Trail trail s log) (hd : Delivering o past s)
    (hret : returned o.callers.length s = false) : Delivering o (s :: past) s.step := by
  cases hd with
  | begun w hc hst hw => exact begun_delivers ht hst hw hc
  | writing w pid hc hst hw => exact writing_delivers ht hst hw hc
  | awaiting w watch hc hst hw hleft hrefused hne => exact awaiting_delivers ht hst hw hc hleft hrefused hne
  | pumping w watch A hst hw hleft hrefused hne hA => exact pumping_delivers ht hst hw hleft hrefused hne hA
  | done r hc hst hr => exact done_delivers hc hst hr hret
  | returned r hc hst hr => cases (returned_of_value hc hst).symm.trans hret

theorem delivering_lull (hd : Delivering o past s) (hl : Lull s t) (hnow : s.kernel.now ≤ t.kernel.now) :
    Delivering o past t := by
  cases hd with
  | begun w hc hst hw =>
    exact .begun w (hl.control_of hc (by simp)) (hl.stack.trans hst) (hw.later hl hnow)
  | writing w pid hc hst hw =>
    exact .writing w pid (hl.control_of hc (by simp)) (hl.stack.trans hst) (hw.later hl hnow)
  | awaiting w watch hc hst hw hleft hrefused hne =>
    exact .awaiting w watch (hl.control_of hc (by simp)) (hl.stack.trans hst) (hw.later hl hnow) hleft
      hrefused hne
  | pumping w watch A hst hw hleft hrefused hne hA =>
    exact .pumping w watch A (hl.stack.trans hst) (hw.later hl hnow) hleft hrefused hne
      fun i hi => (hA i hi).later hl hnow
  | done r hc hst hr => exact .done r (hl.control_of hc (by simp)) (hl.stack.trans hst) (hr.later hl hnow)
  | returned r hc hst hr => exact .returned r (hl.control_of hc (by simp)) (hl.stack.trans hst) (hr.later hl hnow)

/-- A machine at rest has no write that has not returned. -/
theorem not_idle_of_delivering (hd : Delivering o past s) (hret : returned o.callers.length s = false) :
    s.isIdle = false := by
  rw [Bool.eq_false_iff]
  intro hi
  obtain ⟨⟨v, hv⟩, hnil⟩ := control_of_isIdle hi
  cases hd with
  | begun w hc => rw [hv] at hc; cases hc
  | writing w pid hc => rw [hv] at hc; cases hc
  | awaiting w watch hc => rw [hv] at hc; cases hc
  | pumping w watch A hst => rw [hnil] at hst; simp at hst
  | done r hc hst =>
    have hcallers : o.callers = [] := (List.append_eq_nil_iff.1 (hst.symm.trans hnil)).2
    cases (returned_of_value hc (hnil.trans hcallers.symm)).symm.trans hret
  | returned r hc hst => cases (returned_of_value hc hst).symm.trans hret

theorem delivering_span {x y : Machine × List Entry} (hr : Run (fun _ => True) x.1 x.2) (hx : Delivering o [] x.1)
    (hspan : Span (fun s t => s.kernel.now ≤ t.kernel.now) (fun _ => True) o.callers.length x past y) :
    Delivering o past y.1 := by
  induction hspan with
  | begun => exact hx
  | step hs _ hret ih =>
    obtain ⟨trail, ht⟩ := trail_of_run (hs.run hr)
    exact delivering_step ht ih hret
  | pause _ hret hm hnow ih => exact delivering_lull ih (lull_of_move hm (not_idle_of_delivering ih hret)).1 hnow

/-- The answer that has come to the callers. -/
theorem tallied_of_returned (hd : Delivering o past s) (hc : s.control = .value (.wrote r))
    (hst : s.stack.length = o.callers.length) : Tallied o past s r := by
  cases hd with
  | begun w hc' => rw [hc] at hc'; cases hc'
  | writing w pid hc' => rw [hc] at hc'; cases hc'
  | awaiting w watch hc' => rw [hc] at hc'; cases hc'
  | pumping w watch A hst' =>
    rw [hst', List.length_append, List.length_cons, Order.base, List.length_append] at hst
    omega
  | done r' hc' _ hr => rw [hc] at hc'; cases hc'; exact hr
  | returned r' hc' _ hr => rw [hc] at hc'; cases hc'; exact hr

/-- The first step from `s` places the order of a write. -/
structure Placed (h : Nat) (payload : Bytes) (timeout : Option Nat) (s : Machine) (o : Order) : Prop where
  handle : o.h = h
  payload : o.payload = payload
  callers : o.callers.length = s.stack.length + 1
  base : o.base = s.step.stack
  due : o.deadline.isSome = true → ∃ t, timeout = some t ∧ s.kernel.now + t ≤ o.due
  begun : Delivering o [] s.step

/-- The first step of a write with a timeout sets its timer. -/
theorem delivering_timed {trail : List Machine} (ht : Trail trail s log) {u : Machine} {f : Frame} {timeout : Nat}
    (hst : u.stack = s.stack) (hstep : s.step = (((u.addTimer timeout Loop.Priority.normal .raise).2.push f).push
      (.writeDeadline (u.loop.lastId + 1))).go (.startWrite ⟨h, payload, 0, some (u.loop.lastId + 1)⟩)) :
    ∃ o, Placed h payload (some timeout) s o := by
  have hnow : s.kernel.now ≤ u.kernel.now := by
    have hle := now_le_step s
    rwa [hstep] at hle
  have hstack : s.step.stack = .writeDeadline (u.loop.lastId + 1) :: f :: s.stack := by
    rw [hstep, ← hst]
    rfl
  have harmed : timer (u.loop.lastId + 1) timeout (u.kernel.now + timeout) ∈ s.step.loop.watches := by
    rw [hstep]
    exact List.mem_append_right _ List.mem_cons_self
  have hfresh : u.loop.lastId + 1 ∉ s.step.raised :=
    not_raised_of_armed (accounts_trail ht.step) (custody_run ht.step.run).sound.tidy harmed
  have hlimit : Limit (u.loop.lastId + 1) (u.kernel.now + timeout) s.step :=
    ⟨by rw [hstep]; exact Nat.le_refl _, .armed timeout harmed, fun hr => absurd hr hfresh⟩
  refine ⟨⟨h, payload, some (u.loop.lastId + 1), u.kernel.now + timeout, f :: s.stack⟩, rfl, rfl, rfl,
    hstack.symm,
    fun _ => ⟨timeout, rfl, Nat.add_le_add_right hnow timeout⟩, ?_⟩
  refine .begun ⟨h, payload, 0, some (u.loop.lastId + 1)⟩ (by rw [hstep]; rfl) hstack ⟨rfl, rfl, rfl, rfl, ?_⟩
  rintro i ⟨⟩
  exact hlimit

theorem delivering_of_asks {trail : List Machine} (ht : Trail trail s log) (ha : Asks h payload s timeout) :
    ∃ o, Placed h payload timeout s o := by
  cases ha with
  | plain name hc hh =>
    have hstep : s.step = ((s.resolve name).2.push (.reply h)).go (.startWrite ⟨h, payload, 0, none⟩) := by
      rw [step, hc, ← hh]
      rfl
    have hstack : s.step.stack = .reply h :: s.stack := by
      rw [hstep]
      exact congrArg _ (stack_resolve s name)
    refine ⟨⟨h, payload, none, 0, .reply h :: s.stack⟩, rfl, rfl, rfl, hstack.symm, fun hs => (by cases hs), ?_⟩
    exact .begun ⟨h, payload, 0, none⟩ (by rw [hstep]; rfl) hstack ⟨rfl, rfl, rfl, rfl, fun i hi => by cases hi⟩
  | timed name timeout hc hh =>
    refine delivering_timed ht (stack_resolve s name) (f := .reply h) ?_
    rw [step, hc, ← hh]
    rfl
  | run spec hc hh hp w hw =>
    have hstep : s.step = s.startRun spec := by rw [step, hc]
    have hstack := stack_spawn s 0 spec.command spec.plan spec.execError
    unfold startRun at hstep
    generalize s.spawn 0 spec.command spec.plan spec.execError = spawned at hstep hstack
    obtain ⟨r, execution, u⟩ := spawned
    dsimp only at hstep hstack
    cases r with
    | error e =>
      rw [hstep] at hw
      cases hw
    | ok =>
      dsimp only at hstep
      rw [hp] at hstep
      rw [hh]
      exact delivering_timed ht hstack hstep

/-- **A write accounts for every byte.**  Whatever the kernel answers and whatever callbacks do meanwhile, the
bytes that are taken are a front part of the payload.  A write that answers with a number has delivered the
payload; one that has run out of time tells how much of the payload was taken, which is not all of it, and
then the timeout is over, there was no room at least once, and the handle still runs with its input open. -/
theorem write_delivers {x y : Machine × List Entry} (hr : Run (fun _ => True) x.1 x.2)
    (ha : Asks h payload x.1 timeout)
    (hspan : Span (fun s t => s.kernel.now ≤ t.kernel.now) (fun _ => True) (x.1.stack.length + 1)
      (x.1.step, x.1.news ++ x.2) past y) :
    accepted x.1.step.stack.length past <+: payload ∧
    ∀ r, y.1.control = .value (.wrote r) → y.1.stack.length = x.1.stack.length + 1 →
      (∀ n, r = .ok n → n = payload.length ∧ accepted x.1.step.stack.length past = payload) ∧
      ∀ n, r = .error (.timeout n) → n = (accepted x.1.step.stack.length past).length ∧ n < payload.length ∧
        (∃ t, timeout = some t ∧ x.1.kernel.now + t ≤ y.1.kernel.now) ∧ (y.1.handle h).state = .running ∧
        (y.1.handle h).stdin.isSome = true ∧ Refused x.1.step.stack.length past := by
  obtain ⟨trail, ht⟩ := trail_of_run hr
  obtain ⟨o, ho⟩ := delivering_of_asks ht ha
  obtain ⟨rfl, rfl⟩ := ho.handle, ho.payload
  rw [← ho.callers] at hspan ⊢
  rw [← ho.base]
  have hy : Delivering o past y.1 :=
    delivering_span (x := (x.1.step, x.1.news ++ x.2)) (hr.move (.step trivial)) ho.begun hspan
  refine ⟨hy.front, fun r hc hst => ?_⟩
  have htallied := tallied_of_returned hy hc hst
  refine ⟨htallied.whole, fun n hn => ?_⟩
  obtain ⟨hcount, hlt, hlimited, hdue, hrun, hin, hrefused⟩ := htallied.part n hn
  obtain ⟨t, ht, hle⟩ := ho.due hlimited
  exact ⟨hcount, hlt, ⟨t, ht, Nat.le_trans hle hdue⟩, hrun, hin, hrefused⟩

/-- Four bytes are to be written within 3 ms to a pipe that holds two, and of which the child takes one after 1 ms. -/
def stuffed : Machine × List Entry :=
  let x := carry (.fresh .standard 10000000 [] (.fresh true), [])
    (.spawn "a" (.ofArgs ["/bin/cat"])
      ⟨{ Kernel.Habits.standard with capacity := 2 }, [(1000000, .child 0 (.consume 1))]⟩ none) 1
  (x.1.start (.writeTimeout "a" [97, 98, 99, 100] 3000000), x.2)

/-- The write up to its answer. -/
def jammed : List Machine × Machine × List Entry := tramp 25 ([], stuffed.1.step, stuffed.1.news ++ stuffed.2)

theorem stuffed_delivers : Run (fun _ => True) stuffed.1 stuffed.2 ∧
    Asks 0 [97, 98, 99, 100] stuffed.1 (some 3000000) ∧
    jammed.2.1.control = .value (.wrote (.error (.timeout 3))) ∧ accepted 2 jammed.1 = [97, 98, 99] ∧
    [97, 98, 99] <+: ([97, 98, 99, 100] : Bytes) ∧ 0 + 3000000 ≤ jammed.2.1.kernel.now ∧
    (jammed.2.1.handle 0).state = .running ∧
    Refused 2 jammed.1 := by
  have hrun : Run (fun _ => True) stuffed.1 stuffed.2 :=
    (Run.carry (Run.init (.fresh .standard 10000000 [] (.fresh true) true)) rfl fun _ _ => trivial).move
    (.start _ (by decide))
  have hasks : Asks 0 [97, 98, 99, 100] stuffed.1 (some 3000000) := .timed "a" 3000000 rfl rfl
  have hspan : Span (fun s t => s.kernel.now ≤ t.kernel.now) (fun _ => True) 1
    (stuffed.1.step, stuffed.1.news ++ stuffed.2)
      jammed.1 jammed.2 := Span.tramp (z := ([], _, _)) .begun (fun _ _ => trivial) (by decide +kernel)
  have hvalue : jammed.2.1.control = .value (.wrote (.error (.timeout 3))) := rfl
  have haccepted : accepted 2 jammed.1 = [97, 98, 99] := by decide +kernel
  obtain ⟨hfront, hanswer⟩ := write_delivers hrun hasks hspan
  obtain ⟨-, -, ⟨t, ht, hle⟩, hstate, -, hrefused⟩ := (hanswer _ hvalue rfl).2 3 rfl
  cases ht
  exact ⟨hrun, hasks, hvalue, haccepted, haccepted ▸ hfront, hle, hstate, hrefused⟩

end Machine

end Overseer
