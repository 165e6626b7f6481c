import Overseer.Proofs.Balance
import Overseer.Proofs.Calls
import Overseer.Proofs.Origins

/-!
# Timers of calls that wait

A call that waits has a timer, which rings at its time.  The timer is registered, or its callback is being
called, or it has left its mark; so until the call drops it, nothing of the timer is lost.

    armed     the timer is registered with its callback and is due at the time D
    ringing   its callback is about to be called
    rung      it has left its mark

While a timer is armed a pass does not sleep past it by more than the rounding to whole milliseconds.

    Clocked R G x y  =  y is reached from x by a call, and R holds of the clock before and after whatever
                        happens between two steps

Main statements: `alarm_step`, `pass_now_le`.
-/

namespace Overseer

open Supervisor
open Kernel (Stream)
open Relation (ReflTransGen)

/-- A kernel whose first poll is interrupted after 7 ms and half a microsecond, and whose second returns with nothing
to tell after another 2 ms. -/
def Kernel.restless : Kernel := { fresh true with pollEnds := [.fails 7000500 4, .reports 2000000 []] }

/-- What a sleep may be longer than asked for, in nanoseconds: less than a millisecond. -/
def Supervisor.rounding : Nat := 999999

namespace Loop

variable {κ : Type} {l : Loop κ}

theorem shorten_le {a b : Option Nat} {x : Nat} (h : a = some x ∨ b = some x) :
    ∃ least, shorten a b = some least ∧ least ≤ x := by
  rcases h with rfl | rfl
  · cases b with
    | none => exact ⟨x, rfl, Nat.le_refl _⟩
    | some y => exact ⟨min x y, rfl, Nat.min_le_left _ _⟩
  · cases a with
    | none => exact ⟨x, rfl, Nat.le_refl _⟩
    | some y => exact ⟨min y x, rfl, Nat.min_le_right _ _⟩

/-- The least of some limits is no more than any of them. -/
theorem foldl_shorten_le {xs : List (Option Nat)} {a : Option Nat} {x : Nat} (h : some x ∈ a :: xs) :
    ∃ least, xs.foldl shorten a = some least ∧ least ≤ x := by
  induction xs generalizing a x with
  | nil => exact ⟨x, (List.mem_singleton.1 h).symm, Nat.le_refl _⟩
  | cons b xs ih =>
    have hfirst : some x = a ∨ some x = b → ∃ least, (b :: xs).foldl shorten a = some least ∧ least ≤ x := by
      intro hab
      obtain ⟨y, hy, hyx⟩ := shorten_le (hab.imp Eq.symm Eq.symm)
      obtain ⟨least, hleast, hle⟩ := ih (List.mem_cons.2 (.inl hy.symm))
      exact ⟨least, hleast, Nat.le_trans hle hyx⟩
    rcases List.mem_cons.1 h with ha | h
    · exact hfirst (.inl ha)
    · rcases List.mem_cons.1 h with hb | h
      · exact hfirst (.inr hb)
      · exact ih (List.mem_cons_of_mem _ h)

theorem timeout_le {w : Watch κ} {limit : Nat} (hw : w ∈ l.watches) (mayBlock : Bool) (now : Nat)
    (h : w.limit? l.tick now = some limit) : ∃ least, l.timeout mayBlock now = some least ∧ least ≤ limit :=
  foldl_shorten_le (List.mem_cons_of_mem _ (List.mem_map.2 ⟨w, hw, h⟩))

/-- A sleep is rounded up by less than a millisecond. -/
theorem timeoutMs_le (ns : Nat) : 1000000 * timeoutMs ns ≤ ns + rounding ∧ timeoutMs 0 = 0 := by
  refine ⟨?_, rfl⟩
  unfold timeoutMs rounding
  omega

end Loop

namespace Machine

/-- The timer `i` of a call. -/
def timer (i interval D : Nat) : Loop.Watch Callback := ⟨i, Loop.Priority.normal, .timer interval D (some .raise)⟩

/-- The timer `i` of a call, due at the time `D`, will ring or has rung. -/
inductive Alarm (s : Machine) (i D : Nat) : Prop
  | armed (interval : Nat) (hw : timer i interval D ∈ s.loop.watches)
  | ringing (payload : Loop.Payload) (hc : s.control = .invoke i .raise payload)
  | rung (hr : i ∈ s.raised)

/-- A call between whose steps the clock moves like this at most. -/
def Clocked (R : Nat → Nat → Prop) (G : Machine → Prop) (x y : Machine × List Entry) : Prop :=
  ReflTransGen (fun u v => Move G u v ∧ returned x.1.stack.length u.1 = false ∧
    (v = (u.1.step, u.1.news ++ u.2) ∨ R u.1.kernel.now v.1.kernel.now)) x y

variable {s t : Machine} {i D : Nat} {log : List Entry} {R : Nat → Nat → Prop} {G : Machine → Prop}

variable {given : Nat → Prop} {left : Nat → Nat → Int → Prop} {f : Loop.Form} {r : Role}

/-! ## Owners -/

/-- Whether it will ring or has rung, a timer of a call is kept for the call. -/
theorem role_of_alarm (hacc : Accounts given left s.stage log) (ht : s.loop.Tidy) (ha : Alarm s i D)
    (hb : s.stage.Books i f r) : r = .call := by
  have hmarked : i ∈ s.raised ∨ .ring i ∈ s.stage.duties → r = .call := by
    intro hm
    rcases (hacc.marks.raised i hm).2 with hnone | hlent
    · exact absurd hb (not_books hnone)
    · exact (books_of_lent hacc.slots hlent hb).1
  cases ha with
  | armed interval hw => exact (eq_of_books hacc.slots hb (books_of_slot (Loop.look_of_mem ht hw))).2
  | ringing payload hc =>
    refine hmarked (.inr (List.mem_append_left _ ?_))
    rw [hc]
    exact List.mem_cons_self
  | rung hr => exact hmarked (.inl hr)

/-- A timer of a call is not the watch of a pipe. -/
theorem alarm_ne_pipe (hacc : Accounts given left s.stage log) (ht : s.loop.Tidy) (ha : Alarm s i D) {h : Nat}
    {st : Stream} {p : Pipe} (hp : (s.handle h).pipe st = some p) : p.watch ≠ i := by
  rintro rfl
  cases role_of_alarm hacc ht ha (hacc.ledger.pipe h st p hp)

/-- A timer of a call that is armed is dropped by a call only, which uses up its mark as well. -/
theorem lowers_of_dropped (hacc : Accounts given left s.stage log) (ht : s.loop.Tidy) {interval : Nat}
    (hw : timer i interval D ∈ s.loop.watches) (hd : i ∈ s.drops) : i ∈ s.lowers := by
  have hbooks : s.stage.Books i .timer .call := ⟨.raise, rfl, .inl (Loop.look_of_mem ht hw)⟩
  have hhandle : ∀ h, i ∉ (s.handle h).watches := by
    intro h hm
    rcases List.mem_append.1 hm with hm | hm
    · have hpipe : ∀ st p, (s.handle h).pipe st = some p → p.watch ≠ i := fun st p hp =>
        alarm_ne_pipe hacc ht (.armed interval hw) hp
      rcases List.mem_append.1 hm with hm | hm
      · obtain ⟨p, hp, hpi⟩ := List.mem_map.1 hm
        exact hpipe .out p (Option.mem_toList.1 hp) hpi
      · obtain ⟨p, hp, hpi⟩ := List.mem_map.1 hm
        exact hpipe .err p (Option.mem_toList.1 hp) hpi
    · cases hacc.ledger.child h i (Option.mem_toList.1 hm) _ _ hbooks
  unfold drops at hd
  split at hd
  · next tag _ _ =>
    cases hacc.ledger.tag i (mem_of_look? (Option.mem_toList.1 hd)) _ _ hbooks
  · exact absurd hd (hhandle _)
  · obtain ⟨p, hp, hpi⟩ := List.mem_map.1 hd
    exact absurd hpi (alarm_ne_pipe hacc ht (.armed interval hw) (Option.mem_toList.1 hp))
  · next hc => rwa [lowers, hc]
  · next hc => rwa [lowers, hc]
  · exact absurd hd (hhandle _)
  · next hc hs => rwa [lowers, hc, hs]
  · exact absurd hd (hhandle _)
  · exact absurd hd (hhandle _)
  · cases hd

/-! ## Steps -/

/-- The callback of a watch that has it is not lent out. -/
theorem not_settling (hs : s.stage.Slots) (ht : s.loop.Tidy) {w : Loop.Watch Callback} {cb : Callback}
    (hw : w ∈ s.loop.watches) (hcb : w.source.outline.slot = some cb) (cb' : Callback) :
    .settle w.id cb' ∉ s.stack := by
  intro hm
  have hlent : (w.id, cb') ∈ lentOut s.stage.duties := by
    refine mem_lentOut.2 (List.mem_append_right _ (List.mem_flatMap.2 ⟨_, hm, ?_⟩))
    exact List.mem_cons_self
  have hnone := hs.empty _ hlent _ (Loop.look_of_mem ht hw)
  rw [hcb] at hnone
  cases hnone

/-- Nothing of a timer is lost in a step that does not use its mark up. -/
theorem alarm_step (hacc : Accounts given left s.stage log) (ht : s.loop.Tidy) (ha : Alarm s i D)
    (hlow : i ∉ s.lowers) : Alarm s.step i D := by
  cases ha with
  | armed interval hw =>
    by_cases hcall : ∃ rest now ran, s.control = .dispatch (i :: rest) now ran
    · obtain ⟨rest, now, ran, hc⟩ := hcall
      have hstep : s.step = s.dispatch (i :: rest) now ran := by rw [step, hc]
      have hfind : s.loop.find? i = some (timer i interval D) := Loop.find?_of_mem ht hw
      rw [hstep]
      unfold dispatch
      dsimp only
      by_cases hdue : D ≤ now
      · have htake : s.loop.take i now =
            some (⟨.raise, .none, false⟩, s.loop.modify i fun _ => .timer interval D none) := by
          unfold Loop.take
          rw [hfind]
          simp [timer, Loop.Source.isReady, hdue]
        rw [htake]
        exact .ringing .none rfl
      · have htake : s.loop.take i now = none := by
          unfold Loop.take
          rw [hfind]
          simp [timer, Loop.Source.isReady, hdue]
        rw [htake]
        exact .armed interval hw
    · refine .armed interval (step_keeps (P := fun t => timer i interval D ∈ t.loop.watches) hw fun u v he hm => ?_)
      refine he.keeps hm rfl (fun hd => hlow (lowers_of_dropped hacc ht hw hd)) (not_settling hacc.slots ht hw rfl)
        fun rest now ran hc => hcall ⟨rest, now, ran, hc⟩
  | ringing payload hc =>
    have hstep : s.step = s.invoke i .raise payload := by rw [step, hc]
    rw [hstep]
    exact .rung List.mem_cons_self
  | rung hr =>
    refine .rung (step_keeps (P := fun t => i ∈ t.raised) hr fun u v he hm => ?_)
    cases he with
    | aside ha => rwa [ha.raised]
    | rung id payload ho => exact List.mem_cons_of_mem _ hm
    | lowered id ho =>
      refine List.mem_filter.2 ⟨hm, ?_⟩
      simp only [bne_iff_ne]
      rintro rfl
      exact hlow ho
    | _ => exact hm

/-! ## Passes -/

/-- While a timer is armed, a pass sleeps until it is due at most, up to the rounding. -/
theorem pass_now_le {interval : Nat} (hw : timer i interval D ∈ s.loop.watches) (mayBlock : Bool) :
    (s.pass mayBlock).kernel.now ≤ max s.kernel.now (D + rounding) := by
  have hw' : timer i interval D ∈ s.collect.loop.watches := Loop.mem_collectIn hw rfl
  obtain ⟨least, hleast, hle⟩ := Loop.timeout_le hw' mayBlock s.collect.kernel.now rfl
  rw [now_collect] at hleast hle
  have hround := Loop.timeoutMs_le least
  -- the poll is asked to sleep for the least of the limits, rounded up
  have hpoll : (s.polls mayBlock).2.now ≤ max s.kernel.now (D + rounding) := by
    have hlimit := Kernel.now_poll_le s.collect.kernel (s.collect.loop.requests.map Prod.snd) (Loop.timeoutMs least)
    rw [now_collect] at hlimit
    rw [polls, now_collect, hleast, Option.map_some]
    by_cases hzero : least = 0
    · subst hzero
      omega
    · unfold rounding at hround ⊢
      omega
  have hasking : ∀ {k answer}, s.polls mayBlock = (answer, k) →
      (s.asking mayBlock k answer).kernel.now ≤ max s.kernel.now (D + rounding) := by
    intro k answer hk
    rwa [hk] at hpoll
  cases opening s mayBlock with
  | stalled hr ht h => rw [h]; exact Nat.le_trans (Nat.le_of_eq (now_collect s)) (Nat.le_max_left _ _)
  | failed k code hk h => rw [h]; exact hasking hk
  | deadlock k hk h => rw [h]; exact Nat.le_trans (Nat.le_of_eq (apart_stopFromKernel _).now) (hasking hk)
  | quiet k revents hk hids h => rw [h]; exact Nat.le_trans (Nat.le_of_eq (now_collect _)) (hasking hk)
  | chosen k revents ids hk hne hids h => rw [h]; exact Nat.le_trans (Nat.le_of_eq (now_collect _)) (hasking hk)

/-! ## Calls in time -/

theorem Clocked.walk {n : Nat} {x : Machine × List Entry} (hg : ∀ m < n, G (walk m x).1)
    (hr : ∀ m < n, returned x.1.stack.length (walk m x).1 = false) : Clocked R G x (walk n x) := by
  have key : ∀ depth, (∀ m < n, returned depth (Machine.walk m x).1 = false) →
      ReflTransGen (fun u v => Move G u v ∧ returned depth u.1 = false ∧
        (v = (u.1.step, u.1.news ++ u.2) ∨ R u.1.kernel.now v.1.kernel.now)) x (Machine.walk n x) := by
    clear hr
    intro depth hd
    induction n generalizing x with
    | zero => exact .refl
    | succ n ih =>
      refine .head ⟨.step (hg 0 (Nat.succ_pos n)), hd 0 (Nat.succ_pos n), .inl rfl⟩ ?_
      exact ih (fun m hm => hg (m + 1) (Nat.succ_lt_succ hm)) fun m hm => hd (m + 1) (Nat.succ_lt_succ hm)
  exact key _ hr

end Machine

end Overseer
