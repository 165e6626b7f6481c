import Overseer.Proofs.Calls

/-!
# Passes of running loops

A loop that runs makes one pass after the other, and its frame waits for each of them.  As long as it
waits, its pass is about to begin, about to call the next watch, behind a callback, or over.

    starved l      =  no watch of l has its callback
    Passing L s    =  the pass that the frames L wait for is in one of these four states
    Quits s t      =  in the move from s to t the loop is asked to stop
    Until d R x y  =  y is reached from x by moves for which R holds, and only in y a value may have come
                      back to a stack of d frames

A pass that finds no descriptor to ask about and no reason to wake up is stalled; with leave to block,
that is a pass over a starved registry.

Main statements: `passing_run`, `quit_move`.
-/

namespace Overseer

open Supervisor
open Relation (ReflTransGen)

/-! ## Starved registries -/

namespace Loop

variable {κ : Type} {l : Loop κ}

def Starved (l : Loop κ) : Prop := ∀ id o, l.look id = some o → o.slot = none

/-- A watch is asked about, or wakes the loop up, exactly while it has its callback. -/
theorem idle_iff (w : Watch κ) (tick now : Nat) :
    w.request? = none ∧ w.limit? tick now = none ↔ w.source.outline.slot = none := by
  unfold Watch.request? Watch.limit?
  cases w.source with
  | io fd interest fired slot => cases slot <;> simp [Source.outline]
  | child pid hasFd status callback => cases hasFd <;> cases status <;> simp [Source.outline]
  | timer interval deadline slot => cases slot <;> simp [Source.outline]
  | idle slot => cases slot <;> simp [Source.outline]

theorem foldl_shorten_eq_none (xs : List (Option Nat)) (a : Option Nat) :
    xs.foldl shorten a = none ↔ a = none ∧ ∀ x ∈ xs, x = none := by
  induction xs generalizing a with
  | nil => simp
  | cons x r ih =>
    have hstep : shorten a x = none ↔ a = none ∧ x = none := by cases a <;> cases x <;> simp [shorten]
    rw [List.foldl_cons, ih, hstep, List.forall_mem_cons, and_assoc]

/-- Nothing to ask about and no reason to wake up: no watch has its callback. -/
theorem stalled_iff (l : Loop κ) (now : Nat) :
    l.requests = [] ∧ l.timeout true now = none ↔ ∀ w ∈ l.watches, w.source.outline.slot = none := by
  have hrequests : l.requests = [] ↔ ∀ w ∈ l.watches, w.request? = none := by
    simp [requests, List.filterMap_eq_nil_iff]
  have htimeout : l.timeout true now = none ↔ ∀ w ∈ l.watches, w.limit? l.tick now = none := by
    simp [timeout, foldl_shorten_eq_none]
  rw [hrequests, htimeout, ← forall₂_and]
  exact forall₂_congr fun w _ => idle_iff w l.tick now

theorem starved_of_slots (h : ∀ w ∈ l.watches, w.source.outline.slot = none) : l.Starved := by
  intro id o ho
  obtain ⟨w, hw, -, rfl⟩ := exists_of_look ho
  exact h w hw

theorem starved_iff (ht : l.Tidy) : l.Starved ↔ ∀ w ∈ l.watches, w.source.outline.slot = none :=
  ⟨fun h _ hw => h _ _ (look_of_mem ht hw), starved_of_slots⟩

theorem starved_congr {l' : Loop κ} (h : ∀ id, l'.look id = l.look id) : l'.Starved ↔ l.Starved := by
  unfold Starved
  simp only [h]

theorem quit_record (l : Loop κ) (reported : List (Nat × UInt16)) : (l.record reported).quit = l.quit := by
  unfold record
  induction reported generalizing l with
  | nil => rfl
  | cons r rest ih =>
    rw [List.foldl_cons, ih, recordOne]
    split <;> rfl

theorem quit_take {l' : Loop κ} {id now : Nat} {job : Job κ} (h : l.take id now = some (job, l')) :
    l'.quit = l.quit := by
  unfold take at h
  split at h
  · cases h
  · split at h
    · split at h <;> cases h <;> rfl
    · cases h

end Loop

def Supervisor.Entry.isQuit : Entry → Bool
  | quit => true
  | _ => false

namespace Machine

variable {s t : Machine} {G : Machine → Prop} {log log' : List Entry} {K L : List Frame}

/-! ## The first step of a pass -/

theorem starved_collect (ht : s.loop.Tidy) :
    s.collect.loop.requests = [] ∧ s.collect.loop.timeout true s.collect.kernel.now = none ↔ s.loop.Starved := by
  have hcollect : s.collect.loop.Starved ↔ s.loop.Starved :=
    Loop.starved_congr (Loop.look_collect s.loop s.kernel)
  have htidy : s.collect.loop.Tidy := ht.collect
  rw [Loop.stalled_iff, ← Loop.starved_iff htidy, hcollect]

/-- A pass that may block stalls exactly when no watch has its callback. -/
theorem stalls_iff (ht : s.loop.Tidy) :
    (s.pass true).control = .value (.passed .stalled) ↔ s.loop.Starved := by
  rw [← starved_collect ht]
  constructor
  · intro hc
    cases opening s true with
    | stalled hr ht h => exact ⟨hr, ht⟩
    | failed k code hk h => simp [h] at hc
    | deadlock k hk h => simp [h] at hc
    | quiet k revents hk hids h => simp [h] at hc
    | chosen k revents ids hk hne hids h => simp [h] at hc
  · rintro ⟨hr, htime⟩
    rw [pass_stalled hr htime, control_yield]

/-! ## The pass that a running loop waits for -/

/-- Where the pass is that the frames `L` wait for; a stalled one leaves the registry starved. -/
inductive Passing (L : List Frame) (s : Machine) : Prop
  | begins (hst : s.stack = L) (hc : s.control = .pass true)
  | choosing (ids : List Nat) (now : Nat) (ran : Bool) (hst : s.stack = L) (hc : s.control = .dispatch ids now ran)
  | calling (ids : List Nat) (now : Nat) (hst : .dispatch ids now :: L <:+ s.stack)
  | ended (p : Pass) (hst : s.stack = L) (hc : s.control = .value (.passed p)) (hp : p = .stalled → s.loop.Starved)

/-- The first step of a pass puts nothing on the stack, and the pass is over or chooses. -/
theorem passing_opening (s : Machine) {L : List Frame} (hst : s.stack = L) : Passing L (s.pass true) := by
  have hstack : (s.pass true).stack = L := by rw [stack_pass, hst]
  cases opening s true with
  | stalled hr ht h =>
    refine .ended .stalled hstack (by rw [h, control_yield]) fun _ => ?_
    rw [h]
    have hstarved : s.collect.loop.Starved := Loop.starved_of_slots ((Loop.stalled_iff _ _).1 ⟨hr, ht⟩)
    exact (Loop.starved_congr (Loop.look_forgetFired _)).2 hstarved
  | failed k code hk h => exact .ended .empty hstack (by rw [h, control_yield]) (by simp)
  | deadlock k hk h => exact .ended .empty hstack (by rw [h, control_yield]) (by simp)
  | quiet k revents hk hids h => exact .ended .empty hstack (by rw [h, control_yield]) (by simp)
  | chosen k revents ids hk hne hids h => exact .choosing _ _ _ hstack (by rw [h, control_go])

/-- The next watch is skipped or called, or the pass is over. -/
theorem passing_dispatch (s : Machine) (ids : List Nat) (now : Nat) (ran : Bool) {L : List Frame}
    (hst : s.stack = L) : Passing L (s.dispatch ids now ran) := by
  subst hst
  unfold dispatch
  split
  · exact .ended _ rfl rfl (by split <;> simp)
  · split
    · exact .choosing _ _ _ rfl rfl
    · next rest _ _ _ _ =>
      refine .calling rest now ?_
      dsimp only
      split
      · exact List.suffix_rfl
      · exact List.suffix_cons _ _

/-- What a call of a watch puts on the stack is no frame of a running loop. -/
theorem stack_dispatch (s : Machine) (ids : List Nat) (now : Nat) (ran : Bool) :
    ∃ B, (s.dispatch ids now ran).stack = B ++ s.stack ∧ .running ∉ B := by
  unfold dispatch
  split
  · exact ⟨[], rfl, by simp⟩
  · split
    · exact ⟨[], rfl, by simp⟩
    · dsimp only
      split
      · exact ⟨[_], rfl, by simp⟩
      · exact ⟨[_, _], rfl, by simp⟩

theorem suffix_of_dispatch {ids : List Nat} {now : Nat} {ran : Bool}
    (h : .running :: K <:+ (s.dispatch ids now ran).stack) : .running :: K <:+ s.stack := by
  obtain ⟨B, hB, hnot⟩ := stack_dispatch s ids now ran
  rw [hB] at h
  clear hB
  induction B with
  | nil => exact h
  | cons b B ih =>
    rcases List.suffix_cons_iff.1 h with he | h
    · exact absurd (List.cons.inj he).1 fun hb => hnot (hb ▸ List.mem_cons_self)
    · exact ih h fun hm => hnot (List.mem_cons_of_mem b hm)

/-- Neither the first step of a pass nor one that goes on with it begins a pass or lets a loop run on. -/
theorem control_pass (s : Machine) (b : Bool) :
    (s.pass b).control ≠ .keepRunning ∧ ∀ c, (s.pass b).control ≠ .pass c := by
  cases opening s b with
  | stalled hr ht h => simp [h]
  | failed k code hk h => simp [h]
  | deadlock k hk h => simp [h]
  | quiet k revents hk hids h => simp [h]
  | chosen k revents ids hk hne hids h => simp [h]

theorem control_dispatch (s : Machine) (ids : List Nat) (now : Nat) (ran : Bool) :
    (s.dispatch ids now ran).control ≠ .keepRunning ∧ ∀ c, (s.dispatch ids now ran).control ≠ .pass c := by
  unfold dispatch
  split
  · simp
  · split <;> simp

/-- The state of a pass that is under way, and of none of its callbacks. -/
def isOfPass : Control → Bool
  | .pass _ => true
  | .dispatch .. => true
  | .value (.passed _) => true
  | _ => false

theorem Passing.under (h : Passing L s) (hs : s.stack ≠ L ∨ isOfPass s.control = false) :
    ∃ ids now, .dispatch ids now :: L <:+ s.stack := by
  cases h with
  | calling ids now hst => exact ⟨ids, now, hst⟩
  | begins hst hc => simp [hst, hc, isOfPass] at hs
  | choosing ids now ran hst hc => simp [hst, hc, isOfPass] at hs
  | ended p hst hc hp => simp [hst, hc, isOfPass] at hs

/-- A pass that waits for a callback goes on waiting when what has changed is above it. -/
theorem Passing.stay (h : Passing L s) (hs : s.stack ≠ L ∨ isOfPass s.control = false)
    (ht : ∀ ids now, .dispatch ids now :: L <:+ s.stack → .dispatch ids now :: L <:+ t.stack) : Passing L t := by
  obtain ⟨ids, now, hst⟩ := h.under hs
  exact .calling ids now (ht ids now hst)

/-- A step that is not of a pass and not of a running loop. -/
theorem passing_plain (h : ∀ K, .running :: K <:+ s.stack → Passing (.running :: K) s)
    (hp : s.isLoopStep = false) (hK : .running :: K <:+ s.step.stack) : Passing (.running :: K) s.step := by
  obtain ⟨K', hplain, hK'⟩ := plain_step hp
  have hin : K' <:+ s.stack := by
    rcases hK' with rfl | ⟨v, f, -, hst, -⟩
    · exact List.suffix_rfl
    · rw [hst]
      exact List.suffix_cons f K'
  have hpassing := h K ((hplain.stack.suffix_of_not_plain rfl hK).trans hin)
  -- with the loop's frame on top only the pass itself can make the step, and that would be no plain one
  have hbusy : s.stack ≠ .running :: K ∨ isOfPass s.control = false := by
    by_contra hno
    obtain ⟨hst, hc⟩ : s.stack = .running :: K ∧ isOfPass s.control = true := by simpa using hno
    revert hp
    unfold isOfPass at hc
    split at hc <;> simp_all [isLoopStep]
  refine hpassing.stay hbusy fun ids now hst => ?_
  refine List.IsSuffix.trans ?_ hplain.stack.suffix
  rcases hK' with rfl | ⟨v, f, -, hf, hfp⟩
  · exact hst
  · rw [hf] at hst
    rcases List.suffix_cons_iff.1 hst with he | hst
    · cases he
      cases hfp
    · exact hst

/-- The request to stop ends the loop, and is used up. -/
theorem step_stops (hc : s.control = .keepRunning) (hq : s.loop.quit = true) :
    s.step = Machine.yieldAnswer { s with loop := { s.loop with quit := false } } .nothing := by
  have hstep : s.step = s.keepRunning := by rw [step, hc]
  rw [hstep, keepRunning, if_pos hq]

theorem step_goesOn (hc : s.control = .keepRunning) (hq : s.loop.quit = false) :
    s.step = (s.push .running).go (.pass true) := by
  have hstep : s.step = s.keepRunning := by rw [step, hc]
  rw [hstep, keepRunning, if_neg (by simp [hq])]

/-- A step leaves the pass that a running loop waits for in one of its states. -/
theorem passing_step (h : ∀ K, .running :: K <:+ s.stack → Passing (.running :: K) s)
    (hK : .running :: K <:+ s.step.stack) : Passing (.running :: K) s.step := by
  cases hp : s.isLoopStep with
  | false => exact passing_plain h hp hK
  | true =>
    cases loopStep_of_isLoopStep hp with
    | pass b hc =>
      rw [step, hc] at hK ⊢
      have hpassing := h K (by rwa [stack_pass] at hK)
      cases hpassing with
      | begins hst hb =>
        rw [hc] at hb
        cases hb
        exact passing_opening s hst
      | choosing ids now ran hst hb => simp [hc] at hb
      | ended p hst hb hp => simp [hc] at hb
      | calling ids now hst => exact .calling ids now (by rwa [stack_pass])
    | dispatch ids now ran hc =>
      rw [step, hc] at hK ⊢
      by_cases hst : s.stack = .running :: K
      · exact passing_dispatch s ids now ran hst
      · exact (h K (suffix_of_dispatch hK)).stay (.inl hst) fun _ _ hs => hs.trans (suffix_dispatch s ids now ran)
    | settled id cb b L hc hst =>
      have hstep : s.step.stack = L := by
        rw [step_value hc hst]
        exact stack_settle _ id cb b
      rw [hstep] at hK
      refine (h K (hst ▸ hK.trans (List.suffix_cons _ L))).stay (.inl (by simp [hst])) fun ids now hs => ?_
      rw [hst] at hs
      rw [hstep]
      simpa [List.suffix_cons_iff] using hs
    | called v ids now L hc hst =>
      have hstep : s.step = Machine.go { s with stack := L } (.dispatch ids now true) := step_value hc hst
      rw [hstep] at hK ⊢
      by_cases hL : L = .running :: K
      · exact .choosing ids now true hL rfl
      · refine (h K (hst ▸ hK.trans (List.suffix_cons _ L))).stay (.inl (by simp [hst])) fun ids' now' hs => ?_
        rw [hst] at hs
        rcases List.suffix_cons_iff.1 hs with he | hs
        · exact absurd (List.cons.inj he).2.symm hL
        · exact hs
    | run hc =>
      rw [step, hc] at hK ⊢
      exact (h K hK).stay (.inr (by rw [hc]; rfl)) fun _ _ hs => hs
    | quit hc =>
      rw [step, hc] at hK ⊢
      exact (h K hK).stay (.inr (by rw [hc]; rfl)) fun _ _ hs => hs
    | runsOn hc =>
      have hbusy : isOfPass s.control = false := by rw [hc]; rfl
      cases hq : s.loop.quit with
      | true =>
        rw [step_stops hc hq] at hK ⊢
        exact (h K hK).stay (.inr hbusy) fun _ _ hs => hs
      | false =>
        rw [step_goesOn hc hq] at hK ⊢
        rcases List.suffix_cons_iff.1 hK with he | hK
        · exact .begins he.symm rfl
        · exact (h K hK).stay (.inr hbusy) fun _ _ hs => hs.trans (List.suffix_cons _ _)
    | passed p L hc hst =>
      have hstep : s.step.stack = L := by
        rw [step_value hc hst]
        exact stack_ranOn _ p
      rw [hstep] at hK
      have hne : s.stack ≠ .running :: K := by
        intro he
        rw [hst] at he
        exact absurd (length_lt_of_suffix hK) (by simp [(List.cons.inj he).2])
      refine (h K (hst ▸ hK.trans (List.suffix_cons _ L))).stay (.inl hne) fun ids now hs => ?_
      rw [hst] at hs
      rw [hstep]
      simpa [List.suffix_cons_iff] using hs

/-- A pass that a running loop waits for is in one of its states. -/
theorem passing_run (h : Run G s log) : ∀ K, .running :: K <:+ s.stack → Passing (.running :: K) s := by
  refine Run.invariant (P := fun s _ => ∀ K, .running :: K <:+ s.stack → Passing (.running :: K) s)
    (fun s hi => ?_) (fun s log t log' ih hm => ?_) h
  · intro K hK
    have hnil : s.stack = [] := by cases hi <;> rfl
    simp [hnil] at hK
  · have rest : s.isIdle = true → ∀ K, ¬ .running :: K <:+ s.stack := by
      intro hi K hK
      simp [(control_of_isIdle hi).2] at hK
    cases hm with
    | step hg => exact fun K hK => passing_step ih hK
    | elsewhere k =>
      intro K hK
      cases ih K hK with
      | begins hst hc => exact .begins hst hc
      | choosing ids now ran hst hc => exact .choosing ids now ran hst hc
      | calling ids now hst => exact .calling ids now hst
      | ended p hst hc hp => exact .ended p hst hc hp
    | rejoin inner a hs =>
      intro K hK
      exact (ih K hK).stay (.inr (by rw [hs]; rfl)) fun _ _ h => h
    | start op hi => exact fun K hK => (rest hi K hK).elim
    | ending hi => exact fun K hK => (rest hi K hK).elim

/-! ## The request to stop -/

/-- The loop is asked to stop: by a call of quit, by a kernel that can never answer, or because an isolated run
has met such a kernel. -/
inductive Quits : Machine → Machine → Prop
  | step {s : Machine} : .quit ∈ s.news → Quits s s.step
  | rejoin {s : Machine} (inner : Machine) (a : Answer) : inner.strayQuit = true → Quits s (Session.rejoin s inner a)

def Until (depth : Nat) (R : Machine → Machine → Prop) (x y : Machine × List Entry) : Prop :=
  ReflTransGen (fun u v => Move (fun _ => True) u v ∧ returned depth u.1 = false ∧ R u.1 v.1) x y

/-- The first step of a pass leaves the request to stop as it is, or makes one and records it. -/
theorem quit_pass (s : Machine) (b : Bool) : (s.pass b).loop.quit = s.loop.quit ∨
    (s.pass b).loop.quit = true ∧ ∃ es, (s.pass b).journal = .quit :: es ++ s.journal := by
  have hrecollected : ∀ k revents, (s.recollected b k revents).loop.quit = s.loop.quit :=
    fun k revents => Loop.quit_record s.attentive.loop _
  cases opening s b with
  | stalled hr ht h => exact .inl (by rw [h]; rfl)
  | failed k code hk h => exact .inl (by rw [h]; rfl)
  | deadlock k hk h =>
    rw [h]
    unfold stopFromKernel
    split
    · exact .inr ⟨rfl, .polled _ _ .deadlock :: questions (s.loop.asks s.kernel), rfl⟩
    · exact .inl rfl
  | quiet k revents hk hids h => exact .inl (by rw [h, quit_yield, hrecollected])
  | chosen k revents ids hk hne hids h => exact .inl (by rw [h, quit_go, hrecollected])

theorem quit_dispatch (s : Machine) (ids : List Nat) (now : Nat) (ran : Bool) :
    (s.dispatch ids now ran).loop.quit = s.loop.quit := by
  unfold dispatch
  split
  · rfl
  · split
    · rfl
    · next hl =>
      dsimp only
      split <;> exact Loop.quit_take hl

theorem quit_settle (s : Machine) (id : Nat) (cb : Callback) (b : Bool) :
    (s.settle id cb b).loop.quit = s.loop.quit := by
  unfold settle
  dsimp only
  split <;> rfl

/-- A step that uses the request to stop up, or begins to listen to it. -/
def clearsQuit (s : Machine) : Bool :=
  match s.control, s.stack with
  | .perform .run, _ => true
  | .keepRunning, _ => true
  | .value (.passed .stalled), .running :: _ => true
  | _, _ => false

/-- A step leaves the request to stop as it is, makes one and records it, or uses it up. -/
theorem quit_step (s : Machine) : s.step.loop.quit = s.loop.quit ∨
    s.step.loop.quit = true ∧ .quit ∈ s.news ∨ s.step.loop.quit = false ∧ s.clearsQuit = true := by
  cases hp : s.isLoopStep with
  | false =>
    obtain ⟨K, hplain, -⟩ := plain_step hp
    exact .inl hplain.quit
  | true =>
    cases loopStep_of_isLoopStep hp with
    | pass b hc =>
      have hstep : s.step = s.pass b := by rw [step, hc]
      rcases quit_pass s b with hq | ⟨hq, es, hj⟩
      · exact .inl (by rw [hstep, hq])
      · refine .inr (.inl ⟨by rw [hstep, hq], ?_⟩)
        rw [← hstep] at hj
        rw [news_eq hj]
        exact List.mem_cons_self
    | dispatch ids now ran hc =>
      refine .inl ?_
      rw [step, hc]
      exact quit_dispatch s ids now ran
    | settled id cb b L hc hst =>
      refine .inl ?_
      rw [step_value hc hst]
      exact quit_settle _ id cb b
    | called v ids now L hc hst => exact .inl (by rw [step_value hc hst]; rfl)
    | run hc => exact .inr (.inr ⟨by rw [step, hc]; rfl, by simp [clearsQuit, hc]⟩)
    | quit hc =>
      have hstep : s.step = s.quit.yieldAnswer .nothing := by rw [step, hc]; rfl
      have hj : s.step.journal = [.quit] ++ s.journal := by rw [hstep]; rfl
      exact .inr (.inl ⟨by rw [hstep]; rfl, by rw [news_eq hj]; exact List.mem_cons_self⟩)
    | runsOn hc =>
      cases hq : s.loop.quit with
      | true => exact .inr (.inr ⟨by rw [step_stops hc hq]; rfl, by simp [clearsQuit, hc]⟩)
      | false =>
        refine .inl ?_
        rw [step_goesOn hc hq]
        exact hq
    | passed p L hc hst =>
      rw [step_value hc hst]
      cases p with
      | stalled => exact .inr (.inr ⟨rfl, by simp [clearsQuit, hc, hst]⟩)
      | dispatched => exact .inl rfl
      | empty => exact .inl rfl

/-- A loop that nobody asks to stop goes on not being asked. -/
theorem quit_move (hm : Move G (s, log) (t, log')) (hn : ¬ Quits s t) (hq : s.loop.quit = false) :
    t.loop.quit = false := by
  cases hm with
  | step hg =>
    rcases quit_step s with h | ⟨-, hmem⟩ | ⟨h, -⟩
    · rw [h, hq]
    · exact absurd (.step hmem) hn
    · exact h
  | elsewhere k => exact hq
  | rejoin inner a hs =>
    have hstray : inner.strayQuit = false := by
      rw [← Bool.not_eq_true]
      exact fun h => hn (.rejoin inner a h)
    show (s.loop.quit || inner.strayQuit) = false
    rw [hq, hstray]
    rfl
  | start op hi => exact hq
  | ending hi => exact hq

theorem not_quits (hn : s.news.any Entry.isQuit = false) (hq : t.loop.quit = false) : ¬ Quits s t := by
  intro h
  cases h with
  | step hmem =>
    rw [List.any_eq_false] at hn
    exact hn _ hmem rfl
  | rejoin inner a hs =>
    have hset : (s.loop.quit || inner.strayQuit) = false := hq
    rw [hs, Bool.or_true] at hset
    cases hset

/-- Steps make such a path as well. -/
theorem until_walk {depth n : Nat} {R : Machine → Machine → Prop} {x : Machine × List Entry}
    (hr : ∀ m < n, returned depth (walk m x).1 = false) (hR : ∀ m < n, R (walk m x).1 (walk m x).1.step) :
    Until depth R x (walk n x) :=
  walk_path fun m hm => ⟨.step trivial, hr m hm, hR m hm⟩

/-- What holds at first and is kept by every such move holds on the whole path. -/
theorem Until.invariant {depth : Nat} {R : Machine → Machine → Prop} {P : Machine → Prop}
    {x y : Machine × List Entry}
    (hp : Until depth R x y) (hr : Run (fun _ => True) x.1 x.2) (hx : P x.1)
    (hmove : ∀ s log t log', Run (fun _ => True) s log → P s → Move (fun _ => True) (s, log) (t, log') →
      returned depth s = false → R s t → P t) : Run (fun _ => True) y.1 y.2 ∧ P y.1 := by
  induction hp with
  | refl => exact ⟨hr, hx⟩
  | tail _ hm ih => exact ⟨ih.1.move hm.1, hmove _ _ _ _ ih.1 ih.2 hm.1 hm.2.1 hm.2.2⟩

end Machine

end Overseer
