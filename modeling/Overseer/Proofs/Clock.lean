import Overseer.Supervisor.Step

/-!
# The clock of the kernel

Time passes while a poll waits, and when it is advanced from outside; no other system call takes any.
A poll that is given an end of its time is over by then.  It may end at any time before, with any
report and with any error: nothing else is assumed of a poll where time is bounded.

    poll ≤ n ms   :   now ≤ now' ≤ now + 1000000 n
    other calls   :   now' = now
-/

namespace Overseer

namespace Kernel

/-! ## Calls that take no time -/

@[simp] theorem now_tend (k : Kernel) : k.tend.now = k.now := rfl

@[simp] theorem now_fault (k : Kernel) (c : Call) : (k.fault c).2.now = k.now := by
  unfold fault
  split <;> rfl

@[simp] theorem now_apply (k : Kernel) (e : Event) : (k.apply e).now = k.now := by
  cases e <;> rfl

@[simp] theorem now_read (k : Kernel) (pid : Int) (st : Stream) (size : Nat) :
    (k.read pid st size).2.now = k.now := by
  have hf := k.now_fault .read
  unfold read
  generalize k.fault .read = r at hf
  obtain ⟨_ | e, k'⟩ := r
  · dsimp only at hf ⊢
    split
    · exact hf
    · split <;> exact hf
  · exact hf

@[simp] theorem now_write (k : Kernel) (pid : Int) (data : Bytes) : (k.write pid data).2.now = k.now := by
  have hf := k.now_fault .write
  unfold write
  generalize k.fault .write = r at hf
  obtain ⟨_ | e, k'⟩ := r
  · dsimp only at hf ⊢
    split
    · exact hf
    · split
      · exact hf
      · split
        · exact hf
        · split <;> exact hf
  · exact hf

@[simp] theorem now_waitpid (k : Kernel) (pid : Int) : (k.waitpid pid).2.now = k.now := by
  have hf := k.now_fault .waitpid
  unfold waitpid
  generalize k.fault .waitpid = r at hf
  obtain ⟨_ | e, k'⟩ := r
  · dsimp only at hf ⊢
    split
    · exact hf
    · split <;> exact hf
  · exact hf

@[simp] theorem now_kill (k : Kernel) (target sig : Int) : (k.kill target sig).2.now = k.now := by
  have hf := k.now_fault .kill
  unfold kill
  generalize k.fault .kill = r at hf
  obtain ⟨_ | e, k'⟩ := r
  · dsimp only at hf ⊢
    split
    · exact hf
    · split
      · exact hf
      · split
        · exact hf
        · split <;> exact hf
  · exact hf

@[simp] theorem now_setNonblocking (k : Kernel) : k.setNonblocking.2.now = k.now := by
  have hf := k.now_fault .fcntl
  unfold setNonblocking
  generalize k.fault .fcntl = r at hf
  obtain ⟨_ | e, k'⟩ := r
  · exact hf
  · have hf' := k'.now_fault .fcntl
    dsimp only at hf ⊢
    split
    · exact hf
    · split
      · generalize k'.fault .fcntl = r at hf'
        obtain ⟨_ | e', k''⟩ := r <;> exact hf'.trans hf
      · exact hf

@[simp] theorem now_spawn (k : Kernel) (pipes : Pipes) (leader : Bool) (plan : Plan) :
    (k.spawn pipes leader plan).2.now = k.now := by
  have hplan : ∀ (events : List (Nat × Event)) (k : Kernel) (pid : Int),
      (events.foldl (fun k e => k.schedule (k.now + e.1) (e.2.retarget pid)) k).now = k.now := by
    intro events
    induction events with
    | nil => intro k pid; rfl
    | cons e events ih => intro k pid; exact ih (k.schedule _ _) pid
  exact hplan _ _ _

@[simp] theorem now_takeConsumed (k : Kernel) (pid : Int) : (k.takeConsumed pid).2.now = k.now := by
  unfold takeConsumed
  split <;> rfl

@[simp] theorem now_due (k : Kernel) : k.due.now = k.now := by
  have happly : ∀ (agenda : List (Nat × Event)) (k : Kernel), (applyDue k agenda).now = k.now := by
    intro agenda
    induction agenda with
    | nil => intro k; rfl
    | cons e agenda ih =>
      intro k
      unfold applyDue
      split
      · exact (ih _).trans (k.now_apply e.2)
      · rfl
  exact happly _ _

/-! ## Polls -/

/-- The clock does not stop behind the end of the time. -/
theorem nextStop_le {k : Kernel} {d t : Nat} (h : k.nextStop (some d) = some t) : t ≤ d := by
  unfold nextStop at h
  split at h
  · cases h
    exact Nat.le_refl _
  · contradiction
  · next heq =>
    cases heq
    cases h
    exact Nat.min_le_right _ _

theorem now_le_awaitReady (fuel : Nat) (rs : List Request) (deadline : Option Nat) (k : Kernel) :
    k.now ≤ (awaitReady fuel rs deadline k).2.now := by
  induction fuel generalizing k with
  | zero => exact Nat.le_refl _
  | succ fuel ih =>
    have hsame : k.due.tend.now = k.now := by rw [now_tend, now_due]
    unfold awaitReady
    dsimp only
    split
    · exact Nat.le_of_eq hsame.symm
    · split
      · exact Nat.le_of_eq hsame.symm
      · next t _ =>
        refine Nat.le_trans ?_ (ih { k.due.tend with now := max k.due.tend.now t })
        exact Nat.le_trans (Nat.le_of_eq hsame.symm) (Nat.le_max_left _ _)

theorem now_awaitReady_le (fuel : Nat) (rs : List Request) (d : Nat) (k : Kernel) :
    (awaitReady fuel rs (some d) k).2.now ≤ max k.now d := by
  induction fuel generalizing k with
  | zero => exact Nat.le_max_left _ _
  | succ fuel ih =>
    have hsame : k.due.tend.now = k.now := by rw [now_tend, now_due]
    unfold awaitReady
    dsimp only
    split
    · exact Nat.le_trans (Nat.le_of_eq hsame) (Nat.le_max_left _ _)
    · split
      · exact Nat.le_trans (Nat.le_of_eq hsame) (Nat.le_max_left _ _)
      · next t ht =>
        have hstop : t ≤ d := nextStop_le ht
        have hrest := ih { k.due.tend with now := max k.due.tend.now t }
        dsimp only at hrest
        omega

/-! A sleep ends at its time.  Each round but the first and the last applies an event, so that the rounds
suffice. -/

theorem length_applyDue_le (l : List (Nat × Event)) (k : Kernel) : (applyDue k l).agenda.length ≤ l.length := by
  induction l generalizing k with
  | nil => exact Nat.le_refl _
  | cons e l ih =>
    unfold applyDue
    split
    · exact Nat.le_trans (ih (k.apply e.2)) (Nat.le_succ _)
    · exact Nat.le_refl _

/-- What is due is taken off the agenda. -/
theorem length_due_le {k : Kernel} {e : Nat × Event} {l : List (Nat × Event)} (hagenda : k.agenda = e :: l)
    (hdue : e.1 ≤ k.now) : k.due.agenda.length ≤ l.length := by
  rw [due, hagenda, applyDue, if_pos hdue]
  exact length_applyDue_le l (k.apply e.2)

/-- From the end of the time on, a wait stops the clock. -/
theorem now_awaitReady_of_over (fuel : Nat) (rs : List Request) (k : Kernel) :
    (awaitReady fuel rs (some k.now) k).2.now = k.now := by
  have hle := now_awaitReady_le fuel rs k.now k
  have hge := now_le_awaitReady fuel rs (some k.now) k
  omega

theorem now_awaitReady_nil (fuel : Nat) (k : Kernel) {d : Nat} (hd : k.now ≤ d)
    (hfuel : k.due.agenda.length < fuel) : (awaitReady fuel [] (some d) k).2.now = d := by
  induction fuel generalizing k with
  | zero => cases hfuel
  | succ fuel ih =>
    have hnow : k.due.tend.now = k.now := by rw [now_tend, now_due]
    unfold awaitReady
    dsimp only
    split
    · next hover =>
      have hover : d ≤ k.due.tend.now := by simpa [isOver] using hover
      rw [hnow] at hover ⊢
      exact Nat.le_antisymm hd hover
    · next hover =>
      have hover : ¬ d ≤ k.due.tend.now := by simpa [isOver] using hover
      unfold nextStop
      cases hagenda : k.due.tend.agenda with
      | nil =>
        -- nothing is planned: the clock moves to the end of the time
        have hend : max k.due.tend.now d = d := by omega
        dsimp only
        rw [hend]
        exact now_awaitReady_of_over fuel [] { k.due.tend with now := d, agenda := [] }
      | cons e agenda =>
        dsimp only
        by_cases hearly : e.1 < d
        · rw [Nat.min_eq_left (Nat.le_of_lt hearly)]
          refine ih _ (Nat.max_le.2 ⟨Nat.le_of_lt (Nat.not_le.1 hover), Nat.le_of_lt hearly⟩) ?_
          refine Nat.lt_of_le_of_lt (length_due_le rfl (Nat.le_max_right _ _)) ?_
          have hlength : k.due.agenda.length = agenda.length + 1 := congrArg List.length hagenda
          omega
        · have hend : max k.due.tend.now (min e.1 d) = d := by omega
          rw [hend]
          exact now_awaitReady_of_over fuel [] { k.due.tend with now := d, agenda := e :: agenda }

/-- A sleep takes its time. -/
@[simp] theorem now_sleep (k : Kernel) (ns : Nat) : (k.sleep ns).now = k.now + ns := by
  unfold sleep
  split
  · next h => rw [h, Nat.add_zero]
  · have hdue : k.due.agenda.length ≤ k.agenda.length := length_applyDue_le k.agenda k
    exact now_awaitReady_nil _ k (Nat.le_add_right _ _) (by omega)

/-- A poll whose end is queued gives the answer of that end, after its time or after all that it may take. -/
theorem poll_of_end {k : Kernel} {e : PollEnd} {later : List PollEnd} (h : k.pollEnds = e :: later)
    (rs : List Request) (ms : Option Nat) :
    (k.poll rs ms).1 = e.answer ∧ (k.poll rs ms).2.now = k.now + sleepTime e.slept ms := by
  unfold poll
  rw [h]
  exact ⟨rfl, now_sleep _ _⟩

theorem sleepTime_le (slept ms : Nat) : sleepTime slept (some ms) ≤ 1000000 * ms := Nat.min_le_right _ _

/-- The clock never goes back in a poll. -/
theorem now_le_poll (k : Kernel) (rs : List Request) (ms : Option Nat) : k.now ≤ (k.poll rs ms).2.now := by
  cases h : k.pollEnds with
  | nil =>
    unfold poll
    rw [h]
    exact now_le_awaitReady _ _ _ _
  | cons e later =>
    rw [(poll_of_end h rs ms).2]
    exact Nat.le_add_right _ _

/-- A poll sleeps no longer than it is asked to, however it ends. -/
theorem now_poll_le (k : Kernel) (rs : List Request) (ms : Nat) :
    (k.poll rs (some ms)).2.now ≤ k.now + 1000000 * ms := by
  cases h : k.pollEnds with
  | nil =>
    have hend := now_awaitReady_le (k.agenda.length + 2) rs (k.now + 1000000 * ms) k
    unfold poll
    rw [h, Option.map_some]
    dsimp only
    omega
  | cons e later =>
    rw [(poll_of_end h rs (some ms)).2]
    exact Nat.add_le_add_left (sleepTime_le e.slept ms) _

/-- Within its time, a poll may give any report and any error after any sleep. -/
theorem exists_poll (k : Kernel) (rs : List Request) {answer : Polled} (hanswer : answer ≠ .deadlock)
    {slept ms : Nat} (h : slept ≤ 1000000 * ms) :
    ∃ ends, ({ k with pollEnds := ends }.poll rs (some ms)).1 = answer ∧
      ({ k with pollEnds := ends }.poll rs (some ms)).2.now = k.now + slept := by
  have hslept : ∀ e : PollEnd, e.slept = slept → sleepTime e.slept (some ms) = slept := by
    rintro e rfl
    exact Nat.min_eq_left h
  have hend : ∀ e : PollEnd, e.slept = slept →
      ({ k with pollEnds := [e] }.poll rs (some ms)).1 = e.answer ∧
        ({ k with pollEnds := [e] }.poll rs (some ms)).2.now = k.now + slept := by
    intro e he
    obtain ⟨hgives, hnow⟩ := poll_of_end (k := { k with pollEnds := [e] }) rfl rs (some ms)
    exact ⟨hgives, hnow.trans (by rw [hslept e he])⟩
  cases answer with
  | failed code => exact ⟨_, hend (.fails slept code) rfl⟩
  | ready revents => exact ⟨_, hend (.reports slept revents) rfl⟩
  | deadlock => exact absurd rfl hanswer

end Kernel

namespace Loop

/-! ## Collecting -/

theorem now_askChild (fuel : Nat) (k : Kernel) (pid : Int) : (askChild fuel k pid).2.now = k.now := by
  induction fuel generalizing k with
  | zero => rfl
  | succ fuel ih =>
    have hw := k.now_waitpid pid
    unfold askChild
    generalize k.waitpid pid = r at hw
    obtain ⟨w, k'⟩ := r
    split
    · next heq =>
      obtain ⟨-, rfl⟩ := Prod.mk.inj heq
      exact (ih k').trans hw
    · next heq =>
      obtain ⟨-, rfl⟩ := Prod.mk.inj heq
      exact hw

theorem now_reap (k : Kernel) (pid : Int) : (reap k pid).2.2.now = k.now :=
  now_askChild (k.faults.waitpid.length + 1) k pid

theorem now_collectIn {κ : Type} (ws : List (Watch κ)) (k : Kernel) : (collectIn ws k).2.2.now = k.now := by
  induction ws generalizing k with
  | nil => rfl
  | cons w ws ih =>
    unfold collectIn
    split
    · exact (ih _).trans (now_reap k _)
    · exact ih _

end Loop

@[simp] theorem Machine.now_collect (s : Machine) : s.collect.kernel.now = s.kernel.now :=
  Loop.now_collectIn s.loop.watches s.kernel

end Overseer
