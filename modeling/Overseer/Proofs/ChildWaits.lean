import Overseer.Proofs.Alarms
import Overseer.Proofs.FirsthandExits
import Overseer.Proofs.Lifecycle
import Overseer.Proofs.UnrelatedCallbacks

/-!
# Waits for a child

A wait has a timer that is due at the time D, and it pumps the loop until its child is reaped or the timer
has rung.  The watch on the child is older than the timer, so that a pass in which both are ready runs it
first.  Hence a timer that rings in time has nothing to tell of the child that is not known already.

    Sure   =  the child does not exit up to D, or its exit has reached the handle, or is on its way there
    listed =  a pass that has still to run the timer is sure, or runs the watch on the child before it

Main statements: `waited_step`, `listed_of_pass`.
-/

namespace Overseer

open Supervisor

namespace Supervisor

def Entry.isPoll : Entry → Bool
  | polled .. => true
  | _ => false

/-- The child was found running after the kernel had been asked for descriptors. -/
def foundRunning (p : Int) : List Entry → Bool
  | [] => false
  | .asked q .running :: r => (q == p && r.any Entry.isPoll) || foundRunning p r
  | _ :: r => foundRunning p r

theorem foundRunning_append {p : Int} {newer older : List Entry} (hp : older.any Entry.isPoll = true)
    (hm : .asked p .running ∈ newer) : foundRunning p (newer ++ older) = true := by
  induction newer with
  | nil => cases hm
  | cons e r ih =>
    rcases List.mem_cons.1 hm with rfl | hm
    · have hany : (r ++ older).any Entry.isPoll = true := by rw [List.any_append, hp, Bool.or_true]
      simp [foundRunning, hany]
    · have hrest := ih hm
      rw [List.cons_append]
      unfold foundRunning
      split
      · next h => cases h
      · next h =>
        cases h
        rw [hrest, Bool.or_true]
      · next h =>
        cases h
        exact hrest

end Supervisor

namespace Machine

/-- A child that is found running after a poll does not exit up to the time of the question. -/
def Prompt (exit : Option (Nat × Int)) (h : Nat) (s : Machine) : Prop :=
  ∀ p ∈ (s.handle h).pid, ∀ e ∈ exit, foundRunning p s.news = true → s.step.kernel.now < e.1

/-- Whatever a pass may find out about the child up to the time `D` has reached the handle, or is on its way. -/
def Sure (exit : Option (Nat × Int)) (h g D : Nat) (s : Machine) : Prop :=
  (∀ e ∈ exit, D < e.1) ∨ (s.handle h).state = .reaped ∨ ∃ z ∈ s.reapings, z.h = h ∧ z.g = g

/-- The exit of the child stands on its watch, which is run before the timer. -/
def Ahead (h g i : Nat) (ids : List Nat) (s : Machine) : Prop :=
  ∃ k ∈ s.loop.own, k.callback = .reap h g ∧ k.status ≠ none ∧ k.id ∈ ids.takeWhile (· != i)

/-- A pass that has these watches still to run does not run the timer too early. -/
def Listed (exit : Option (Nat × Int)) (h g i D : Nat) (s : Machine) (ids : List Nat) (now : Nat) : Prop :=
  now ≤ s.kernel.now ∧ (i ∈ ids → D ≤ now → Sure exit h g D s ∨ Ahead h g i ids s)

/-- A handle is waited for with the timer `i`, which is due at `D`. -/
structure Waited (exit : Option (Nat × Int)) (h g i D : Nat) (s : Machine) : Prop where
  generation : (s.handle h).generation = g
  alive : (s.handle h).state = .running ∨ (s.handle h).state = .reaped
  le : i ≤ s.loop.lastId
  elder : ∀ k ∈ s.loop.own, k.callback = .reap h g → k.id < i
  alarm : Alarm s i D
  rung : i ∈ s.raised → D ≤ s.kernel.now ∧ Sure exit h g D s

variable {o s t : Machine} {σ τ : Scene} {log : List Entry} {h g i D : Nat} {exit : Option (Nat × Int)}
  {past : List Machine}
  {A K : List Frame}

/-! ## The ward of the child -/

/-- Every ward of this generation stems from one of `s`, and an open one was open then. -/
def Stems (s : Machine) (h g : Nat) (t : Machine) : Prop :=
  g ≤ (t.handle h).generation ∧ ∀ k' ∈ t.loop.own, k'.callback = .reap h g →
    ∃ k ∈ s.loop.own, k.id = k'.id ∧ k.callback = .reap h g ∧ (k'.status = none → k.status = none)

theorem Stems.effect (hs : Stems s h g σ.machine) (hsound : σ.Sound) (he : Effect o σ τ) :
    Stems s h g τ.machine := by
  obtain ⟨hle, hback⟩ := hs
  rcases effect_cases he hsound with ⟨hq, -⟩ | hch
  · exact ⟨by rw [(hq.handles h).generation]; exact hle, by rw [hq.own]; exact hback⟩
  · cases hch with
    | collected =>
      refine ⟨hle, fun k' hk' hcb => ?_⟩
      rcases own_collect hk' with ⟨hk, -⟩ | ⟨k, hk, hn, a, -, -, rfl⟩
      · exact hback k' hk hcb
      · obtain ⟨m, hm, hid, hmcb, hopen⟩ := hback k hk hcb
        exact ⟨m, hm, hid, hmcb, fun _ => hopen hn⟩
    | taken time k st hk hst => exact ⟨hle, fun k' hk' => hback k' (mem_own_erase.1 hk').1⟩
    | @adopted u v _ _ j c e pid ha =>
      refine ⟨?_, fun k' hk' hcb => ?_⟩
      · rcases ha.cases h with hsame | ⟨rfl, hl⟩
        · exact (congrArg Handle.generation hsame).symm ▸ hle
        · obtain ⟨out, err, hlife, -⟩ := ha.life hl
          have hgen : (v.handle h).generation = (u.handle h).generation + 1 := congrArg Life.generation hlife
          dsimp only at hle ⊢
          omega
      · rcases ha.mem_own.1 hk' with hk | rfl
        · exact hback k' hk hcb
        · -- a new ward is one of a later generation
          cases hcb
          exact absurd hle (by dsimp only; omega)
    | @closed u v _ _ j hcl =>
      refine ⟨?_, fun k' hk' hcb => ?_⟩
      · by_cases hj : h = j
        · subst hj
          have hgen : (v.handle h).generation = (u.handle h).generation := congrArg Life.generation hcl.handle
          exact hgen.symm ▸ hle
        · exact (congrArg Handle.generation (hcl.others h hj)).symm ▸ hle
      · rcases hcl.mem_own.1 hk' with ⟨hk, -⟩ | ⟨p, -, rfl⟩
        · exact hback k' hk hcb
        · cases hcb
    | @reaped u _ _ j pid st hx hrun =>
      refine ⟨?_, hback⟩
      dsimp only
      rw [handle_mapHandle]
      split
      · next hj =>
        rw [← hj.1]
        exact hle
      · exact hle

theorem stems_step (hc : Custody s.scene log) (hg : g ≤ (s.handle h).generation) : Stems s h g s.step := by
  obtain ⟨-, -, -, hstems⟩ := hc.effects (P := fun σ _ => Stems s h g σ.machine)
    ⟨hg, fun k hk hcb => ⟨k, hk, rfl, hcb, fun hn => hn⟩⟩
    (fun σ τ log news hc hs he _ => hs.effect hc.sound he) (step_effects s hc.sound.tidy)
  exact hstems

/-! ## Clock, registry and passes -/

theorem now_le_step (s : Machine) : s.kernel.now ≤ s.step.kernel.now :=
  step_keeps (P := fun t => s.kernel.now ≤ t.kernel.now) (Nat.le_refl _) fun _ _ he hu => Nat.le_trans hu he.now_le

theorem source_of_parked {w : Loop.Watch Callback} {k : Ward} (hw : w.ward? = some k) (hparked : k.status ≠ none) :
    ∃ pid fd st, w.source = .child pid fd (some st) k.callback := by
  unfold Loop.Watch.ward? at hw
  split at hw
  · next pid fd st cb hs =>
    cases hw
    obtain ⟨st, rfl⟩ := Option.ne_none_iff_exists'.1 hparked
    exact ⟨pid, fd, st, hs⟩
  · cases hw

/-- A pass that comes to a ward on which an exit stands calls the handle to which it is told. -/
theorem reaping_of_take (hc : Custody s.scene log) {k : Ward} {rest : List Nat} {now : Nat} {ran : Bool}
    (hk : k ∈ s.loop.own) (hcb : k.callback = .reap h g) (hparked : k.status ≠ none)
    (hctl : s.control = .dispatch (k.id :: rest) now ran) : ∃ z ∈ s.step.reapings, z.h = h ∧ z.g = g := by
  obtain ⟨w, hw, hwk⟩ := Loop.mem_wards.1 (Loop.mem_own.1 hk).1
  obtain ⟨pid, fd, st, hs⟩ := source_of_parked hwk hparked
  rw [hcb] at hs
  have htake : s.loop.take k.id now = some (⟨.reap h g, .child pid st, true⟩, s.loop.erase k.id) := by
    have hfind : s.loop.find? w.id = some w := Loop.find?_of_mem hc.sound.tidy hw
    unfold Loop.take
    rw [Loop.ward?_id hwk, hfind]
    simp [Loop.Source.isReady, hs]
  have hstep : s.step = s.dispatch (k.id :: rest) now ran := by rw [step, hctl]
  refine ⟨⟨h, g, pid, st⟩, ?_, rfl, rfl⟩
  rw [hstep]
  unfold dispatch
  dsimp only
  rw [htake]
  exact List.mem_append_left _ List.mem_cons_self

/-- A timer that is run is due. -/
theorem due_of_take {interval now : Nat} {job : Loop.Job Callback} {l : Loop Callback} (ht : s.loop.Tidy)
    (hm : timer i interval D ∈ s.loop.watches) (htake : s.loop.take i now = some (job, l)) : D ≤ now := by
  have hfind : s.loop.find? i = some (timer i interval D) := Loop.find?_of_mem ht hm
  unfold Loop.take at htake
  rw [hfind] at htake
  by_contra hearly
  simp [timer, Loop.Source.isReady, hearly] at htake

/-- A mark is left by a timer that rings. -/
theorem raised_step (hr : i ∈ s.step.raised) :
    i ∈ s.raised ∨ ∃ payload, s.control = .invoke i .raise payload := by
  refine step_keeps (P := fun t => i ∈ t.raised → i ∈ s.raised ∨
    ∃ payload, s.control = .invoke i .raise payload)
    .inl (fun u v he hu hv => ?_) hr
  cases he with
  | aside ha => exact hu (by rwa [ha.raised] at hv)
  | rung id payload ho =>
    rcases List.mem_cons.1 hv with rfl | hv
    · exact .inr ⟨payload, ho⟩
    · exact hu hv
  | lowered id ho => exact hu (List.mem_filter.1 hv).1
  | _ => exact hu hv

/-- A pass asks about each child after the poll, and those whose wards are still open were found running. -/
theorem found_of_pass {b : Bool} {ids : List Nat} {now : Nat} {ran : Bool} (hc : s.control = .pass b)
    (hd : s.step.control = .dispatch ids now ran) : ids = s.step.loop.readyIds now ∧ now = s.step.kernel.now ∧
      (∀ j, s.step.handle j = s.handle j) ∧
      ∀ k ∈ s.step.loop.own, k.status = none → foundRunning k.pid s.news = true := by
  have hstep : s.step = s.pass b := by rw [step, hc]
  obtain ⟨u, -, honly, hend⟩ := pass_cases s b
  rw [← hstep] at hend
  rcases hend with ⟨es, v, -, -, hv, heq⟩ | ⟨requests, ms, revents, hj, ⟨v, heq⟩ | heq⟩
  · rw [heq, hv] at hd
    cases hd
  · rw [heq] at hd
    cases hd
  · have hjournal : s.step.journal = (questions (u.loop.asks u.kernel) ++ (.polled requests ms (.ready revents) ::
        questions (s.loop.asks s.kernel))) ++ s.journal := by
      rw [heq]
      show u.collect.journal = _
      rw [journal_collect, hj, journal_collect]
      simp
    rw [news_eq hjournal]
    rw [heq] at hd ⊢
    cases hd
    refine ⟨rfl, rfl, fun j => ?_, fun k hk hn => ?_⟩
    · show u.handle j = s.handle j
      rw [handle, handle, honly.handles]
    · rcases own_collect hk with ⟨-, hne⟩ | ⟨m, -, -, a, ha, -, rfl⟩
      · exact absurd hn hne
      · obtain rfl : a = .running := by
          cases a with
          | running => rfl
          | _ => cases hn
        exact foundRunning_append rfl (List.mem_reverse.2 (List.mem_map.2 ⟨_, ha, rfl⟩))

/-- In a pass a ward on which an exit stands comes before a younger timer. -/
theorem before_timer {l : Loop Callback} {k : Ward} {interval now : Nat} (ho : l.Orderly) (ht : l.Tidy)
    (hk : k ∈ l.own)
    (hparked : k.status ≠ none) (hlt : k.id < i) (hm : timer i interval D ∈ l.watches) (hi : i ∈ l.readyIds now) :
    k.id ∈ (l.readyIds now).takeWhile (· != i) := by
  obtain ⟨hward, hown⟩ := Loop.mem_own.1 hk
  obtain ⟨v, hv, hvk⟩ := Loop.mem_wards.1 hward
  have hready : v.source.isReady now = true := by
    obtain ⟨pid, fd, st, hs⟩ := source_of_parked hvk hparked
    rw [hs]
    rfl
  have hscript : k.callback.isScript = false := by
    unfold Ward.isOwn at hown
    split at hown
    · next hcb => rw [hcb]; rfl
    · next hcb => rw [hcb]; rfl
    · cases hown
  have hid : k.id = v.id := Loop.ward?_id hvk
  rw [hid] at hlt ⊢
  exact Loop.before_in_pass ho ht hv hm hready (ho.normal v hv k hvk hscript) hlt hi

/-! ## Ways of an exit -/

/-- As long as the handle is not closed, its exit has reached it, is on its way there, or a ward waits for it. -/
theorem sure_or_ward (hc : Custody s.scene log) (hg : (s.handle h).generation = g)
    (ha : (s.handle h).state = .running ∨ (s.handle h).state = .reaped) :
    Sure exit h g D s ∨ ∃ k ∈ s.loop.own, k.callback = .reap h g ∧ (s.handle h).pid = some k.pid := by
  rcases ha with hrun | hreaped
  · obtain ⟨p, id, hp, hcw, -, ⟨k, hk, rfl⟩ | ⟨st, hx⟩⟩ := (hc.handle h).running hrun
    · obtain ⟨-, -, hward⟩ := (hc.handle h).child k.id hcw
      obtain ⟨hcb, hpid⟩ := hward k hk rfl
      exact .inr ⟨k, hk, hg ▸ hcb, hpid⟩
    · exact .inl (.inr (.inr ⟨_, hx, rfl, hg⟩))
  · exact .inl (.inr (.inl hreaped))

/-- While a ward waits for the exit, it is neither on its way nor with the handle. -/
theorem late_of_ward {k : Ward} (ht : Trail past s log) (hs : Sure exit h g D s) (hk : k ∈ s.loop.own)
    (hcb : k.callback = .reap h g) : ∀ e ∈ exit, D < e.1 := by
  have hc : Custody s.scene log := custody_run ht.run
  have hacc := accounts_trail ht
  obtain ⟨hg, hcw, -⟩ := owner_of_ward hacc hc.sound.tidy (Loop.mem_own.1 hk).1 hcb
  rcases hs with hlate | hreaped | ⟨z, hz, rfl, hzg⟩
  · exact hlate
  · have hrun : (s.handle h).state = .running := ((hc.handle h).child k.id hcw).2.1
    rw [hreaped] at hrun
    cases hrun
  · have hmem : z ∈ s.stage.duties.flatMap Duty.reapings := by
      have hscene : s.stage.duties.flatMap Duty.reapings = s.reapings := congrArg Scene.reapings (scene_stage s)
      rwa [hscene]
    have hnone : s.loop.look k.id = none := (hacc.ledger.reaping z hmem).2 (hzg.trans hg) k.id hcw
    obtain ⟨w, hlook⟩ : ∃ w, s.loop.look k.id = some w := look_of_own hc.sound.tidy hk
    rw [hlook] at hnone
    cases hnone

/-- A step that does not close the handle leaves it in its generation. -/
theorem alive_step (ht : Trail past s log) (hg : (s.handle h).generation = g)
    (ha : (s.handle h).state = .running ∨ (s.handle h).state = .reaped)
    (hopen : (s.step.handle h).state ≠ .closed) :
    (s.step.handle h).generation = g ∧
      ((s.step.handle h).state = .running ∨ (s.step.handle h).state = .reaped) := by
  have hp : Passage h (s.handle h) s.news (s.step.handle h) s.step.stage.due :=
    (course_step (footing_run ht.run) (ordered_run ht.run)).passage h
  cases hp with
  | stays hb hgen hy hs => exact ⟨hgen.trans hg, by rw [hy]; exact ha⟩
  | reaped st hb hgen hx hy hs hdue => exact ⟨hgen.trans hg, .inr hy⟩
  | closed hb hgen hx hy hs => exact absurd hy hopen
  | spawned hb hgen hx hy =>
    rcases ha with ha | ha <;> rcases hx with hx | hx <;> (rw [ha] at hx; cases hx)

/-! ## Steps -/

section

variable (ht : Trail past s log) (hw : Waited exit h g i D s) (hopen : (s.step.handle h).state ≠ .closed)

include ht hw hopen

theorem sure_step (hs : Sure exit h g D s) : Sure exit h g D s.step := by
  have hc : Custody s.scene log := custody_run ht.run
  obtain ⟨hg, ha⟩ := alive_step ht hw.generation hw.alive hopen
  rcases sure_or_ward hc.step hg ha with hsure | ⟨k', hk', hcb, -⟩
  · exact hsure
  · obtain ⟨k, hk, -, hkcb, -⟩ := (stems_step hc (Nat.le_of_eq hw.generation.symm)).2 k' hk' hcb
    exact .inl (late_of_ward ht hs hk hkcb)

/-- What stands on the ward stays there, or it comes on its way to the handle. -/
theorem assured_step {ids : List Nat} (hs : Sure exit h g D s ∨ Ahead h g i ids s) :
    Sure exit h g D s.step ∨ Ahead h g i ids s.step := by
  have hc : Custody s.scene log := custody_run ht.run
  rcases hs with hs | ⟨m, hm, hmcb, hparked, hbefore⟩
  · exact .inl (sure_step ht hw hopen hs)
  · obtain ⟨hg, ha⟩ := alive_step ht hw.generation hw.alive hopen
    rcases sure_or_ward hc.step hg ha with hsure | ⟨k', hk', hcb, -⟩
    · exact .inl hsure
    · obtain ⟨k, hk, hid, hkcb, hstill⟩ := (stems_step hc (Nat.le_of_eq hw.generation.symm)).2 k' hk' hcb
      -- the handle has one ward
      have hacc := accounts_trail ht
      obtain ⟨-, hcw, -⟩ := owner_of_ward hacc hc.sound.tidy (Loop.mem_own.1 hk).1 hkcb
      obtain ⟨-, hcw', -⟩ := owner_of_ward hacc hc.sound.tidy (Loop.mem_own.1 hm).1 hmcb
      have hsame : k.id = m.id := Option.some.inj (hcw.symm.trans hcw')
      obtain rfl := Loop.ward_eq_of_id_eq hc.sound.tidy (Loop.mem_own.1 hk).1 (Loop.mem_own.1 hm).1 hsame
      exact .inr ⟨k', hk', hcb, fun hn => hparked (hstill hn), hid ▸ hbefore⟩

theorem listed_step {ids : List Nat} {now : Nat} (hl : Listed exit h g i D s ids now) :
    Listed exit h g i D s.step ids now :=
  ⟨Nat.le_trans hl.1 (now_le_step s), fun hi hd => assured_step ht hw hopen (hl.2 hi hd)⟩

/-- When a pass comes to the ward on which the exit stands, the exit comes on its way. -/
theorem listed_next {id : Nat} {rest : List Nat} {now : Nat} {ran : Bool}
    (hc : s.control = .dispatch (id :: rest) now ran)
    (hl : Listed exit h g i D s (id :: rest) now) : Listed exit h g i D s.step rest now := by
  refine ⟨Nat.le_trans hl.1 (now_le_step s), fun hi hd => ?_⟩
  rcases hl.2 (List.mem_cons_of_mem _ hi) hd with hs | ⟨k, hk, hcb, hparked, hbefore⟩
  · exact .inl (sure_step ht hw hopen hs)
  · have hne : id ≠ i := by
      rintro rfl
      simp at hbefore
    rw [List.takeWhile_cons_of_pos (by simpa using hne)] at hbefore
    rcases List.mem_cons.1 hbefore with hid | hbefore
    · exact .inl (.inr (.inr (reaping_of_take (custody_run ht.run) hk hcb hparked (hid ▸ hc))))
    · exact assured_step ht hw hopen (.inr ⟨k, hk, hcb, hparked, hbefore⟩)

/-- A timer is run after the ward on which an exit stands. -/
theorem ring_step {rest : List Nat} {now : Nat} {ran : Bool} {job : Loop.Job Callback} {l : Loop Callback}
    (hc : s.control = .dispatch (i :: rest) now ran) (htake : s.loop.take i now = some (job, l))
    (hl : Listed exit h g i D s (i :: rest) now) : D ≤ s.step.kernel.now ∧ Sure exit h g D s.step := by
  have hnow : D ≤ s.kernel.now ∧ Sure exit h g D s := by
    cases hw.alarm with
    | armed interval hm =>
      have hdue : D ≤ now := due_of_take (custody_run ht.run).sound.tidy hm htake
      rcases hl.2 List.mem_cons_self hdue with hs | ⟨k, -, -, -, hbefore⟩
      · exact ⟨Nat.le_trans hdue hl.1, hs⟩
      · simp at hbefore
    | ringing payload hring =>
      rw [hc] at hring
      cases hring
    | rung hr => exact hw.rung hr
  exact ⟨Nat.le_trans hnow.1 (now_le_step s), sure_step ht hw hopen hnow.2⟩

/-- A wait goes on when its timer is left alone. -/
theorem waited_step (hlow : i ∉ s.lowers)
    (hring : ∀ payload, s.control = .invoke i .raise payload → D ≤ s.kernel.now ∧ Sure exit h g D s) :
    Waited exit h g i D s.step := by
  obtain ⟨hg, ha⟩ := alive_step ht hw.generation hw.alive hopen
  have hc : Custody s.scene log := custody_run ht.run
  refine ⟨hg, ha, ?_, fun k' hk' hcb => ?_, alarm_step (accounts_trail ht) hc.sound.tidy hw.alarm hlow,
    fun hr => ?_⟩
  · exact step_keeps (P := fun t => i ≤ t.loop.lastId) hw.le fun u v he hu => Nat.le_trans hu he.lastId_le
  · obtain ⟨k, hk, hid, hkcb, -⟩ := (stems_step hc (Nat.le_of_eq hw.generation.symm)).2 k' hk' hcb
    exact hid ▸ hw.elder k hk hkcb
  · have hnow : D ≤ s.kernel.now ∧ Sure exit h g D s := by
      rcases raised_step hr with hr | ⟨payload, hc⟩
      · exact hw.rung hr
      · exact hring payload hc
    exact ⟨Nat.le_trans hnow.1 (now_le_step s), sure_step ht hw hopen hnow.2⟩

/-- A pass in which the timer is ready has found out about the child after it was due. -/
theorem listed_of_pass (hprompt : Prompt exit h s) {b : Bool} {ids : List Nat} {now : Nat} {ran : Bool}
    (hc : s.control = .pass b) (hd : s.step.control = .dispatch ids now ran) :
    Listed exit h g i D s.step ids now := by
  have hcustody : Custody s.scene log := custody_run ht.run
  have hnext : Waited exit h g i D s.step := by
    refine waited_step ht hw hopen (by rw [lowers, hc]; exact List.not_mem_nil) fun payload hring => ?_
    rw [hc] at hring
    cases hring
  obtain ⟨rfl, hnow, hsame, hfound⟩ := found_of_pass hc hd
  refine ⟨Nat.le_of_eq hnow, fun hi hdue => ?_⟩
  rcases sure_or_ward hcustody.step hnext.generation hnext.alive with hsure | ⟨k, hk, hcb, hpid⟩
  · exact .inl hsure
  · have hk : k ∈ s.step.loop.own := hk
    by_cases hopen : k.status = none
    · have hpid' : (s.handle h).pid = some k.pid := hsame h ▸ hpid
      exact .inl (.inl fun e he => Nat.lt_of_le_of_lt (hnow ▸ hdue) (hprompt _ hpid' e he (hfound k hk hopen)))
    · cases hnext.alarm with
      | armed interval hm =>
        refine .inr ⟨k, hk, hcb, hopen, ?_⟩
        exact before_timer (orderly_run ht.step.run) hcustody.step.sound.tidy hk hopen (hnext.elder k hk hcb) hm hi
      | ringing payload hring =>
        rw [hd] at hring
        cases hring
      | rung hr => exact .inl (hnext.rung hr).2

end

/-! ## What is left alone -/

/-- A call that waits is left its timer by an aloof step. -/
theorem lowers_of_aloof {P : List Nat → Nat → Prop} {R : Prop} {wf : Frame} (hst : s.stack = A ++ wf :: K)
    (hA : ∀ f ∈ A, f.Aloof h i P) (hc : s.control.Aloof h i P R) (hwf : ∀ d, wf ≠ .writeDeadline d) :
    i ∉ s.lowers := by
  unfold lowers
  split
  · next hcon =>
    rw [hcon] at hc
    simpa using Ne.symm hc
  · next hcon =>
    rw [hcon] at hc
    simpa using Ne.symm hc
  · next hcon hstack =>
    rw [hstack] at hst
    cases A with
    | nil => exact absurd (List.cons.inj hst).1.symm (hwf _)
    | cons f A =>
      obtain ⟨rfl, -⟩ := List.cons.inj hst
      simpa using Ne.symm (hA _ List.mem_cons_self)
  · exact List.not_mem_nil

end Machine

end Overseer
