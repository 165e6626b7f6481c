import Overseer.Proofs.ChildWatches
import Overseer.Proofs.Journal
import Overseer.Supervisor.Step

/-!
# One collection of dead children

A collection asks waitpid of every ward without a status.  No time passes meanwhile, so whether a
child runs is the same at every question, and two wards of one pid never hear that it runs and that
it has ended.

    answers of one ward  =  interrupted, …, interrupted, a       with a not interrupted
    status of the ward   =  what a says of the end, none when the child runs

Main statements: `ward_collect` and `collect_ward` (what becomes of each ward), `not_ended_of_open`
(a ward that stays open stands for a child whose end nobody was told).
-/

namespace Overseer

namespace Kernel

/-- The child of this pid runs. -/
def alive (k : Kernel) (pid : Int) : Bool :=
  match k.child? pid with
  | some c => c.isRunning
  | none => false

theorem child?_fault (k : Kernel) (c : Call) (pid : Int) :
    (k.fault c).2.child? pid = k.child? pid := by
  unfold fault
  split <;> rfl

theorem child?_mapChild (k : Kernel) (p q : Int) (f : Child → Child) (hf : ∀ c, (f c).pid = c.pid) :
    (k.mapChild p f).child? q = (k.child? q).map fun c => if c.pid == p then f c else c := by
  unfold child? mapChild
  rw [List.find?_map]
  congr 1
  refine congrArg (fun g => List.find? g k.children) (funext fun c => ?_)
  show (fun c => c.pid == q) (if c.pid == p then f c else c) = (c.pid == q)
  split
  · simp [hf]
  · rfl

/-- A question changes nobody's life but that of a child that has ended. -/
theorem alive_waitpid (k : Kernel) (p q : Int) : (k.waitpid p).2.alive q = k.alive q := by
  unfold waitpid
  have hf := child?_fault k .waitpid
  generalize k.fault .waitpid = r at hf
  obtain ⟨o, k'⟩ := r
  have hsame : k'.alive q = k.alive q := by
    unfold alive
    rw [hf q]
  cases o with
  | some e => exact hsame
  | none =>
    dsimp only
    split
    · exact hsame
    · next c hc =>
      split
      · exact hsame
      · next raw hl =>
        rw [← hsame]
        unfold alive
        dsimp only
        rw [child?_mapChild k' p q (fun c => { c with life := .reaped }) fun _ => rfl]
        cases hq : k'.child? q with
        | none => rfl
        | some d =>
          simp only [Option.map_some]
          by_cases hd : d.pid = p
          · have hdq : d.pid = q := by simpa using List.find?_some hq
            have hpq : p = q := hd.symm.trans hdq
            rw [hpq, hq] at hc
            cases hc
            simp [hd, Child.isRunning, hl]
          · simp [hd]
      · exact hsame

theorem alive_of_waitpid_running {k : Kernel} {p : Int} (h : (k.waitpid p).1 = .running) :
    k.alive p = true := by
  unfold waitpid at h
  have hf := child?_fault k .waitpid p
  generalize k.fault .waitpid = r at hf h
  obtain ⟨o, k'⟩ := r
  cases o with
  | some e => cases h
  | none =>
    dsimp only at h
    split at h
    · cases h
    · next c hc =>
      split at h
      · next hl =>
        unfold alive
        rw [← hf, hc]
        simp [Child.isRunning, hl]
      · cases h
      · cases h

theorem not_alive_of_waitpid_ended {k : Kernel} {p raw : Int} (h : (k.waitpid p).1 = .ended raw) :
    k.alive p = false := by
  unfold waitpid at h
  have hf := child?_fault k .waitpid p
  generalize k.fault .waitpid = r at hf h
  obtain ⟨o, k'⟩ := r
  cases o with
  | some e => cases h
  | none =>
    dsimp only at h
    split at h
    · cases h
    · next c hc =>
      split at h
      · cases h
      · next hl =>
        unfold alive
        rw [← hf, hc]
        simp [Child.isRunning, hl]
      · cases h

/-- Each interruption takes one fault of the queue. -/
theorem faults_waitpid_interrupted {k : Kernel} {p : Int} (h : (k.waitpid p).1 = .failed 4) :
    (k.waitpid p).2.faults.waitpid.length + 1 = k.faults.waitpid.length := by
  unfold waitpid fault at *
  cases hq : k.faults.queue .waitpid with
  | nil =>
    exfalso
    rw [hq] at h
    dsimp only at h
    split at h
    · cases h
    · split at h <;> cases h
  | cons e q =>
    have hw : k.faults.waitpid = e :: q := hq
    simp [Faults.setQueue, hw]

end Kernel

namespace Loop

open Kernel (Wait)
open Supervisor (Callback Ward)

/-- What the questions about one child come to. -/
structure Asked (k : Kernel) (pid : Int) (asked : List Wait) (a : Wait) (k' : Kernel) : Prop where
  eq : ∃ n, asked = List.replicate n (.failed 4) ++ [a]
  final : a ≠ .failed 4
  alive : ∀ q, k'.alive q = k.alive q
  running : a = .running → k.alive pid = true
  ended : ∀ raw, a = .ended raw → k.alive pid = false

theorem askChild_spec {fuel : Nat} {k : Kernel} (pid : Int) (h : k.faults.waitpid.length < fuel) :
    ∃ a, Asked k pid (askChild fuel k pid).1 a (askChild fuel k pid).2 := by
  induction fuel generalizing k with
  | zero => omega
  | succ fuel ih =>
    have hal := k.alive_waitpid pid
    have hrun := Kernel.alive_of_waitpid_running (k := k) (p := pid)
    have hend : ∀ raw, (k.waitpid pid).1 = .ended raw → k.alive pid = false := fun _ =>
      Kernel.not_alive_of_waitpid_ended
    have hint := Kernel.faults_waitpid_interrupted (k := k) (p := pid)
    unfold askChild
    generalize k.waitpid pid = r at hal hrun hend hint
    obtain ⟨w, k'⟩ := r
    split
    · next heq =>
      obtain ⟨rfl, rfl⟩ := Prod.mk.inj heq
      have hlen : k'.faults.waitpid.length < fuel := by
        have := hint rfl
        dsimp only at this
        omega
      obtain ⟨a, ⟨n, hn⟩, hfin, hal', hrun', hend'⟩ := ih hlen
      refine ⟨a, ⟨n + 1, ?_⟩, hfin, ?_, ?_, ?_⟩
      · dsimp only
        rw [hn]
        rfl
      · intro q
        rw [← hal q]
        exact hal' q
      · intro ha
        rw [← hal pid]
        exact hrun' ha
      · intro raw ha
        rw [← hal pid]
        exact hend' raw ha
    · next hne heq =>
      obtain ⟨rfl, rfl⟩ := Prod.mk.inj heq
      exact ⟨w, ⟨0, rfl⟩, hne, hal, hrun, hend⟩

theorem reap_spec (k : Kernel) (pid : Int) :
    ∃ a, (reap k pid).1 = statusOf a ∧ Asked k pid (reap k pid).2.1 a (reap k pid).2.2 := by
  obtain ⟨a, ha⟩ := askChild_spec (k := k) pid (Nat.lt_succ_self _)
  refine ⟨a, ?_, ha⟩
  obtain ⟨n, hn⟩ := ha.eq
  unfold reap
  dsimp only
  rw [hn, List.getLast?_append]
  rfl

/-- What a watch has become, when these questions were asked. -/
structure Became (asked : List (Int × Wait)) (w w' : Watch Callback) : Prop where
  id : w'.id = w.id
  kept : (∀ k, w.ward? = some k → k.status ≠ none) → w'.ward? = w.ward?
  told : ∀ k, w.ward? = some k → k.status = none →
    ∃ a, (k.pid, a) ∈ asked ∧ a ≠ .failed 4 ∧ w'.ward? = some { k with status := statusOf a }

theorem Became.weaken {asked more : List (Int × Wait)} {w w' : Watch Callback}
    (h : Became asked w w') (hsub : ∀ x ∈ asked, x ∈ more) : Became more w w' := by
  refine ⟨h.id, h.kept, ?_⟩
  intro k hk hn
  obtain ⟨a, ha, hfin, hw⟩ := h.told k hk hn
  exact ⟨a, hsub _ ha, hfin, hw⟩

/-- A collection in its first watch and the others. -/
theorem collectIn_cons (w : Watch Callback) (r : List (Watch Callback)) (k : Kernel) :
    (∃ a asked k', (∃ ward, w.ward? = some ward ∧ ward.status = none ∧ Asked k ward.pid asked a k' ∧
        ∃ w', w'.id = w.id ∧ w'.ward? = some { ward with status := statusOf a } ∧
        collectIn (w :: r) k = (w' :: (collectIn r k').1,
          asked.map (fun x => (ward.pid, x)) ++ (collectIn r k').2.1, (collectIn r k').2.2))) ∨
      ((∀ ward, w.ward? = some ward → ward.status ≠ none) ∧
        collectIn (w :: r) k = (w :: (collectIn r k).1, (collectIn r k).2.1, (collectIn r k).2.2)) := by
  obtain ⟨id, priority, source⟩ := w
  rcases source with _ | ⟨pid, fd, status, cb⟩ | _ | _
  · exact .inr ⟨fun ward h => by simp [Watch.ward?] at h, rfl⟩
  · cases status with
    | some st =>
      refine .inr ⟨?_, rfl⟩
      intro ward h
      simp only [Watch.ward?, Option.some.injEq] at h
      rw [← h]
      simp
    | none =>
      obtain ⟨a, hst, ha⟩ := reap_spec k pid
      refine .inl ⟨a, (reap k pid).2.1, (reap k pid).2.2, ⟨id, pid, none, cb⟩, rfl, rfl, ha, ?_⟩
      refine ⟨⟨id, priority, (statusOf a).elim (.child pid fd none cb) fun st => .child pid false (some st) cb⟩,
        rfl, ?_, ?_⟩
      · cases statusOf a <;> rfl
      · rw [collectIn]
        dsimp only
        rw [← hst]
        cases (reap k pid).1 <;> rfl
  · exact .inr ⟨fun ward h => by simp [Watch.ward?] at h, rfl⟩
  · exact .inr ⟨fun ward h => by simp [Watch.ward?] at h, rfl⟩

theorem collectIn_became (ws : List (Watch Callback)) (k : Kernel) :
    List.Forall₂ (Became (collectIn ws k).2.1) ws (collectIn ws k).1 := by
  induction ws generalizing k with
  | nil => exact .nil
  | cons w r ih =>
    rcases collectIn_cons w r k with ⟨a, asked, k', ward, hw, hnone, hasked, w', hid, hw', heq⟩ | ⟨hsome, heq⟩
    · rw [heq]
      obtain ⟨n, hn⟩ := hasked.eq
      have hmem : (ward.pid, a) ∈ asked.map (fun x => (ward.pid, x)) ++ (collectIn r k').2.1 := by
        simp [hn]
      refine .cons ⟨hid, fun h => ?_, fun m hm hmn => ?_⟩ ?_
      · exact absurd hnone (h ward hw)
      · rw [hw] at hm
        cases hm
        exact ⟨a, hmem, hasked.final, hw'⟩
      · exact (ih k').imp fun _ _ h => h.weaken fun x hx => List.mem_append_right _ hx
    · rw [heq]
      refine .cons ⟨rfl, fun _ => rfl, fun m hm hmn => ?_⟩ (ih k)
      exact absurd hmn (hsome m hm)

/-- Every answer agrees with whether the child runs. -/
theorem collectIn_alive (ws : List (Watch Callback)) (k : Kernel) {p : Int} {a : Wait}
    (h : (p, a) ∈ (collectIn ws k).2.1) :
    (a = .running → k.alive p = true) ∧ ∀ raw, a = .ended raw → k.alive p = false := by
  induction ws generalizing k with
  | nil => cases h
  | cons w r ih =>
    rcases collectIn_cons w r k with ⟨b, asked, k', ward, -, -, hasked, w', -, -, heq⟩ | ⟨-, heq⟩
    · rw [heq] at h
      rcases List.mem_append.1 h with h | h
      · obtain ⟨x, hx, hxe⟩ := List.mem_map.1 h
        cases hxe
        obtain ⟨n, hn⟩ := hasked.eq
        rw [hn] at hx
        rcases List.mem_append.1 hx with hx | hx
        · have hx := List.eq_of_mem_replicate hx
          exact ⟨fun e => by simp [hx] at e, fun raw e => by simp [hx] at e⟩
        · rw [List.mem_singleton.1 hx]
          exact ⟨hasked.running, hasked.ended⟩
      · rw [← hasked.alive p]
        exact ih k' h
    · rw [heq] at h
      exact ih k h

/-! ## A collection of a registry -/

variable (l : Loop Callback) (k : Kernel)

/-- The questions of a collection with their answers. -/
def asks : List (Int × Wait) := (l.collect k).2.1

theorem ids_collect : (l.collect k).1.ids = l.ids := by
  have key : ∀ {asked ws ws'}, List.Forall₂ (Became asked) ws ws' →
      ws'.map (·.id) = ws.map (·.id) := by
    intro asked ws ws' h
    induction h with
    | nil => rfl
    | cons hw _ ih => rw [List.map_cons, List.map_cons, hw.id, ih]
  exact key (collectIn_became l.watches k)

variable {l k}

theorem Tidy.collect (ht : l.Tidy) : (l.collect k).1.Tidy := by
  refine ⟨by rw [ids_collect]; exact ht.nodup, ?_⟩
  intro id hid
  rw [ids_collect] at hid
  exact ht.le id hid

theorem ward_collect {w : Ward} (h : w ∈ l.wards) :
    (w.status ≠ none → w ∈ (l.collect k).1.wards) ∧
      (w.status = none → ∃ a, (w.pid, a) ∈ l.asks k ∧ a ≠ .failed 4 ∧
        { w with status := statusOf a } ∈ (l.collect k).1.wards) := by
  obtain ⟨v, hv, hvw⟩ := mem_wards.1 h
  obtain ⟨i, hi, rfl⟩ := List.getElem_of_mem hv
  have hall := List.forall₂_iff_get.1 (collectIn_became l.watches k)
  have hb := hall.2 i hi (by rw [← hall.1]; exact hi)
  refine ⟨?_, ?_⟩
  · intro hs
    have := hb.kept fun m hm => by
      have : l.watches.get ⟨i, hi⟩ = l.watches[i] := rfl
      rw [this, hvw] at hm
      cases hm
      exact hs
    exact mem_wards.2 ⟨_, List.get_mem _ _, this.trans hvw⟩
  · intro hs
    obtain ⟨a, ha, hfin, hw'⟩ := hb.told w hvw hs
    exact ⟨a, ha, hfin, mem_wards.2 ⟨_, List.get_mem _ _, hw'⟩⟩

theorem collect_ward {w' : Ward} (h : w' ∈ (l.collect k).1.wards) :
    (w' ∈ l.wards ∧ w'.status ≠ none) ∨
      ∃ w ∈ l.wards, w.status = none ∧ ∃ a, (w.pid, a) ∈ l.asks k ∧ a ≠ .failed 4 ∧
        w' = { w with status := statusOf a } := by
  obtain ⟨v', hv', hvw'⟩ := mem_wards.1 h
  obtain ⟨i, hi, rfl⟩ := List.getElem_of_mem hv'
  have hall := List.forall₂_iff_get.1 (collectIn_became l.watches k)
  have hi' : i < l.watches.length := by rw [hall.1]; exact hi
  have hb := hall.2 i hi' hi
  by_cases hs : ∀ m, (l.watches.get ⟨i, hi'⟩).ward? = some m → m.status ≠ none
  · have hkept := hb.kept hs
    have hm : (l.watches.get ⟨i, hi'⟩).ward? = some w' := hkept.symm.trans hvw'
    exact .inl ⟨mem_wards.2 ⟨_, List.get_mem _ _, hm⟩, hs w' hm⟩
  · push Not at hs
    obtain ⟨m, hm, hmn⟩ := hs
    obtain ⟨a, ha, hfin, hw'⟩ := hb.told m hm hmn
    have heq : some w' = some { m with status := statusOf a } := hvw'.symm.trans hw'
    exact .inr ⟨m, mem_wards.2 ⟨_, List.get_mem _ _, hm⟩, hmn, a, ha, hfin, Option.some.inj heq⟩

/-- A ward that a collection leaves open stands for a child whose end nobody was told in it. -/
theorem not_ended_of_open {w : Ward} (h : w ∈ (l.collect k).1.wards) (hs : w.status = none)
    {a : Wait} (ha : (w.pid, a) ∈ l.asks k) : a.isEnd = false := by
  rcases collect_ward h with ⟨_, hne⟩ | ⟨v, hv, _, b, hb, _, rfl⟩
  · exact absurd hs hne
  · have hrun : b = .running := by
      cases b with
      | running => rfl
      | ended raw => cases hs
      | failed e => cases hs
    have halive := (collectIn_alive l.watches k hb).1 hrun
    cases a with
    | ended raw =>
      have := (collectIn_alive l.watches k ha).2 raw rfl
      simp [halive] at this
    | _ => rfl

end Loop

namespace Machine

open Supervisor

/-- What a collection adds to the journal. -/
theorem journal_collect (s : Machine) :
    s.collect.journal = questions (s.loop.asks s.kernel) ++ s.journal := rfl

end Machine

end Overseer
