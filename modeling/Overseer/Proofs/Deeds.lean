import Overseer.Proofs.Duty
import Overseer.Proofs.MachineChanges

/-!
# Chains of deeds

A chain is built forward, one deed for each thing that a function of the step does, and it ends when
the function goes on to a control or gives a value back.

    go c  :  a chain to ⟨s, duties of c ++ duties of the stack of s, due of c⟩ leads to the stage of s.go c
-/

namespace Overseer.Machine

open Supervisor

variable {o s t : Machine} {σ : Stage} {D D' : List Duty} {d : Option (Nat × Event)}

/-! ## What stays calm -/

theorem calm_of_eq (hw : t.loop.watches = s.loop.watches) (hi : t.loop.lastId = s.loop.lastId)
    (hh : t.handles = s.handles) (hn : t.names = s.names) (ht : t.tags = s.tags)
    (hc : t.config = s.config) (hr : t.raised = s.raised) (hj : t.journal = s.journal) : Calm s t := by
  have hhandle : ∀ h, t.handle h = s.handle h := fun h => by rw [handle, handle, hh]
  refine ⟨hw, hi, fun h => by rw [hhandle], fun h => by rw [hhandle], Nat.le_of_eq (by rw [hh]), ?_, ht,
    hc, ?_, [], hj,
    by simp⟩
  · intro r hm
    rw [hn] at hm
    exact .inl hm
  · intro id hid
    rwa [hr] at hid

theorem calm_go (s : Machine) (c : Control) : Calm s (s.go c) :=
  calm_of_eq rfl rfl rfl rfl rfl rfl rfl rfl

theorem calm_push (s : Machine) (f : Frame) : Calm s (s.push f) :=
  calm_of_eq rfl rfl rfl rfl rfl rfl rfl rfl

theorem calm_pop (s : Machine) (fs : List Frame) : Calm s { s with stack := fs } :=
  calm_of_eq rfl rfl rfl rfl rfl rfl rfl rfl

theorem calm_withKernel (s : Machine) (k : Kernel) : Calm s (s.withKernel k) :=
  calm_of_eq rfl rfl rfl rfl rfl rfl rfl rfl

theorem calm_setQuit (s : Machine) (b : Bool) : Calm s { s with loop := { s.loop with quit := b } } :=
  calm_of_eq rfl rfl rfl rfl rfl rfl rfl rfl

theorem calm_lower (s : Machine) (id : Nat) : Calm s (s.lower id) :=
  ⟨rfl, rfl, fun _ => rfl, fun _ => rfl, Nat.le_refl _, fun _ h => .inl h, rfl, rfl,
    fun _ hid => List.mem_of_mem_filter hid, [], rfl, by simp⟩

theorem calm_record (s : Machine) {e : Entry} (he : e.isMere = true) : Calm s (s.record e) :=
  ⟨rfl, rfl, fun _ => rfl, fun _ => rfl, Nat.le_refl _, fun _ h => .inl h, rfl, rfl, fun _ h => h, [e], rfl,
    by simpa using he⟩

theorem calm_note (s : Machine) (n : Notice) : Calm s (s.note n) := by
  unfold note
  split
  · exact calm_record s rfl
  · exact calm_of_eq rfl rfl rfl rfl rfl rfl rfl rfl

theorem calm_mapHandle (s : Machine) (h : Nat) {f : Handle → Handle} (hf : ∀ x, (f x).life = x.life)
    (ho : ∀ x, (f x).outbox = x.outbox) : Calm s (s.mapHandle h f) := by
  refine ⟨rfl, rfl, fun i => life_mapHandle s h i hf, fun i => ?_, ?_, fun _ h => .inl h, rfl, rfl,
    fun _ h => h, [], rfl, by simp⟩
  · rw [handle_mapHandle]
    split
    · next hi => rw [ho, hi.1]
    · rfl
  · exact Nat.le_of_eq (List.length_modify _ _ _).symm

theorem calm_resolve (s : Machine) (name : String) : Calm s (s.resolve name).2 := by
  have hh := handle_resolve s name
  unfold resolve at *
  split at *
  · exact calm_of_eq rfl rfl rfl rfl rfl rfl rfl rfl
  · refine ⟨rfl, rfl, fun i => by rw [hh], fun i => by rw [hh], by simp, ?_, rfl, rfl, fun _ h => h, [], rfl,
      by simp⟩
    intro r hr
    rcases List.mem_append.1 hr with hr | hr
    · exact .inl hr
    · rw [List.mem_singleton.1 hr]
      exact .inr (by simp)

theorem mem_of_look? {name : String} {n : Nat} {rows : List (String × Nat)}
    (h : Command.look? name rows = some n) : n ∈ rows.map (·.2) :=
  List.mem_map.2 ⟨(name, n), Command.mem_of_look? h, rfl⟩

/-- The handle of a name is one that has a name. -/
theorem mem_names_resolve (s : Machine) (name : String) :
    (s.resolve name).1 ∈ (s.resolve name).2.names.map (·.2) := by
  unfold resolve
  split
  · next h hlook => exact mem_of_look? hlook
  · simp

/-! ## The duties below -/

theorem below_of_stack (h : t.stack = s.stack) : t.below = s.below := by rw [below, below, h]

@[simp] theorem below_push (s : Machine) (f : Frame) : (s.push f).below = f.duties ++ s.below := rfl

theorem below_push_deadline (s : Machine) {f : Frame} (hf : f.duties = []) (id : Nat) :
    ((s.push f).push (.writeDeadline id)).below = .clear id :: s.below := by
  rw [below_push, below_push, hf]
  rfl

/-! ## Chains -/

namespace Deeds

theorem next {τ υ : Stage} (hc : Deeds o σ τ) (h : Loud o τ υ) : Deeds o σ υ := hc.tail (.loud h)

theorem calm (hc : Deeds o σ ⟨s, D, d⟩) (ht : Calm s t) : Deeds o σ ⟨t, D, d⟩ :=
  hc.tail (.mild (.calm ht))

theorem turn (hc : Deeds o σ ⟨s, D, d⟩) (h : Turn s D D') : Deeds o σ ⟨s, D', d⟩ := hc.tail (.turned h)

theorem stir (hc : Deeds o σ ⟨s, D, d⟩) (h : Stir o s D t D') : Deeds o σ ⟨t, D', d⟩ :=
  hc.tail (.loud (.stirred h))

theorem record (hc : Deeds o σ ⟨s, D, d⟩) {e : Entry} (he : e.isMere = true) :
    Deeds o σ ⟨s.record e, D, d⟩ :=
  hc.calm (calm_record s he)

theorem note (hc : Deeds o σ ⟨s, D, d⟩) (n : Notice) : Deeds o σ ⟨s.note n, D, d⟩ :=
  hc.calm (calm_note s n)

theorem kernel (hc : Deeds o σ ⟨s, D, d⟩) (k : Kernel) : Deeds o σ ⟨s.withKernel k, D, d⟩ :=
  hc.calm (calm_withKernel s k)

theorem push (hc : Deeds o σ ⟨s, D, d⟩) (f : Frame) : Deeds o σ ⟨s.push f, D, d⟩ :=
  hc.calm (calm_push s f)

theorem resolve (hc : Deeds o σ ⟨s, D, d⟩) (name : String) : Deeds o σ ⟨(s.resolve name).2, D, d⟩ :=
  hc.calm (calm_resolve s name)

theorem mapHandle (hc : Deeds o σ ⟨s, D, d⟩) (h : Nat) {f : Handle → Handle}
    (hf : ∀ x, (f x).life = x.life) (ho : ∀ x, (f x).outbox = x.outbox) :
    Deeds o σ ⟨s.mapHandle h f, D, d⟩ :=
  hc.calm (calm_mapHandle s h hf ho)

/-- A chain ends in the stage of the machine that goes on. -/
theorem go (hc : Deeds o σ ⟨s, D, d⟩) {c : Control} (hD : c.duties ++ s.below = D) (hd : c.due = d) :
    Deeds o σ (s.go c).stage := by
  subst hD hd
  exact hc.calm (calm_go s c)

/-- A value other than that of a callback leaves no duty behind. -/
theorem yield (hc : Deeds o σ ⟨s, D, none⟩) {v : Value} (hv : (Control.value v).duties = [])
    (hD : s.below = D) : Deeds o σ (s.yield v).stage :=
  hc.go (c := .value v) (by rw [hv]; exact hD) rfl

/-- A callback has returned. -/
theorem judge (hc : Deeds o σ ⟨s, D, none⟩) (b : Bool) (hD : s.below = D) :
    Deeds o σ (s.yield (.again b)).stage :=
  (hc.turn (.judged b)).go (c := .value (.again b)) (congrArg _ hD) rfl

theorem quit (hc : Deeds o σ ⟨s, D, d⟩) : Deeds o σ ⟨s.quit, D, d⟩ :=
  Deeds.record (hc.calm (calm_setQuit s true)) rfl

theorem stopFromKernel (hc : Deeds o σ ⟨s, D, d⟩) : Deeds o σ ⟨s.stopFromKernel, D, d⟩ := by
  unfold Machine.stopFromKernel
  split
  · exact hc.quit
  · exact hc.calm (calm_of_eq rfl rfl rfl rfl rfl rfl rfl rfl)

theorem collect (hc : Deeds o σ ⟨s, D, d⟩) : Deeds o σ ⟨s.collect, D, d⟩ := hc.tail (.mild .collected)

theorem retouch (hc : Deeds o σ ⟨s, D, d⟩) {l : Loop Callback} (hl : Loop.Alike s.loop l)
    (hlook : ∀ id, l.look id = s.loop.look id) : Deeds o σ ⟨{ s with loop := l }, D, d⟩ :=
  hc.tail (.mild (.retouched l hl hlook))

theorem closeStdin (hc : Deeds o σ ⟨s, D, d⟩) (h : Nat) : Deeds o σ ⟨s.closeStdin h, D, d⟩ :=
  hc.tail (.mild (.inputClosed h))

/-- A deadline or a wait for room begins. -/
theorem engage (hc : Deeds o σ ⟨s, D, d⟩) (priority : Loop.Priority) {src : Loop.Source Callback}
    (hsrc : ∀ pid fd st cb, src ≠ .child pid fd st cb) (hcb : src.outline.slot = some .raise) :
    Deeds o σ ⟨(s.addWatch priority src).2, .clear (s.loop.lastId + 1) :: D, d⟩ :=
  hc.stir (.engaged priority src hsrc hcb)

theorem addTimer (hc : Deeds o σ ⟨s, D, d⟩) (interval : Nat) :
    Deeds o σ ⟨(s.addTimer interval Loop.Priority.normal .raise).2, .clear (s.loop.lastId + 1) :: D, d⟩ :=
  hc.engage Loop.Priority.normal (by simp) rfl

/-- The watch of a call that waits is forgotten. -/
theorem clear {id : Nat} (hc : Deeds o σ ⟨s, .clear id :: D, d⟩) :
    Deeds o σ ⟨s.removeWatch id, D, d⟩ :=
  hc.stir (.cleared id)

theorem kill (hc : Deeds o σ ⟨s, D, d⟩) (hs : SameChildren o s)
    (hrs : D.flatMap Duty.reapings = o.reapings) {h : Nat} (ho : h ∈ o.signalling) (sig : Int) :
    Deeds o σ ⟨(s.kill h sig).2, D, d⟩ := by
  unfold Machine.kill
  dsimp only
  split
  · exact hc
  · next hrun =>
    have hrun : (s.handle h).state = .running := by simpa using hrun
    split
    · exact hc
    · have hk : ∀ r, Deeds o σ ⟨(s.withKernel (s.kernel.kill (s.handle h).target sig).2).record
          (.signalled (s.handle h).target sig r), D, d⟩ := by
        intro r
        have hsame := hs.trans (still_withKernel s (s.kernel.kill (s.handle h).target sig).2).toSameChildren
        exact (hc.kernel _).tail (.mild (.signalled (σ := ⟨_, D, d⟩) h sig r ho hsame hrs hrun))
      split
      · exact hk _
      · split
        · exact hk _
        · split
          · exact hk _
          · exact hk _

theorem spawn (hc : Deeds o σ ⟨s, D, none⟩) (hs : SameChildren o s) {c : Command} {h : Nat}
    (hname : h ∈ s.names.map (·.2) ∨ (h = 0 ∧ .commence ∈ D)) (ho : o.spawning? = some c)
    (hk : s.kernel = o.kernel) (plan : Kernel.Plan) (execError : Option Int) :
    Deeds o σ ⟨(s.spawn h c plan execError).2.2, D, none⟩ := by
  unfold Machine.spawn
  split
  · exact hc
  · dsimp only
    split
    · exact hc
    · next hstate =>
      split
      · exact hc.note _
      · split
        · exact (hc.record rfl).note _
        · refine hc.tail (.loud (.adopted h c _ _ _ hname ?_ ho rfl ?_ hs))
          · cases hst : (s.handle h).state <;> simp_all
          · rw [← hk]
            rfl

theorem close (hc : Deeds o σ ⟨s, D, none⟩) {h : Nat}
    (ho : (s.handle h).state = .running → h ∈ o.closing) (hs : SameChildren o s)
    (hl : s.loop.lastId = o.loop.lastId) (hrs : D.flatMap Duty.reapings = o.reapings) :
    Deeds o σ ⟨s.close h, D, none⟩ :=
  hc.tail (.loud (.closed h ho hs hl hrs))

end Deeds

end Overseer.Machine
