import Overseer.Proofs.Collecting

/-!
# Outlines of watches

The outline of a watch is what no pass changes: what it waits for, and the callback in its slot.  A
registry is read as a partial function from numbers to outlines.

    look (insert src l)  =  look l, with the outline of src at the new number
    look (erase x l)     =  look l, with nothing at x
    look (restore x l)   =  look l, with the slot at x filled
    take x l             →  look l, with the slot at x emptied, or with nothing at x

Collecting the dead and writing down who is ready leave every outline as it is.
-/

namespace Overseer.Loop

open Kernel (Fd)

/-- What a watch waits for. -/
inductive Form
  | io (fd : Fd) (interest : Condition)
  | child (pid : Int)
  | timer
  | idle
  deriving DecidableEq

structure Outline (κ : Type) where
  form : Form
  slot : Option κ

def Form.isChild : Form → Bool
  | child _ => true
  | _ => false

/-- A child's callback is always there. -/
def Source.outline {κ : Type} : Source κ → Outline κ
  | .io fd interest _ slot => ⟨.io fd interest, slot⟩
  | .child pid _ _ callback => ⟨.child pid, some callback⟩
  | .timer _ _ slot => ⟨.timer, slot⟩
  | .idle slot => ⟨.idle, slot⟩

variable {κ : Type}

/-- Put a callback into the slot, if there is one. -/
def Outline.fill (cb : κ) (o : Outline κ) : Outline κ :=
  if o.form.isChild then o else { o with slot := some cb }

def Outline.vacate (o : Outline κ) : Outline κ := { o with slot := none }

/-- The outline of the watch of this number. -/
def look (l : Loop κ) (id : Nat) : Option (Outline κ) := (l.find? id).map fun w => w.source.outline

variable {l l' : Loop κ} {id x : Nat}

/-! ## Lemmas -/

theorem contains_eq_look (l : Loop κ) (id : Nat) : l.contains id = (l.look id).isSome := by
  rw [contains, look, Option.isSome_map]

theorem find?_of_mem (ht : l.Tidy) {w : Watch κ} (hw : w ∈ l.watches) : l.find? w.id = some w := by
  have hsome : (l.find? w.id).isSome := by
    rw [find?, List.find?_isSome]
    exact ⟨w, hw, beq_self_eq_true _⟩
  obtain ⟨v, hv⟩ := Option.isSome_iff_exists.1 hsome
  obtain ⟨hmem, hid⟩ := find?_spec hv
  rw [hv, eq_of_id_eq ht hmem hw hid]

theorem look_of_mem (ht : l.Tidy) {w : Watch κ} (hw : w ∈ l.watches) :
    l.look w.id = some w.source.outline := by
  rw [look, find?_of_mem ht hw]
  rfl

theorem exists_of_look {o : Outline κ} (h : l.look id = some o) :
    ∃ w ∈ l.watches, w.id = id ∧ w.source.outline = o := by
  obtain ⟨w, hw, ho⟩ := Option.map_eq_some_iff.1 h
  obtain ⟨hmem, hid⟩ := find?_spec hw
  exact ⟨w, hmem, hid, ho⟩

theorem le_of_look (ht : l.Tidy) {o : Outline κ} (h : l.look id = some o) : id ≤ l.lastId := by
  obtain ⟨w, hw, rfl, -⟩ := exists_of_look h
  exact ht.le _ (List.mem_map_of_mem hw)

/-- A number that has not been given yet has no watch. -/
theorem look_of_lt (ht : l.Tidy) (h : l.lastId < id) : l.look id = none := by
  cases ho : l.look id with
  | none => rfl
  | some o =>
    have := le_of_look ht ho
    omega

theorem look_insert (ht : l.Tidy) (priority : Priority) (src : Source κ) (id : Nat) :
    (l.insert priority src).2.look id =
      if id = l.lastId + 1 then some src.outline else l.look id := by
  have hfind : (l.insert priority src).2.find? id =
      (l.find? id).or ([⟨l.lastId + 1, priority, src⟩].find? fun w => w.id == id) := by
    show (l.watches ++ _).find? _ = _
    rw [List.find?_append]
    rfl
  unfold look
  rw [hfind]
  by_cases hid : id = l.lastId + 1
  · have hnone : l.find? id = none :=
      Option.map_eq_none_iff.1 (look_of_lt ht (by omega : l.lastId < id))
    rw [if_pos hid, hnone, hid]
    simp
  · have hne : ¬ l.lastId + 1 = id := fun h => hid h.symm
    rw [if_neg hid]
    simp [hne]

theorem look_erase (l : Loop κ) (x id : Nat) :
    (l.erase x).look id = if id = x then none else l.look id := by
  unfold look find? erase
  dsimp only
  rw [List.find?_filter]
  by_cases hid : id = x
  · subst hid
    rw [if_pos rfl, List.find?_eq_none.2, Option.map_none]
    intro w _
    simp
  · rw [if_neg hid]
    refine congrArg _ (congrArg (fun p => List.find? p l.watches) (funext fun w => ?_))
    by_cases hw : w.id = id
    · have : w.id ≠ x := fun h => hid (hw.symm.trans h)
      simp [hw, hid]
    · simp [hw]

/-- A change made to each watch by itself that keeps the numbers. -/
theorem look_map {f : Watch κ → Watch κ} (hl : l'.watches = l.watches.map f)
    (hf : ∀ w, (f w).id = w.id) (id : Nat) :
    l'.look id = (l.find? id).map fun w => (f w).source.outline := by
  unfold look find?
  rw [hl, List.find?_map, Option.map_map]
  have hp : ((fun w : Watch κ => w.id == id) ∘ f) = fun w => w.id == id := by
    funext w
    rw [Function.comp_apply, hf]
  rw [hp]
  rfl

theorem look_modify (l : Loop κ) (x : Nat) (f : Source κ → Source κ) (id : Nat) :
    (l.modify x f).look id =
      if id = x then (l.find? x).map fun w => (f w.source).outline else l.look id := by
  rw [look_map (l := l) (f := fun w => if w.id == x then { w with source := f w.source } else w) rfl
    (fun w => by split <;> rfl)]
  by_cases hid : id = x
  · subst hid
    rw [if_pos rfl]
    cases hw : l.find? id with
    | none => rfl
    | some w =>
      have := (find?_spec hw).2
      simp [this]
  · rw [if_neg hid, look]
    cases hw : l.find? id with
    | none => rfl
    | some w =>
      have := (find?_spec hw).2
      simp [this, hid]

theorem look_modify_of_outline {f : Source κ → Source κ} (hf : ∀ s, (f s).outline = s.outline)
    (x id : Nat) : (l.modify x f).look id = l.look id := by
  rw [look_modify]
  split
  · next hid =>
    rw [hid, look]
    simp only [hf]
  · rfl

theorem look_restore (l : Loop κ) (x now : Nat) (cb : κ) (id : Nat) :
    (l.restore x now cb).look id = if id = x then (l.look id).map (Outline.fill cb) else l.look id := by
  rw [restore, look_modify]
  split
  · next hid =>
    rw [hid, look, Option.map_map]
    refine congrArg (fun g => (l.find? x).map g) (funext fun w => ?_)
    rw [Function.comp_apply]
    cases w.source <;> rfl
  · rfl

/-! ### Passes -/

theorem look_forgetFired (l : Loop κ) (id : Nat) : l.forgetFired.look id = l.look id := by
  rw [look_map (rfl : l.forgetFired.watches = l.watches.map _)]
  · refine congrArg (fun g => (l.find? id).map g) (funext fun w => ?_)
    split
    · next hs => rw [hs]; rfl
    · rfl
  · intro w
    split <;> rfl

theorem look_record (l : Loop κ) (reported : List (Nat × UInt16)) (id : Nat) :
    (l.record reported).look id = l.look id := by
  unfold record
  induction reported generalizing l with
  | nil => rfl
  | cons r rest ih =>
    rw [List.foldl_cons, ih]
    unfold recordOne
    split
    · rfl
    · exact look_modify_of_outline (fun s => by cases s <;> rfl) r.1 id

theorem outline_of_ward {w : Watch Supervisor.Callback} {k : Supervisor.Ward} (h : w.ward? = some k) :
    w.source.outline = ⟨.child k.pid, some k.callback⟩ := by
  unfold Watch.ward? at h
  split at h
  · next hs =>
    cases h
    rw [hs]
    rfl
  · cases h

theorem look_collect (l : Loop Supervisor.Callback) (k : Kernel) (id : Nat) :
    (l.collect k).1.look id = l.look id := by
  show ((collectIn l.watches k).1.find? _).map _ = (l.watches.find? _).map _
  generalize l.watches = ws
  induction ws generalizing k with
  | nil => rfl
  | cons w r ih =>
    rcases collectIn_cons w r k with ⟨a, asked, k', ward, hw, -, -, w', hid, hw', heq⟩ | ⟨-, heq⟩
    · rw [heq, List.find?_cons, List.find?_cons, hid]
      split
      · rw [Option.map_some, Option.map_some, outline_of_ward hw, outline_of_ward hw']
      · exact ih k'
    · rw [heq, List.find?_cons, List.find?_cons]
      split
      · rfl
      · exact ih k

/-- What is taken is the callback of an ended child, together with its watch, or the callback in the
slot of a watch that is not on a child. -/
theorem look_take {l l' : Loop Supervisor.Callback} {now : Nat} {job : Job Supervisor.Callback}
    (ht : l.Tidy) (h : l.take x now = some (job, l')) :
    (∃ w pid fd st cb, l.find? x = some w ∧ w.source = .child pid fd (some st) cb ∧
        job = ⟨cb, .child pid st, true⟩ ∧ l' = l.erase x) ∨
      (job.once = false ∧ (∀ pid st, job.payload ≠ .child pid st) ∧
        ∃ w ∈ l.watches, w.id = x ∧ w.ward? = none ∧ w.source.outline.slot = some job.callback ∧
          Alike l l' ∧ ∀ id, l'.look id = if id = x then (l.look id).map Outline.vacate else l.look id) := by
  rcases take_cases ht h with hchild | ⟨honce, hpay, -, halike⟩
  · exact .inl hchild
  · refine .inr ⟨honce, hpay, ?_⟩
    unfold take at h
    split at h
    · cases h
    · next w hw =>
      obtain ⟨hmem, hid⟩ := find?_spec hw
      have vacated : ∀ src : Source Supervisor.Callback, src.outline = w.source.outline.vacate → ∀ id,
          (l.modify x fun _ => src).look id =
            if id = x then (l.look id).map Outline.vacate else l.look id := by
        intro src hsrc id
        rw [look_modify]
        by_cases hi : id = x
        · rw [if_pos hi, if_pos hi, hi, look, hw, Option.map_some, Option.map_some, Option.map_some, hsrc]
        · rw [if_neg hi, if_neg hi]
      split at h
      · split at h
        · next hs =>
          cases h
          exact ⟨w, hmem, hid, by rw [Watch.ward?, hs], by rw [hs]; rfl, halike, vacated _ (by rw [hs]; rfl)⟩
        · next hs =>
          cases h
          cases honce
        · next hs =>
          cases h
          exact ⟨w, hmem, hid, by rw [Watch.ward?, hs], by rw [hs]; rfl, halike, vacated _ (by rw [hs]; rfl)⟩
        · next hs =>
          cases h
          exact ⟨w, hmem, hid, by rw [Watch.ward?, hs], by rw [hs]; rfl, halike, vacated _ (by rw [hs]; rfl)⟩
        · cases h
      · cases h

end Overseer.Loop
