import Mathlib.Data.List.Nodup
import Overseer.Supervisor.Machine

/-!
# Watches on children

A ward is a watch on a child, as far as the child goes: its number, pid, status and callback.  The
supervisor's own wards report to a handle or are detached; all others belong to the user.

    wards (insert src l)  =  wards l, with one more when src is a child
    wards (erase id l)    =  the wards of l whose number is not id
    Alike l l'            →  wards l' = wards l

A pass changes callbacks and readiness of other watches only, so it leaves the wards alone but for
two things: it collects the dead, and it takes a ward whose child has ended out of the registry.
-/

namespace Overseer

open Supervisor (Callback)

namespace Supervisor

structure Ward where
  id : Nat
  pid : Int
  status : Option ExitStatus
  callback : Callback

/-- The supervisor itself looks after this child. -/
def Ward.isOwn (k : Ward) : Bool :=
  match k.callback with
  | .reap .. => true
  | .detached => true
  | _ => false

end Supervisor

namespace Loop

open Supervisor (Ward)

variable {κ : Type}

/-- The numbers of the registered watches. -/
def ids (l : Loop κ) : List Nat := l.watches.map (·.id)

def Watch.ward? (w : Watch Callback) : Option Ward :=
  match w.source with
  | .child pid _ status cb => some ⟨w.id, pid, status, cb⟩
  | _ => none

def wards (l : Loop Callback) : List Ward := l.watches.filterMap Watch.ward?

/-- Numbers are given once, and never beyond the last one. -/
structure Tidy (l : Loop κ) : Prop where
  nodup : l.ids.Nodup
  le : ∀ id ∈ l.ids, id ≤ l.lastId

/-- What a watch is to the children. -/
def Watch.shape (w : Watch Callback) : Nat × Option Ward := (w.id, w.ward?)

/-- Both registries hold the same numbers and the same wards. -/
structure Alike (l l' : Loop Callback) : Prop where
  lastId : l'.lastId = l.lastId
  shapes : l'.watches.map Watch.shape = l.watches.map Watch.shape

/-! ## Lemmas -/

theorem ward?_id {w : Watch Callback} {k : Ward} (h : w.ward? = some k) : k.id = w.id := by
  unfold Watch.ward? at h
  split at h
  · cases h
    rfl
  · cases h

theorem mem_wards {l : Loop Callback} {k : Ward} :
    k ∈ l.wards ↔ ∃ w ∈ l.watches, w.ward? = some k := by
  simp [wards]

theorem id_mem_ids {l : Loop Callback} {k : Ward} (h : k ∈ l.wards) : k.id ∈ l.ids := by
  obtain ⟨w, hw, hk⟩ := mem_wards.1 h
  rw [ward?_id hk]
  exact List.mem_map_of_mem hw

theorem eq_of_id_eq {l : Loop κ} (ht : l.Tidy) {v w : Watch κ} (hv : v ∈ l.watches)
    (hw : w ∈ l.watches) (h : v.id = w.id) : v = w :=
  List.inj_on_of_nodup_map ht.nodup hv hw h

/-- Wards of one number are one ward. -/
theorem ward_eq_of_id_eq {l : Loop Callback} (ht : l.Tidy) {k m : Ward} (hk : k ∈ l.wards)
    (hm : m ∈ l.wards) (h : k.id = m.id) : k = m := by
  obtain ⟨v, hv, hkv⟩ := mem_wards.1 hk
  obtain ⟨w, hw, hmw⟩ := mem_wards.1 hm
  have hid : v.id = w.id := by rw [← ward?_id hkv, ← ward?_id hmw, h]
  have hvw := eq_of_id_eq ht hv hw hid
  rw [hvw, hmw] at hkv
  exact (Option.some.inj hkv).symm

theorem find?_spec {l : Loop κ} {id : Nat} {w : Watch κ} (h : l.find? id = some w) :
    w ∈ l.watches ∧ w.id = id := by
  refine ⟨List.mem_of_find?_eq_some h, ?_⟩
  have := List.find?_some h
  simpa using this

/-! ### Alike registries -/

theorem Alike.refl (l : Loop Callback) : Alike l l := ⟨rfl, rfl⟩

theorem Alike.trans {a b c : Loop Callback} (h : Alike a b) (h' : Alike b c) : Alike a c :=
  ⟨h'.lastId.trans h.lastId, h'.shapes.trans h.shapes⟩

theorem Alike.ids {l l' : Loop Callback} (h : Alike l l') : l'.ids = l.ids := by
  have := congrArg (List.map Prod.fst) h.shapes
  rwa [List.map_map, List.map_map] at this

theorem Alike.wards {l l' : Loop Callback} (h : Alike l l') : l'.wards = l.wards := by
  have key : ∀ m : Loop Callback, m.wards = (m.watches.map Watch.shape).filterMap Prod.snd := by
    intro m
    rw [List.filterMap_map]
    rfl
  rw [key l', key l, h.shapes]

theorem Alike.tidy {l l' : Loop Callback} (h : Alike l l') (ht : l.Tidy) : l'.Tidy := by
  refine ⟨by rw [h.ids]; exact ht.nodup, ?_⟩
  intro id hid
  rw [h.ids] at hid
  rw [h.lastId]
  exact ht.le id hid

/-- A change of one watch that neither begins nor ends at a child. -/
theorem alike_modify {l : Loop Callback} {id : Nat} {f : Source Callback → Source Callback}
    (hf : ∀ w ∈ l.watches, w.id = id → ({ w with source := f w.source } : Watch Callback).ward? = w.ward?) :
    Alike l (l.modify id f) := by
  refine ⟨rfl, ?_⟩
  unfold modify
  rw [List.map_map]
  refine List.map_congr_left fun w hw => ?_
  by_cases hid : w.id = id
  · subst hid
    simp [Watch.shape, hf w hw rfl]
  · simp [Watch.shape, hid]

theorem alike_forgetFired (l : Loop Callback) : Alike l l.forgetFired := by
  refine ⟨rfl, ?_⟩
  unfold forgetFired
  rw [List.map_map]
  refine List.map_congr_left fun w _ => ?_
  obtain ⟨id, priority, source⟩ := w
  rcases source with ⟨fd, interest, fired, slot⟩ | _ | _ | _
  · cases slot <;> rfl
  all_goals rfl

theorem alike_recordOne (l : Loop Callback) (id : Nat) (r : UInt16) : Alike l (l.recordOne id r) := by
  unfold recordOne
  split
  · exact .refl l
  · refine alike_modify fun w _ _ => ?_
    obtain ⟨id, priority, source⟩ := w
    cases source <;> rfl

theorem alike_record (l : Loop Callback) (reported : List (Nat × UInt16)) :
    Alike l (l.record reported) := by
  unfold record
  induction reported generalizing l with
  | nil => exact .refl l
  | cons r rest ih => exact (alike_recordOne l r.1 r.2).trans (ih _)

theorem alike_restore (l : Loop Callback) (id now : Nat) (cb : Callback) :
    Alike l (l.restore id now cb) := by
  refine alike_modify fun w _ _ => ?_
  obtain ⟨id, priority, source⟩ := w
  cases source <;> rfl

/-! ### Insertion and removal -/

theorem ids_insert (l : Loop κ) (priority : Priority) (src : Source κ) :
    (l.insert priority src).2.ids = l.ids ++ [l.lastId + 1] := by
  simp [ids, insert]

theorem wards_insert (l : Loop Callback) (priority : Priority) (src : Source Callback) :
    (l.insert priority src).2.wards =
      l.wards ++ (Watch.ward? ⟨l.lastId + 1, priority, src⟩).toList := by
  simp only [wards, insert, List.filterMap_append]
  cases h : Watch.ward? ⟨l.lastId + 1, priority, src⟩ <;> simp [h]

theorem Tidy.insert {l : Loop κ} (ht : l.Tidy) (priority : Priority) (src : Source κ) :
    (l.insert priority src).2.Tidy := by
  refine ⟨?_, ?_⟩
  · rw [ids_insert]
    refine ht.nodup.append (List.nodup_singleton _) fun id h h' => ?_
    have := ht.le id h
    rw [List.mem_singleton] at h'
    omega
  · intro id hid
    rw [ids_insert] at hid
    show id ≤ l.lastId + 1
    rcases List.mem_append.1 hid with h | h
    · have := ht.le id h
      omega
    · rw [List.mem_singleton] at h
      omega

theorem Tidy.erase {l : Loop κ} (ht : l.Tidy) (id : Nat) : (l.erase id).Tidy := by
  have hsub : (l.erase id).ids.Sublist l.ids := List.filter_sublist.map _
  exact ⟨ht.nodup.sublist hsub, fun i hi => ht.le i (hsub.subset hi)⟩

theorem wards_erase (l : Loop Callback) (id : Nat) :
    (l.erase id).wards = l.wards.filter fun k => k.id != id := by
  unfold wards erase
  rw [List.filterMap_filter, List.filter_filterMap]
  refine List.filterMap_congr fun w _ => ?_
  cases hk : w.ward? with
  | none => simp
  | some k =>
    rw [← ward?_id hk, Option.filter_some]

theorem mem_wards_erase {l : Loop Callback} {id : Nat} {k : Ward} :
    k ∈ (l.erase id).wards ↔ k ∈ l.wards ∧ k.id ≠ id := by
  rw [wards_erase, List.mem_filter, bne_iff_ne]

/-! ### Taking a callback -/

/-- What is taken is the callback of an ended child, together with its watch, or a callback of
a watch that is not on a child, which leaves the registry alike. -/
theorem take_cases {l l' : Loop Callback} {id now : Nat} {job : Job Callback} (ht : l.Tidy)
    (h : l.take id now = some (job, l')) :
    (∃ w pid fd st cb, l.find? id = some w ∧ w.source = .child pid fd (some st) cb ∧
        job = ⟨cb, .child pid st, true⟩ ∧ l' = l.erase id) ∨
      (job.once = false ∧ (∀ pid st, job.payload ≠ .child pid st) ∧
        (∃ w ∈ l.watches, w.id = id ∧ w.ward? = none) ∧ Alike l l') := by
  unfold take at h
  split at h
  · cases h
  · next w hw =>
    obtain ⟨hmem, hid⟩ := find?_spec hw
    have same : ∀ v ∈ l.watches, v.id = id → v = w := fun v hv hvid =>
      eq_of_id_eq ht hv hmem (by rw [hvid, hid])
    have kept : ∀ src, w.ward? = none →
        ({ w with source := src } : Watch Callback).ward? = none →
        (∃ v ∈ l.watches, v.id = id ∧ v.ward? = none) ∧ Alike l (l.modify id fun _ => src) := by
      intro src hn hs
      refine ⟨⟨w, hmem, hid, hn⟩, alike_modify fun v hv hvid => ?_⟩
      rw [same v hv hvid, hn]
      exact hs
    split at h
    · next hready =>
      split at h
      · next hs =>
        cases h
        exact .inr ⟨rfl, by simp, kept _ (by simp [Watch.ward?, hs]) rfl⟩
      · next pid fd status cb hs =>
        cases h
        cases status with
        | none => simp [hs, Source.isReady] at hready
        | some st => exact .inl ⟨w, pid, fd, st, cb, hw, hs, rfl, rfl⟩
      · next hs =>
        cases h
        exact .inr ⟨rfl, by simp, kept _ (by simp [Watch.ward?, hs]) rfl⟩
      · next hs =>
        cases h
        exact .inr ⟨rfl, by simp, kept _ (by simp [Watch.ward?, hs]) rfl⟩
      · cases h
    · cases h

end Loop

end Overseer
