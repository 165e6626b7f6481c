import Overseer.Proofs.Custody
import Overseer.Proofs.Origins

/-!
# Who comes first in a pass

The registry keeps its watches in the order of their numbers, and the supervisor gives normal priority to
its own watches.  So of two watches of one priority that are ready in one pass, the older one comes first.

    v, w ready,  priority v = priority w,  id v < id w,  w is run   →   v is run before w

Main statements: `orderly_run`, `before_in_pass`.
-/

namespace Overseer

open Supervisor

namespace Loop

/-- Numbers ascend, and the supervisor's own watches on children have normal priority. -/
structure Orderly (l : Loop Callback) : Prop where
  ascending : l.ids.Pairwise (· < ·)
  normal : ∀ w ∈ l.watches, ∀ k, w.ward? = some k → k.callback.isScript = false → w.priority = Priority.normal

variable {l : Loop Callback} {v w w' : Watch Callback} {now : Nat}

theorem ward_of_outline {p : Int} {cb : Callback} (h : w.source.outline = ⟨.child p, some cb⟩) :
    ∃ k, w.ward? = some k ∧ k.callback = cb := by
  unfold Watch.ward?
  cases hs : w.source with
  | child pid fd st cb' =>
    rw [hs] at h
    cases h
    exact ⟨_, rfl, rfl⟩
  | _ =>
    rw [hs] at h
    cases h

/-- A watch on a child that is kin to an earlier one has its callback and its priority. -/
theorem normal_of_kin (hk : Kin (fun _ _ => False) now w w')
    (hw : ∀ k, w.ward? = some k → k.callback.isScript = false → w.priority = Priority.normal) :
    ∀ k, w'.ward? = some k → k.callback.isScript = false → w'.priority = Priority.normal := by
  intro k' hk' hs
  have ho' := outline_of_ward hk'
  have hslot : w.source.outline.slot = some k'.callback := by
    rcases hk.slot with hsame | hnone | ⟨_, hf, -⟩
    · rw [← hsame, ho']
    · rw [ho'] at hnone
      cases hnone
    · exact hf.elim
  have hform : w.source.outline.form = .child k'.pid := by rw [← hk.form, ho']
  have ho : w.source.outline = ⟨.child k'.pid, some k'.callback⟩ := by
    rw [← hform, ← hslot]
  obtain ⟨k, hwk, hcb⟩ := ward_of_outline ho
  rw [hk.priority]
  exact hw k hwk (by rw [hcb]; exact hs)

/-! ## Ready watches -/

theorem readyIds_sublist (l : Loop Callback) (now : Nat) : (l.readyIds now).Sublist l.ids := by
  unfold readyIds
  dsimp only
  split
  · exact List.nil_sublist _
  · exact (List.filter_sublist.trans List.filter_sublist).map _

/-- A ready watch is run in this pass when one of its priority is. -/
theorem mem_readyIds (ht : l.Tidy) (hv : v ∈ l.watches) (hw : w ∈ l.watches) (hready : v.source.isReady now = true)
    (hp : v.priority = w.priority) (hrun : w.id ∈ l.readyIds now) : v.id ∈ l.readyIds now := by
  unfold readyIds at hrun ⊢
  dsimp only at hrun ⊢
  split at hrun
  · cases hrun
  · next best hbest =>
    obtain ⟨w', hw', hid⟩ := List.mem_map.1 hrun
    obtain ⟨hmem, hbestw⟩ := List.mem_filter.1 hw'
    obtain rfl := eq_of_id_eq ht (List.mem_filter.1 hmem).1 hw hid
    refine List.mem_map_of_mem (List.mem_filter.2 ⟨List.mem_filter.2 ⟨hv, hready⟩, ?_⟩)
    rwa [hp]

theorem mem_takeWhile_of_lt {xs : List Nat} {a b : Nat} (hxs : xs.Pairwise (· < ·)) (ha : a ∈ xs) (hlt : a < b) :
    a ∈ xs.takeWhile (· != b) := by
  induction xs with
  | nil => cases ha
  | cons x xs ih =>
    obtain ⟨hx, hrest⟩ := List.pairwise_cons.1 hxs
    have hne : x ≠ b := by
      rcases List.mem_cons.1 ha with rfl | ha
      · exact Nat.ne_of_lt hlt
      · exact Nat.ne_of_lt (Nat.lt_trans (hx a ha) hlt)
    rw [List.takeWhile_cons_of_pos (by simpa using hne)]
    rcases List.mem_cons.1 ha with rfl | ha
    · exact List.mem_cons_self
    · exact List.mem_cons_of_mem _ (ih hrest ha)

/-- The older of two ready watches of one priority comes before the younger one. -/
theorem before_in_pass (ho : l.Orderly) (ht : l.Tidy) (hv : v ∈ l.watches) (hw : w ∈ l.watches)
    (hready : v.source.isReady now = true) (hp : v.priority = w.priority) (hlt : v.id < w.id)
    (hrun : w.id ∈ l.readyIds now) : v.id ∈ (l.readyIds now).takeWhile (· != w.id) :=
  mem_takeWhile_of_lt (ho.ascending.sublist (readyIds_sublist l now)) (mem_readyIds ht hv hw hready hp hrun) hlt

end Loop

namespace Machine

variable {o s t : Machine} {log : List Entry}

/-! ## Edits -/

/-- Numbers are forgotten, or one is given that no watch has had. -/
theorem Edit.ids (h : Edit o s t) (ht : s.loop.Tidy) :
    t.loop.ids.Sublist s.loop.ids ∨ t.loop.ids = s.loop.ids ++ [s.loop.lastId + 1] := by
  have same : t.loop.ids = s.loop.ids →
      t.loop.ids.Sublist s.loop.ids ∨ t.loop.ids = s.loop.ids ++ [s.loop.lastId + 1] :=
    fun he => .inl (he ▸ List.Sublist.refl _)
  have erased : ∀ id, (s.loop.erase id).ids.Sublist s.loop.ids := fun id => List.filter_sublist.map _
  cases h with
  | aside ha => exact same (by rw [Loop.ids, Loop.ids, ha.watches])
  | added priority src ha => exact .inr (Loop.ids_insert s.loop priority src)
  | taken id now rest ran job l ho hl =>
    rcases Loop.take_cases ht hl with ⟨_, _, _, _, _, -, -, -, rfl⟩ | ⟨-, -, -, ha⟩
    · exact .inl (erased id)
    · exact same ha.ids
  | restored id cb ho => exact same (Loop.alike_restore s.loop id s.kernel.now cb).ids
  | ended id cb ho => exact .inl (erased id)
  | removed id ho => exact .inl (erased id)
  | collected => exact same (Loop.ids_collect s.loop s.kernel)
  | forgot => exact same (Loop.alike_forgetFired s.loop).ids
  | reported rs => exact same (Loop.alike_record s.loop rs).ids
  | _ => exact .inl (List.Sublist.refl _)

theorem Edit.orderly (h : Edit o s t) (ht : s.loop.Tidy) (hp : s.loop.Orderly) : t.loop.Orderly := by
  constructor
  case ascending =>
    rcases h.ids ht with hsub | hnew
    · exact hp.ascending.sublist hsub
    · rw [hnew]
      refine List.pairwise_append.2 ⟨hp.ascending, List.pairwise_singleton _ _, fun a ha b hb => ?_⟩
      rw [List.mem_singleton.1 hb]
      exact Nat.lt_succ_of_le (ht.le a ha)
  case normal =>
    intro w' hw'
    have kin : (∃ w ∈ s.loop.watches, Loop.Kin (fun _ _ => False) s.kernel.now w w') →
        ∀ k, w'.ward? = some k → k.callback.isScript = false → w'.priority = Loop.Priority.normal := by
      rintro ⟨w, hw, hk⟩
      exact Loop.normal_of_kin hk (hp.normal w hw)
    have same : w' ∈ s.loop.watches →
        ∀ k, w'.ward? = some k → k.callback.isScript = false → w'.priority = Loop.Priority.normal :=
      hp.normal w'
    cases h with
    | aside ha => exact same (by rwa [ha.watches] at hw')
    | added priority src ha =>
      rcases List.mem_append.1 hw' with hw' | hw'
      · exact same hw'
      · intro k hk hs
        obtain rfl := List.mem_singleton.1 hw'
        have hout := Loop.outline_of_ward hk
        obtain ⟨cb, hcb, hscript | ⟨-, hnormal⟩⟩ := ha
        · have hcb' : src.outline.slot = some k.callback := congrArg Loop.Outline.slot hout
          rw [hcb] at hcb'
          cases hcb'
          rw [hscript.1] at hs
          cases hs
        · exact hnormal
    | taken id now rest ran job l ho hl => exact kin (Loop.kin_take ht hl hw')
    | restored id cb ho =>
      -- giving a callback back leaves watches on children alone
      obtain ⟨w, hw, rfl | ⟨-, rfl⟩⟩ := Loop.mem_modify hw'
      · exact hp.normal _ hw
      · intro k hk hs
        refine hp.normal w hw k ?_ hs
        unfold Loop.Watch.ward? at hk ⊢
        cases hsrc : w.source with
        | child pid fd st cb' =>
          rw [hsrc] at hk
          exact hk
        | _ =>
          rw [hsrc] at hk
          cases hk
    | ended id cb ho => exact same (Loop.mem_erase.1 hw').1
    | removed id ho => exact same (Loop.mem_erase.1 hw').1
    | collected => exact kin (Loop.kin_collectIn hw')
    | forgot => exact kin (Loop.kin_forgetFired hw')
    | reported rs => exact kin (Loop.kin_record hw')
    | _ => exact same hw'

/-- In every run the registry is in order. -/
theorem orderly_run {G : Machine → Prop} (h : Run G s log) : s.loop.Orderly := by
  have hboth : s.loop.Tidy ∧ s.loop.Orderly := by
    refine Run.invariant (P := fun s _ => s.loop.Tidy ∧ s.loop.Orderly) (fun s hi => ?_)
      (fun s log t log' hp hm => ?_) h
    · have hnone : s.loop.watches = [] := by cases hi <;> rfl
      refine ⟨⟨?_, ?_⟩, ?_, ?_⟩ <;> simp [Loop.ids, hnone]
    · rcases move_cases hm with ⟨-, rfl, -⟩ | ⟨hb, -⟩
      · exact step_keeps (P := fun t => t.loop.Tidy ∧ t.loop.Orderly) hp fun u v he hu =>
          ⟨he.tidy hu.1, he.orderly hu.1 hu.2⟩
      · have hids : t.loop.ids = s.loop.ids := by rw [Loop.ids, Loop.ids, hb.watches]
        exact ⟨⟨hids ▸ hp.1.nodup, by rw [hids, hb.lastId]; exact hp.1.le⟩, hids ▸ hp.2.ascending,
          by rw [hb.watches]; exact hp.2.normal⟩
  exact hboth.2

end Machine

end Overseer
