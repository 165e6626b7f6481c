import Overseer.Proofs.Registry

/-!
# Where a watch comes from

A watch that is registered after an edit has been added in it, or it was registered before, and then it is
the same but for what an edit may change: its slot, the readiness it was told of, and, when its callback is
given back, the time at which it is due.  A timer that an edit does not concern is left alone altogether.

    w' registered afterwards   →   w' was added,  or  Kin w w' for some w registered before
    w a timer, not dropped, not lent out, not about to be called   →   w registered afterwards

Main statements: `Edit.origin`, `Edit.keeps`.
-/

namespace Overseer

open Supervisor

namespace Loop

/-- The time at which a timer is due. -/
def Source.due? {κ : Type} : Source κ → Option Nat
  | .timer _ deadline _ => some deadline
  | _ => none

def Source.interval? {κ : Type} : Source κ → Option Nat
  | .timer interval _ _ => some interval
  | _ => none

/-- What may have become of a watch at this time, if these of its callbacks are lent out. -/
structure Kin (lent : Nat → Callback → Prop) (now : Nat) (w w' : Watch Callback) : Prop where
  id : w'.id = w.id
  priority : w'.priority = w.priority
  form : w'.source.outline.form = w.source.outline.form
  slot : w'.source.outline.slot = w.source.outline.slot ∨ w'.source.outline.slot = none ∨
    ∃ cb, lent w.id cb ∧ w'.source.outline.slot = some cb
  interval : w'.source.interval? = w.source.interval?
  due : w'.source.due? = w.source.due? ∨
    ((∃ cb, lent w.id cb) ∧ w'.source.due? = w.source.interval?.map (now + ·))

variable {l l' : Loop Callback} {w w' : Watch Callback} {lent : Nat → Callback → Prop} {now id : Nat}

theorem Kin.refl (w : Watch Callback) : Kin lent now w w := ⟨rfl, rfl, rfl, .inl rfl, rfl, .inl rfl⟩

/-- Readiness is all that differs. -/
theorem kin_of_outline {src : Source Callback} (ho : src.outline = w.source.outline)
    (hi : src.interval? = w.source.interval?) (hd : src.due? = w.source.due?) :
    Kin lent now w { w with source := src } :=
  ⟨rfl, rfl, congrArg Outline.form ho, .inl (congrArg Outline.slot ho), hi, .inl hd⟩

theorem mem_modify {f : Source Callback → Source Callback} (h : w' ∈ (l.modify id f).watches) :
    ∃ w ∈ l.watches, w' = w ∨ (w.id = id ∧ w' = { w with source := f w.source }) := by
  obtain ⟨w, hw, rfl⟩ := List.mem_map.1 h
  refine ⟨w, hw, ?_⟩
  by_cases hid : w.id = id
  · exact .inr ⟨hid, by simp [hid]⟩
  · exact .inl (by simp [hid])

theorem mem_modify_of_ne {f : Source Callback → Source Callback} (hw : w ∈ l.watches) (hid : w.id ≠ id) :
    w ∈ (l.modify id f).watches :=
  List.mem_map.2 ⟨w, hw, by simp [hid]⟩

theorem mem_modify_self {f : Source Callback → Source Callback} (hw : w ∈ l.watches) (hf : f w.source = w.source) :
    w ∈ (l.modify id f).watches := by
  refine List.mem_map.2 ⟨w, hw, ?_⟩
  rw [hf]
  split <;> rfl

/-! ## The stages of a pass -/

theorem kin_collectIn {ws : List (Watch Callback)} {k : Kernel} (h : w' ∈ (collectIn ws k).1) :
    ∃ w ∈ ws, Kin lent now w w' := by
  induction ws generalizing k with
  | nil => cases h
  | cons v r ih =>
    have hrest : ∀ {k}, w' ∈ (collectIn r k).1 → ∃ w ∈ v :: r, Kin lent now w w' := fun hm => by
      obtain ⟨w, hw, hk⟩ := ih hm
      exact ⟨w, List.mem_cons_of_mem _ hw, hk⟩
    unfold collectIn at h
    split at h
    · next pid fd cb hs =>
      dsimp only at h
      rcases List.mem_cons.1 h with rfl | hm
      · refine ⟨v, List.mem_cons_self, kin_of_outline ?_ ?_ ?_⟩
        all_goals
          rw [hs]
          cases (reap k pid).1 <;> rfl
      · exact hrest hm
    · dsimp only at h
      rcases List.mem_cons.1 h with rfl | hm
      · exact ⟨_, List.mem_cons_self, .refl _⟩
      · exact hrest hm

/-- A watch that is not on a child is not collected. -/
theorem mem_collectIn {ws : List (Watch Callback)} {k : Kernel} (hw : w ∈ ws) (hn : w.ward? = none) :
    w ∈ (collectIn ws k).1 := by
  induction ws generalizing k with
  | nil => cases hw
  | cons v r ih =>
    unfold collectIn
    split
    · next pid fd cb hs =>
      rcases List.mem_cons.1 hw with rfl | hw
      · simp [Watch.ward?, hs] at hn
      · exact List.mem_cons_of_mem _ (ih hw)
    · rcases List.mem_cons.1 hw with rfl | hw
      · exact List.mem_cons_self
      · exact List.mem_cons_of_mem _ (ih hw)

theorem kin_forgetFired (h : w' ∈ l.forgetFired.watches) : ∃ w ∈ l.watches, Kin lent now w w' := by
  obtain ⟨w, hw, rfl⟩ := List.mem_map.1 h
  refine ⟨w, hw, ?_⟩
  split
  · next hs =>
    refine kin_of_outline ?_ ?_ ?_
    all_goals
      rw [hs]
      rfl
  · exact .refl w

theorem mem_forgetFired (hw : w ∈ l.watches) (hn : w.source.due?.isSome) : w ∈ l.forgetFired.watches := by
  refine List.mem_map.2 ⟨w, hw, ?_⟩
  split
  · next hs => simp [hs, Source.due?] at hn
  · rfl

/-- With nothing lent out, what has become of a watch goes on becoming. -/
theorem Kin.trans {w'' : Watch Callback} (h : Kin (fun _ _ => False) now w w') (h' : Kin lent now w' w'') :
    Kin lent now w w'' := by
  have hdue : w'.source.due? = w.source.due? := h.due.resolve_right fun hl => hl.1.elim fun _ hc => hc
  refine ⟨h'.id.trans h.id, h'.priority.trans h.priority, h'.form.trans h.form, ?_,
    h'.interval.trans h.interval, ?_⟩
  · have hslot := h'.slot
    rw [h.id] at hslot
    rcases hslot with hs | hs
    · rw [hs]
      rcases h.slot with ho | ho | ⟨_, hc, -⟩
      · exact .inl ho
      · exact .inr (.inl ho)
      · exact hc.elim
    · exact .inr hs
  · have hlater := h'.due
    rwa [hdue, h.interval, h.id] at hlater

theorem kin_recordOne (reported : UInt16) (h : w' ∈ (l.recordOne id reported).watches) :
    ∃ w ∈ l.watches, Kin lent now w w' := by
  unfold recordOne at h
  split at h
  · exact ⟨w', h, .refl w'⟩
  · obtain ⟨w, hw, rfl | ⟨-, rfl⟩⟩ := mem_modify h
    · exact ⟨_, hw, .refl _⟩
    · refine ⟨w, hw, ?_⟩
      cases hs : w.source with
      | io => exact kin_of_outline (by rw [hs]; rfl) (by rw [hs]; rfl) (by rw [hs]; rfl)
      | _ => exact kin_of_outline (by rw [hs]) (by rw [hs]) (by rw [hs])

theorem kin_record {rs : List (Nat × UInt16)} (h : w' ∈ (l.record rs).watches) :
    ∃ w ∈ l.watches, Kin lent now w w' := by
  unfold record at h
  induction rs generalizing l with
  | nil => exact ⟨w', h, .refl w'⟩
  | cons r rs ih =>
    obtain ⟨v, hv, hk⟩ := ih h
    obtain ⟨w, hw, hk'⟩ := kin_recordOne r.2 hv
    exact ⟨w, hw, Kin.trans hk' hk⟩

theorem mem_record {rs : List (Nat × UInt16)} (hw : w ∈ l.watches) (hn : w.source.due?.isSome) :
    w ∈ (l.record rs).watches := by
  unfold record
  induction rs generalizing l with
  | nil => exact hw
  | cons r rs ih =>
    refine ih ?_
    show w ∈ (l.recordOne r.1 r.2).watches
    unfold recordOne
    split
    · exact hw
    · refine mem_modify_self hw ?_
      cases hs : w.source with
      | io => simp [hs, Source.due?] at hn
      | _ => rfl

/-! ## Taking and giving back -/

theorem kin_take {job : Job Callback} {time : Nat} (ht : l.Tidy) (h : l.take id time = some (job, l'))
    (hm : w' ∈ l'.watches) :
    ∃ w ∈ l.watches, Kin lent now w w' := by
  unfold take at h
  split at h
  · cases h
  · next v hv =>
    obtain ⟨hmem, hvid⟩ := find?_spec hv
    have vacated : ∀ src : Source Callback, src.outline = v.source.outline.vacate →
        src.interval? = v.source.interval? → src.due? = v.source.due? →
        w' ∈ (l.modify id fun _ => src).watches → ∃ w ∈ l.watches, Kin lent now w w' := by
      intro src ho hi hd hm
      obtain ⟨w, hw, rfl | ⟨hid, rfl⟩⟩ := mem_modify hm
      · exact ⟨_, hw, .refl _⟩
      · obtain rfl := eq_of_id_eq ht hw hmem (hid.trans hvid.symm)
        have hform : src.outline.form = w.source.outline.form := by rw [ho]; rfl
        have hslot : src.outline.slot = none := by rw [ho]; rfl
        exact ⟨w, hw, rfl, rfl, hform, .inr (.inl hslot), hi, .inl hd⟩
    split at h
    · split at h
      · next hs =>
        cases h
        exact vacated _ (by rw [hs]; rfl) (by rw [hs]; rfl) (by rw [hs]; rfl) hm
      · next hs =>
        cases h
        exact ⟨w', (mem_erase.1 hm).1, .refl w'⟩
      · next hs =>
        cases h
        exact vacated _ (by rw [hs]; rfl) (by rw [hs]; rfl) (by rw [hs]; rfl) hm
      · next hs =>
        cases h
        exact vacated _ (by rw [hs]; rfl) (by rw [hs]; rfl) (by rw [hs]; rfl) hm
      · cases h
    · cases h

/-- Taking a callback leaves the other watches alone. -/
theorem mem_take {job : Job Callback} (h : l.take id now = some (job, l')) (hw : w ∈ l.watches) (hid : w.id ≠ id) :
    w ∈ l'.watches := by
  unfold take at h
  split at h
  · cases h
  · split at h
    · split at h
      · cases h
        exact mem_modify_of_ne hw hid
      · cases h
        exact mem_erase.2 ⟨hw, hid⟩
      · cases h
        exact mem_modify_of_ne hw hid
      · cases h
        exact mem_modify_of_ne hw hid
      · cases h
    · cases h

theorem kin_restore {cb : Callback} (hcb : lent id cb)
    (hm : w' ∈ (l.restore id now cb).watches) : ∃ w ∈ l.watches, Kin lent now w w' := by
  obtain ⟨w, hw, rfl | ⟨hid, rfl⟩⟩ := mem_modify hm
  · exact ⟨_, hw, .refl _⟩
  · subst hid
    refine ⟨w, hw, ?_⟩
    cases hs : w.source with
    | io fd interest fired slot =>
      exact ⟨rfl, rfl, by rw [hs]; rfl, .inr (.inr ⟨cb, hcb, rfl⟩), by rw [hs]; rfl, .inl (by rw [hs]; rfl)⟩
    | timer interval deadline slot =>
      exact ⟨rfl, rfl, by rw [hs]; rfl, .inr (.inr ⟨cb, hcb, rfl⟩), by rw [hs]; rfl,
        .inr ⟨⟨cb, hcb⟩, by rw [hs]; rfl⟩⟩
    | idle slot =>
      exact ⟨rfl, rfl, by rw [hs]; rfl, .inr (.inr ⟨cb, hcb, rfl⟩), by rw [hs]; rfl, .inl (by rw [hs]; rfl)⟩
    | child pid fd st cb' => exact kin_of_outline (by rw [hs]) (by rw [hs]) (by rw [hs])

end Loop

namespace Machine

variable {o s t : Machine} {w w' : Loop.Watch Callback} {id : Nat}

/-! ## Edits -/

theorem Edit.tidy (h : Edit o s t) (ht : s.loop.Tidy) : t.loop.Tidy := by
  cases h with
  | aside ha => exact ⟨by rw [Loop.ids, ha.watches]; exact ht.nodup, by
      rw [Loop.ids, ha.watches, ha.lastId]
      exact ht.le⟩
  | added priority src ha => exact ht.insert priority src
  | taken id now rest ran job l ho hl =>
    rcases Loop.take_cases ht hl with ⟨_, _, _, _, _, -, -, -, rfl⟩ | ⟨-, -, -, ha⟩
    · exact ht.erase id
    · exact ha.tidy ht
  | restored id cb ho => exact (Loop.alike_restore s.loop id s.kernel.now cb).tidy ht
  | ended id cb ho => exact ht.erase id
  | removed id ho => exact ht.erase id
  | collected => exact ht.collect
  | forgot => exact (Loop.alike_forgetFired s.loop).tidy ht
  | reported rs => exact (Loop.alike_record s.loop rs).tidy ht
  | _ => exact ht

theorem Edit.now_le (h : Edit o s t) : s.kernel.now ≤ t.kernel.now := by
  cases h with
  | aside ha => exact Nat.le_of_eq ha.now.symm
  | collected => exact Nat.le_of_eq (now_collect s).symm
  | slept k ho hk => exact hk
  | _ => exact Nat.le_refl _

theorem Edit.lastId_le (h : Edit o s t) : s.loop.lastId ≤ t.loop.lastId := by
  cases h with
  | aside ha => exact Nat.le_of_eq ha.lastId.symm
  | added priority src ha => exact Nat.le_succ _
  | taken id now rest ran job l ho hl =>
    unfold Loop.take at hl
    split at hl
    · cases hl
    · split at hl
      · split at hl <;> first | (cases hl; done) | (cases hl; exact Nat.le_refl _)
      · cases hl
  | reported rs => exact Nat.le_of_eq (Loop.alike_record s.loop rs).lastId.symm
  | _ => exact Nat.le_refl _

/-- A watch has been added, or there was one before of which it has become. -/
theorem Edit.origin (h : Edit o s t) (ht : s.loop.Tidy) (hw : w' ∈ t.loop.watches) :
    (w'.id = s.loop.lastId + 1 ∧ Admits o w'.priority w'.source) ∨
      ∃ w ∈ s.loop.watches, Loop.Kin (fun id cb => .settle id cb ∈ o.stack) s.kernel.now w w' := by
  have same : w' ∈ s.loop.watches →
      ∃ w ∈ s.loop.watches, Loop.Kin (fun id cb => .settle id cb ∈ o.stack) s.kernel.now w w' :=
    fun hm => ⟨w', hm, .refl w'⟩
  cases h with
  | aside ha => exact .inr (same (by rwa [ha.watches] at hw))
  | added priority src ha =>
    rcases List.mem_append.1 hw with hw | hw
    · exact .inr (same hw)
    · rw [List.mem_singleton.1 hw]
      exact .inl ⟨rfl, ha⟩
  | taken id now rest ran job l ho hl =>
    exact .inr (Loop.kin_take ht hl hw)
  | restored id cb ho => exact .inr (Loop.kin_restore ho.mem hw)
  | ended id cb ho => exact .inr (same (Loop.mem_erase.1 hw).1)
  | removed id ho => exact .inr (same (Loop.mem_erase.1 hw).1)
  | collected => exact .inr (Loop.kin_collectIn hw)
  | forgot => exact .inr (Loop.kin_forgetFired hw)
  | reported rs => exact .inr (Loop.kin_record hw)
  | _ => exact .inr (same hw)

/-- A timer that the edit does not concern stays as it is. -/
theorem Edit.keeps (h : Edit o s t) (hw : w ∈ s.loop.watches) (hn : w.source.due?.isSome)
    (hdrop : w.id ∉ o.drops) (hlent : ∀ cb, .settle w.id cb ∉ o.stack)
    (hcall : ∀ rest now ran, o.control ≠ .dispatch (w.id :: rest) now ran) : w ∈ t.loop.watches := by
  cases h with
  | aside ha => rwa [ha.watches]
  | added priority src ha => exact List.mem_append_left _ hw
  | taken id now rest ran job l ho hl =>
    refine Loop.mem_take hl hw ?_
    rintro rfl
    exact hcall rest now ran ho
  | restored id cb ho =>
    refine Loop.mem_modify_of_ne hw ?_
    rintro rfl
    exact hlent cb ho.mem
  | ended id cb ho =>
    refine Loop.mem_erase.2 ⟨hw, ?_⟩
    rintro rfl
    exact hlent cb ho.mem
  | removed id ho =>
    refine Loop.mem_erase.2 ⟨hw, ?_⟩
    rintro rfl
    exact hdrop ho
  | collected =>
    refine Loop.mem_collectIn hw ?_
    cases hs : w.source with
    | timer => rw [Loop.Watch.ward?, hs]
    | _ => simp [hs, Loop.Source.due?] at hn
  | forgot => exact Loop.mem_forgetFired hw hn
  | reported rs => exact Loop.mem_record hw hn
  | _ => exact hw

/-- What each edit of a step keeps is kept by the step. -/
theorem step_keeps {P : Machine → Prop} (hp : P s) (h : ∀ u v, Edit s u v → P u → P v) : P s.step := by
  have key : ∀ t, Edits s s t → P t := by
    intro t ht
    induction ht with
    | refl => exact hp
    | tail _ he ih => exact h _ _ he ih
  exact key _ (step_edits s)

end Machine

end Overseer
