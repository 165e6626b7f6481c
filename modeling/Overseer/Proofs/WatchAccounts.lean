import Overseer.Proofs.Ownership
import Overseer.Proofs.Marks

/-!
# Accounts of single watches

The books are in order when every watch has its owner and every owner its watch, and the calls that
wait have their marks.  Whatever happens to one watch keeps them so, and so do the turns of the calls.

    lent, taken       the callback is out for a call, or gone with its watch
    restored, ended   it has returned
    rung              a deadline has left its mark
    engaged, removed  the watch is new, or forgotten

Main statement: `Accounts.stir`.
-/

namespace Overseer

open Supervisor
open Kernel (Stream)
open Loop (Form Outline)

namespace Machine

/-- The books are in order. -/
structure Accounts (given : Nat → Prop) (left : Nat → Nat → Int → Prop) (σ : Stage) (log : List Entry) :
    Prop where
  slots : σ.Slots
  ledger : Ledger given left σ log
  marks : Marks σ

variable {o s t : Machine} {σ : Stage} {A B D D' : List Duty} {d : Option (Nat × Event)} {id : Nat}
  {cb : Callback} {given : Nat → Prop} {left : Nat → Nat → Int → Prop} {log es : List Entry}

/-! ## Duties -/

theorem Turn.reapings (h : Turn s D D') (x : Reaping) (hx : x ∈ D'.flatMap Duty.reapings) :
    x ∈ D.flatMap Duty.reapings := by
  cases h with
  | heeded b hd => exact hx
  | muted b => cases hx
  | shed y rest hstale => exact List.mem_cons_of_mem _ hx
  | _ => exact hx

theorem Turn.clear (h : Turn s D D') (hid : .clear id ∈ D') : .clear id ∈ D := by
  cases h with
  | heeded b hd => exact List.mem_cons_of_mem _ hid
  | muted b => cases hid
  | _ => simp_all

theorem Accounts.turn (ha : Accounts given left ⟨s, D, d⟩ log) (h : Turn s D D') :
    Accounts given left ⟨s, D', d⟩ log := by
  have ht := h.traffic ha.slots
  have hm := ha.marks
  have hledger : Ledger given left ⟨s, D', d⟩ ([] ++ log) := by
    refine ha.ledger.still ha.slots ht rfl (fun _ => rfl) rfl (fun id => h.clear) (fun id hid => ?_)
      h.reapings fun id => not_ended (by simp)
    cases h with
    | heeded b hd => exact .inl (by simpa using hid)
    | muted b => simp at hid
    | excused hmark =>
      rcases List.mem_cons.1 hid with he | hid
      · cases he
        exact .inr (hm.gone_of_raised hmark)
      · exact .inl hid
    | _ => exact .inl (by simpa using hid)
  refine ⟨ht.slots, hledger, ?_⟩
  cases h with
  | judged b =>
    exact hm.replace (A := []) (B := [.verdict b]) rfl rfl (by simp) (by simp)
      ⟨poised_of_ne (by simp), poised_below hm.stack _⟩
  | hark =>
    exact hm.replace (A := []) (B := [.hear]) rfl rfl (by simp) (by simp)
      ⟨poised_of_ne (by simp), poised_below hm.stack _⟩
  | @heeded D e b he =>
    have hne : ∀ id cb, e ≠ .restore id cb := by
      rintro id cb rfl
      cases he
    exact hm.replace (A := [.verdict b]) (B := []) (D := e :: D) rfl rfl (by simp) (by simp)
      ⟨poised_of_ne hne, hm.stack.2.2⟩
  | heard =>
    exact hm.replace (A := [.hear]) (B := []) rfl rfl (by simp) (by simp)
      (poised_under hm.stack.2 (by simp) (by simp) (by simp) none)
  | muted b => exact hm.replace (A := [.verdict b]) (B := []) (D := []) rfl rfl (by simp) (by simp) trivial
  | next x st rest =>
    exact hm.replace (A := [.reap x (st :: rest)]) (B := [.drain x.h st x.g, .reap x rest]) rfl rfl (by simp)
      (by simp) ⟨poised_of_ne (by simp), poised_of_ne (by simp),
        poised_under hm.stack.2 (by simp) (by simp) (by simp) _⟩
  | shed x rest hstale =>
    exact hm.replace (A := [.reap x rest]) (B := []) rfl rfl (by simp) (by simp)
      (poised_under hm.stack.2 (by simp) (by simp) (by simp) none)
  | @passed D h st g hgone =>
    refine hm.replace (A := [.drain h st g]) (B := [.verdict false]) rfl rfl (by simp) (by simp)
      ⟨poised_of_ne (by simp), poised_drained hm.stack.2 false fun id hid => .inl ?_⟩
    cases hw : s.loop.look id with
    | none => rfl
    | some w =>
      -- the watch would be on an open pipe of that generation
      obtain ⟨r, hb⟩ := books_of_look ha.slots hw
      obtain ⟨rfl, -⟩ := books_of_lent ha.slots (mem_lentOut.2 (List.mem_cons_of_mem _ hid)) hb
      obtain ⟨hg, p, hp, -⟩ := ha.ledger.owned id _ _ hb
      rcases hgone with hne | hnone
      · exact absurd hg.symm hne
      · cases hnone.symm.trans hp
  | excused hmark =>
    exact hm.replace (A := [.clear _]) (B := []) rfl rfl (by simp) (by simp)
      (poised_under hm.stack.2 (by simp) (by simp) (by simp) none)
  | begun =>
    exact hm.replace (A := [.commence]) (B := []) rfl rfl (by simp) (by simp)
      (poised_under hm.stack.2 (by simp) (by simp) (by simp) none)

/-! ## What happens to one watch -/

theorem clear_not_mem (cb : Callback) (i id : Nat) (payload : Loop.Payload) :
    Duty.clear i ∉ cb.duties id payload := by
  cases cb <;> cases payload <;> simp [Callback.duties]

theorem ring_mem {i : Nat} {payload : Loop.Payload} (h : Duty.ring i ∈ cb.duties id payload) :
    cb = .raise ∧ i = id := by
  cases cb with
  | raise => exact ⟨rfl, by simpa [Callback.duties] using h⟩
  | reap h' g => cases payload <;> simp [Callback.duties] at h
  | _ => simp [Callback.duties] at h

theorem reap_mem {x : Reaping} {payload : Loop.Payload} (h : x ∈ (cb.duties id payload).flatMap Duty.reapings) :
    cb = .reap x.h x.g ∧ payload = .child x.pid x.status := by
  cases cb with
  | reap h' g =>
    cases payload with
    | child pid st =>
      obtain rfl : x = ⟨h', g, pid, st⟩ := List.mem_singleton.1 h
      exact ⟨rfl, rfl⟩
    | _ => cases h
  | _ => cases h

/-- The watch on a pipe is on no child. -/
theorem Ledger.form_of_stream {f : Form} {h g : Nat} {st : Stream} (hl : Ledger given left σ log)
    (hs : σ.Slots) (hb : σ.Books id f (.stream h st g)) : f.isChild = false := by
  obtain ⟨-, p, hp, rfl⟩ := hl.owned id f _ hb
  rw [(eq_of_books hs hb (hl.pipe h st p hp)).1]
  rfl

theorem Accounts.lent (ha : Accounts given left ⟨s, D, d⟩ log) (ht : s.loop.Tidy) (time : Nat)
    {w : Loop.Watch Callback} {payload : Loop.Payload} {l : Loop Callback} (hw : w ∈ s.loop.watches)
    (hcb : w.source.outline.slot = some cb) (hp : ∀ pid st, payload ≠ .child pid st) (hl : Loop.Alike s.loop l)
    (hlook : ∀ id, l.look id = if id = w.id then (s.loop.look id).map Outline.vacate else s.loop.look id) :
    Accounts given left ⟨Machine.record { s with loop := l } (.started time w.id payload),
      cb.duties w.id payload ++ .restore w.id cb.next :: D, d⟩ ([.started time w.id payload] ++ log) := by
  have htraffic := traffic_lent (d := d) ha.slots ht time payload hw hcb hl hlook
  have hkept := ha.marks.traffic ha.slots htraffic fun id hid => .inl hid
  have hlent : lentOut (cb.duties w.id payload ++ .restore w.id cb.next :: D) = (w.id, cb.next) :: lentOut D :=
    lentOut_callback cb w.id payload _
  refine ⟨htraffic.slots, ?_, ?_⟩
  · refine ha.ledger.still ha.slots htraffic hl.lastId (fun _ => rfl) rfl (fun id hid => ?_) (fun id hid => ?_)
      (fun x hx => ?_) fun id => not_ended fun e he => ?_
    · rcases List.mem_append.1 hid with hid | hid
      · exact absurd hid (clear_not_mem cb id w.id payload)
      · simpa using hid
    · exact .inl (List.mem_append_right _ (List.mem_cons_of_mem _ hid))
    · rw [List.flatMap_append] at hx
      rcases List.mem_append.1 hx with hx | hx
      · exact absurd (reap_mem hx).2 (hp _ _)
      · exact hx
    · rw [List.mem_singleton.1 he]
      cases payload with
      | child pid st => exact absurd rfl (hp pid st)
      | _ => rfl
  · constructor
    case raised =>
      intro id hid
      have hid : (id = w.id ∧ cb = .raise) ∨ (id ∈ s.raised ∨ .ring id ∈ D) := by
        rcases hid with hid | hid
        · exact .inr (.inl hid)
        · rcases List.mem_append.1 hid with hid | hid
          · obtain ⟨hcb', hid⟩ := ring_mem hid
            exact .inl ⟨hid, hcb'⟩
          · exact .inr (.inr (by simpa using hid))
      rcases hid with ⟨rfl, rfl⟩ | hid
      · refine ⟨htraffic.slots.lentLe (w.id, .raise) ?_, .inr ?_⟩ <;> rw [hlent] <;> exact List.mem_cons_self
      · obtain ⟨hle, hn⟩ := hkept.raised id hid
        refine ⟨hle, hn.imp_right fun hm => ?_⟩
        rw [hlent]
        exact List.mem_cons_of_mem _ hm
    case order =>
      refine List.pairwise_append.2 ⟨?_, List.pairwise_cons.2 ⟨by simp, hkept.order⟩, ?_⟩
      · refine List.pairwise_of_forall_mem_list fun a hm b _ id cb' he => ?_
        subst he
        exact absurd hm (clear_not_mem cb id w.id payload)
      · rintro a hm b - id cb' rfl
        exact absurd hm (clear_not_mem cb id w.id payload)
    case stack =>
      have hrest : ∀ a, Stacked (Poised _) a D := poised_below hkept.stack
      cases cb with
      | raise =>
        refine ⟨poised_of_ne (by simp), fun id cb' he => ?_, hrest _⟩
        cases he
        exact .inr (.inl ⟨_, rfl⟩)
      | stream h st g =>
        refine ⟨poised_of_ne (by simp), fun id cb' he => ?_, hrest _⟩
        cases he
        exact .inr (.inl rfl)
      | reap h g =>
        cases payload with
        | child pid st => exact absurd rfl (hp pid st)
        | _ =>
          refine ⟨fun id cb' he => ?_, hrest _⟩
          cases he
          exact .inr trivial
      | script x =>
        refine ⟨fun id cb' he => ?_, hrest _⟩
        cases he
        exact .inr trivial
      | detached =>
        refine ⟨fun id cb' he => ?_, hrest _⟩
        cases he
        exact .inr trivial

theorem Accounts.taken (ha : Accounts given left ⟨s, D, d⟩ log) (time : Nat)
    {w : Loop.Watch Callback} {pid : Int} {fd : Bool} {st : ExitStatus} (hw : s.loop.find? w.id = some w)
    (hsrc : w.source = .child pid fd (some st) cb) :
    Accounts given left ⟨Machine.record { s with loop := s.loop.erase w.id } (.started time w.id (.child pid st)),
      cb.duties w.id (.child pid st) ++ D, d⟩ ([.started time w.id (.child pid st)] ++ log) := by
  have hlook := Loop.look_erase s.loop w.id
  have hwlook : s.loop.look w.id = some ⟨.child pid, some cb⟩ := by
    rw [Loop.look, hw, Option.map_some, hsrc]
    rfl
  have hrole : ∀ f r, Stage.Books ⟨s, D, d⟩ w.id f r → f = .child pid ∧ r = cb.role := fun f r hb =>
    eq_of_slot ha.slots hwlook hb
  have hlent := lentOut_callback cb w.id (.child pid st) D
  have htraffic : Traffic ⟨s, D, d⟩ ⟨Machine.record { s with loop := s.loop.erase w.id }
      (.started time w.id (.child pid st)), cb.duties w.id (.child pid st) ++ D, d⟩ fun id => id = w.id := by
    refine traffic_erased ha.slots rfl (fun id hid => (hlook id).trans (if_pos hid))
      (fun id hid => (hlook id).trans (if_neg hid)) (by rw [hlent]) fun x hx => .inr (by rwa [hlent])
  have hgone : (s.loop.erase w.id).look w.id = none := htraffic.lost w.id rfl
  have hle : w.id ≤ s.loop.lastId := ha.slots.le w.id _ hwlook
  have hkept := ha.marks.traffic ha.slots htraffic fun id hid => .inl hid
  refine ⟨htraffic.slots, ?_, ?_⟩
  · refine ha.ledger.forget ha.slots htraffic rfl (fun _ => rfl) rfl (fun f h str g hb => ?_) (fun id hid => ?_)
      (fun id hid => .inl (List.mem_append_right _ hid)) (fun y hy => ?_) (fun id hend => ?_)
      (fun f hb => ⟨_, List.mem_singleton_self _, beq_self_eq_true _⟩)
      fun f hb => ⟨_, List.mem_singleton_self _, beq_self_eq_true _⟩
    · have hchild := ha.ledger.form_of_stream ha.slots hb
      rw [(hrole f _ hb).1] at hchild
      cases hchild
    · rcases List.mem_append.1 hid with hid | hid
      · exact absurd hid (clear_not_mem cb id w.id _)
      · exact hid
    · rw [List.flatMap_append] at hy
      rcases List.mem_append.1 hy with hy | hy
      · -- the exit goes to the handle that awaits it under this number
        obtain ⟨hcb, -⟩ := reap_mem hy
        have hb : Stage.Books ⟨s, D, d⟩ w.id (.child pid) cb.role := books_of_slot hwlook
        rw [hcb] at hb
        obtain ⟨hg, hcw, -⟩ := ha.ledger.owned _ _ _ hb
        exact .inr ⟨hg, hcw⟩
      · exact .inl hy
    · obtain ⟨e, he, hends⟩ := hend
      rw [List.mem_singleton.1 he] at hends
      exact ⟨(beq_iff_eq.1 hends).symm, hle⟩
  · refine hkept.replace (A := []) rfl ?_ (fun id hid => ?_)
      (fun id hid => absurd hid (clear_not_mem cb id w.id _)) ?_
    · have hnone := lentOut_callback cb w.id (.child pid st) []
      rwa [List.append_nil] at hnone
    · obtain ⟨-, rfl⟩ := ring_mem hid
      exact .inr ⟨hle, hgone⟩
    · have hrest : ∀ a, Stacked (Poised _) a D := poised_below hkept.stack
      cases cb with
      | script x => exact hrest none
      | detached => exact hrest none
      | _ => exact ⟨poised_of_ne (by simp), hrest _⟩

theorem Accounts.restored (time now : Nat)
    (ha : Accounts given left ⟨s, .verdict true :: .restore id cb :: D, d⟩ log) :
    Accounts given left ⟨Machine.record { s with loop := s.loop.restore id now cb } (.settled time id true), D, d⟩
      ([.settled time id true] ++ log) := by
  have ht := traffic_restored time now ha.slots
  refine ⟨ht.slots, ?_, ?_⟩
  · refine ha.ledger.still ha.slots ht rfl (fun _ => rfl) rfl (fun i hi => ?_) (fun i hi => .inl ?_)
      (fun x hx => hx) fun i => not_ended (by simp [Entry.ends])
    · exact List.mem_cons_of_mem _ (List.mem_cons_of_mem _ hi)
    · simpa using hi
  · exact ha.marks.returned ha.slots (Nat.le_refl _) (fun i hle hn => ht.none hle hn) rfl (.inr rfl)

theorem Accounts.ended (time : Nat)
    (ha : Accounts given left ⟨s, .verdict false :: .restore id cb :: D, d⟩ log) :
    Accounts given left ⟨Machine.record { s with loop := s.loop.erase id } (.settled time id false), D, d⟩
      ([.settled time id false] ++ log) := by
  have hlook := Loop.look_erase s.loop id
  have hmine : (id, cb) ∈ lentOut (.verdict false :: .restore id cb :: D) := List.mem_cons_self
  have ht : Traffic ⟨s, .verdict false :: .restore id cb :: D, d⟩
      ⟨Machine.record { s with loop := s.loop.erase id } (.settled time id false), D, d⟩ fun i => i = id := by
    refine traffic_erased ha.slots rfl (fun i hi => (hlook i).trans (if_pos hi))
      (fun i hi => (hlook i).trans (if_neg hi)) (List.sublist_cons_self _ _) fun x hx => ?_
    rcases List.mem_cons.1 hx with rfl | hx
    · exact .inl rfl
    · exact .inr hx
  refine ⟨ht.slots, ?_, ?_⟩
  · refine ha.ledger.forget ha.slots ht rfl (fun _ => rfl) rfl (fun f h st g hb => ?_)
      (fun i hi => List.mem_cons_of_mem _ (List.mem_cons_of_mem _ hi)) (fun i hi => .inl (by simpa using hi))
      (fun y hy => .inl hy) (fun i hend => ?_) (fun f hb => ⟨_, List.mem_singleton_self _, by simp [Entry.ends]⟩)
      fun f hb => ?_
    · -- a stream whose drain returns false has lost its watch
      have hrole := (books_of_lent ha.slots hmine hb).1
      rcases ha.marks.stack.2.1 id cb rfl with hnone | hbelow
      · exact not_books hnone hb
      · cases cb with
        | stream h' st' g' => simp [Callback.Below] at hbelow
        | _ => cases hrole
    · obtain ⟨e, he, hends⟩ := hend
      rw [List.mem_singleton.1 he] at hends
      have hid : id = i := by simpa [Entry.ends] using hends
      exact ⟨hid.symm, ha.slots.lentLe _ hmine⟩
    · obtain ⟨h, p, -, rfl, -⟩ := ha.ledger.owned id f _ hb
      cases (books_of_lent ha.slots hmine hb).2
  · exact ha.marks.returned ha.slots (Nat.le_refl _) (fun i hle hn => ht.none hle hn) rfl
      (.inl ((hlook id).trans (if_pos rfl)))

theorem Accounts.rung (ha : Accounts given left ⟨s, .ring id :: D, d⟩ log) :
    Accounts given left ⟨{ s with raised := id :: s.raised }, .verdict false :: D, d⟩ ([] ++ log) := by
  have ht : Traffic ⟨s, .ring id :: D, d⟩ ⟨{ s with raised := id :: s.raised }, .verdict false :: D, d⟩
      fun _ => False :=
    traffic_erased ha.slots rfl (fun _ h => h.elim) (fun _ _ => rfl) (.refl _) fun _ hx => .inr hx
  refine ⟨ht.slots, ?_, ?_⟩
  · refine ha.ledger.still ha.slots ht rfl (fun _ => rfl) rfl (fun i hi => ?_) (fun i hi => .inl ?_)
      (fun x hx => hx) fun i => not_ended (by simp)
    · simpa using hi
    · simpa using hi
  · have hkept : Marks ⟨{ s with raised := id :: s.raised }, .ring id :: D, d⟩ := by
      refine ha.marks.traffic ha.slots ht fun i hi => ?_
      rcases List.mem_cons.1 hi with rfl | hi
      · exact .inr List.mem_cons_self
      · exact .inl hi
    refine hkept.replace (A := [.ring id]) (B := [.verdict false]) rfl rfl (by simp) (by simp)
      ⟨poised_of_ne (by simp), repoised hkept.stack.2 fun cb hb => ?_⟩
    cases cb with
    | stream h st g => simp [Callback.Below] at hb
    | raise => exact .inr rfl
    | _ => trivial

theorem Accounts.engaged (ha : Accounts given left ⟨s, D, d⟩ log) (hf : Footing ⟨s, D, d⟩ log)
    (priority : Loop.Priority) {src : Loop.Source Callback} (hcb : src.outline.slot = some .raise) :
    Accounts given left ⟨(s.addWatch priority src).2, .clear (s.loop.lastId + 1) :: D, d⟩
      ([.added s.kernel.now (s.loop.lastId + 1)] ++ log) := by
  have ht : Traffic ⟨s, D, d⟩ ⟨(s.addWatch priority src).2, .clear (s.loop.lastId + 1) :: D, d⟩
    fun _ => False :=
    traffic_added ha.slots hf.tidy (by rw [hcb]; rfl) rfl rfl
  have hlook : (s.addWatch priority src).2.loop.look (s.loop.lastId + 1) =
    some ⟨src.outline.form, some .raise⟩ := by
    refine (Loop.look_insert hf.tidy priority src _).trans ((if_pos rfl).trans ?_)
    rw [← hcb]
  refine ⟨ht.slots, ?_, ?_⟩
  · refine ha.ledger.grow (i := 0) ha.slots hf.claimed ht rfl hlook (.inr (.inl rfl)) (fun _ => rfl)
      (fun i hi => .inl hi) (fun i => ?_) rfl (fun i => not_ended ?_) (fun i => ?_) fun i j p => ?_
    · refine List.mem_cons.trans (or_comm.trans (or_congr_right ?_))
      simp [Callback.role]
    · exact fun e he => by rw [List.mem_singleton.1 he]; rfl
    · simp [Callback.role]
    · simp [Callback.role]
  · have hkept := ha.marks.traffic ha.slots ht fun i hi => .inl hi
    refine hkept.replace (A := []) (B := [.clear (s.loop.lastId + 1)]) rfl rfl (by simp) (fun i hi => .inr ?_)
      ⟨poised_of_ne (by simp), poised_below hkept.stack _⟩
    obtain rfl : i = s.loop.lastId + 1 := by simpa using hi
    intro cb hm
    have hle := ha.slots.lentLe _ (mem_lentOut.2 hm)
    dsimp only at hle
    omega

/-- A watch is removed that is the user's or a call's. -/
theorem Accounts.removed (ha : Accounts given left ⟨s, A ++ D, d⟩ log)
    (hA : ∀ x ∈ A, x = .clear id)
    (hrole : ∀ f r, Stage.Books ⟨s, A ++ D, d⟩ id f r → r = .user ∨ r = .call) :
    Accounts given left ⟨s.removeWatch id, D, d⟩ ([.removed id (s.loop.contains id)] ++ log) := by
  have hlook := Loop.look_erase s.loop id
  have hnone : lentOut A = [] := by
    refine List.filterMap_eq_nil_iff.2 fun x hx => ?_
    rw [hA x hx]
    rfl
  have hlent : lentOut (A ++ D) = lentOut D := by
    rw [lentOut_append, hnone]
    rfl
  have ht : Traffic ⟨s, A ++ D, d⟩ ⟨s.removeWatch id, D, d⟩ fun i => i = id :=
    traffic_erased ha.slots rfl (fun i hi => (hlook i).trans (if_pos hi))
      (fun i hi => (hlook i).trans (if_neg hi)) (by rw [hlent]) fun x hx => .inr (by rwa [hlent] at hx)
  refine ⟨ht.slots, ?_, ?_⟩
  · refine ha.ledger.forget ha.slots ht rfl (fun _ => rfl) rfl (fun f h st g hb => ?_)
      (fun i hi => List.mem_append_right _ hi) (fun i hi => ?_) (fun y hy => .inl ?_) (fun i hend => ?_)
      (fun f hb => ⟨_, List.mem_singleton_self _, ?_⟩) fun f hb => ?_
    · rcases hrole f _ hb with hr | hr <;> cases hr
    · rcases List.mem_append.1 hi with hi | hi
      · have he := hA _ hi
        injection he with he
        exact .inr he
      · exact .inl hi
    · rw [List.flatMap_append]
      exact List.mem_append_right _ hy
    · obtain ⟨e, he, hends⟩ := hend
      rw [List.mem_singleton.1 he] at hends
      obtain ⟨rfl, hfound⟩ : id = i ∧ s.loop.contains id = true := by simpa [Entry.ends] using hends
      rw [Loop.contains_eq_look] at hfound
      obtain ⟨w, hw⟩ := Option.isSome_iff_exists.1 hfound
      exact ⟨rfl, ha.slots.le id w hw⟩
    · obtain ⟨w, hw, -⟩ := look_of_books hb
      have hfound : s.loop.contains id = true := by
        rw [Loop.contains_eq_look]
        exact Option.isSome_iff_exists.2 ⟨w, hw⟩
      simp [Entry.ends, hfound]
    · rcases hrole f _ hb with hr | hr <;> cases hr
  · have hkept := ha.marks.traffic ha.slots ht fun i hi => .inl hi
    refine hkept.replace (B := []) hnone rfl (by simp) (by simp) ?_
    show Stacked (Poised _) none D
    have hstack : Stacked (Poised (s.removeWatch id)) none (A ++ D) := hkept.stack
    clear ha hlook hnone hlent ht hkept hrole
    induction A with
    | nil => exact hstack
    | cons x A ih =>
      refine ih (fun y hy => hA y (List.mem_cons_of_mem _ hy)) ?_
      have hx := hA x List.mem_cons_self
      subst hx
      exact poised_under hstack.2 (by simp) (by simp) (by simp) none

/-- The accounts are kept by whatever happens to one watch. -/
theorem Accounts.stir (ha : Accounts given left ⟨s, D, d⟩ log) (hf : Footing ⟨s, D, d⟩ log)
    (h : Stir o s D t D') (hj : t.journal = es ++ s.journal) (ho : o.registers = false) :
    Accounts given left ⟨t, D', d⟩ (es ++ log) := by
  have hes : ∀ more, t.journal = more ++ s.journal → more = es := fun _ he =>
    List.append_cancel_right (he.symm.trans hj)
  cases h with
  | lent time w cb payload l hw hn hcb hp hl hlook =>
    obtain rfl := hes [_] rfl
    exact ha.lent hf.tidy time hw hcb hp hl hlook
  | taken time w pid fd st cb hw hs =>
    obtain rfl := hes [_] rfl
    exact ha.taken time hw hs
  | restored time now id cb =>
    obtain rfl := hes [_] rfl
    exact ha.restored time now
  | ended time id cb =>
    obtain rfl := hes [_] rfl
    exact ha.ended time
  | rung id =>
    obtain rfl := hes [] rfl
    exact ha.rung
  | engaged priority src hsrc hcb =>
    obtain rfl := hes [_] rfl
    exact ha.engaged hf priority hcb
  | cleared id =>
    obtain rfl := hes [_] rfl
    exact ha.removed (A := [.clear id]) (by simp)
      fun f r hb => .inr (ha.ledger.clear id List.mem_cons_self f r hb)
  | registered name priority src x hsrc hcb ho' hs => cases ho.symm.trans ho'
  | watched name pid priority x ho' hs =>
    rw [registers, ho'] at ho
    cases ho
  | dismissed id hid =>
    obtain rfl := hes [_] rfl
    exact ha.removed (A := []) (by simp) fun f r hb => .inl (ha.ledger.tag id hid f r hb)

end Machine

end Overseer
