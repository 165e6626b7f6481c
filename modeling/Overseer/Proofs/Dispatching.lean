import Overseer.Proofs.Choosing

/-!
# What a pass runs

A pass takes down the numbers of the most urgent ready watches and goes through them once.  Before each call it
looks again, since the callbacks before it may have done anything, passes of their own included.

    started d past     =  the watches that a pass above d frames has started, in steps from the machines past
    Skipped d past id  =  in such a step the pass has found id removed or not ready, after it had started another

    chosen id  →  id is started once, in its place, or skipped

The first chosen watch is never skipped.

Main statement: `dispatch_law`.
-/

namespace Overseer

open Supervisor

namespace Machine

open Loop (Urgent)

/-- The watch that a pass above `depth` frames starts in the step from `m`. -/
def startOf (depth : Nat) (m : Machine) : Option Nat :=
  match m.control with
  | .dispatch (id :: _) now _ =>
    if m.stack.length = depth ∧ (m.loop.take id now).isSome = true then some id else none
  | _ => none

/-- The last one first. -/
def started (depth : Nat) (past : List Machine) : List Nat := past.filterMap (startOf depth)

/-- In the step from `m` the turn of the watch `id` has come, and it is removed or not ready. -/
def PassesOver (depth : Nat) (m : Machine) (id : Nat) : Prop :=
  ∃ rest now ran, m.stack.length = depth ∧ m.control = .dispatch (id :: rest) now ran ∧
    (m.loop.contains id = false ∨ ∃ w, m.loop.find? id = some w ∧ w.source.isReady now = false)

def Skipped (depth : Nat) (past : List Machine) (id : Nat) : Prop :=
  ∃ newer m older, past = newer ++ m :: older ∧ PassesOver depth m id ∧ started depth older ≠ []

/-- The chosen watches `done` have been started or skipped, in this order, the first one not skipped. -/
structure DoneWith (depth : Nat) (done : List Nat) (past : List Machine) : Prop where
  order : (started depth past).reverse.Sublist done
  each : ∀ id ∈ done, id ∈ started depth past ∨ Skipped depth past id
  first : done ≠ [] → started depth past ≠ []

/-- A pass upon `K` that has taken down `ids` is about to call the rest of them, waits for a callback, or is over. -/
inductive Dispatching (K : List Frame) (l : Loop Callback) (ids : List Nat) (now : Nat) (past : List Machine)
    (y : Machine) :
    Prop
  | choosing (done rest : List Nat) (ran : Bool) (hids : ids = done ++ rest) (hd : DoneWith K.length done past)
      (hst : y.stack = K) (hc : y.control = .dispatch rest now ran) (hran : ran = true ↔ started K.length past ≠ [])
      (hl : done = [] → y.loop.watches = l.watches)
  | calling (done rest : List Nat) (hids : ids = done ++ rest) (hd : DoneWith K.length done past)
      (hne : started K.length past ≠ []) (hst : .dispatch rest now :: K <:+ y.stack)
  | ended (p : Pass) (hd : DoneWith K.length ids past) (hst : y.stack = K) (hc : y.control = .value (.passed p))
      (hp : p = .dispatched ↔ started K.length past ≠ [])

variable {s t : Machine} {past : List Machine} {log log' : List Entry} {depth id : Nat} {done rest : List Nat}

/-! ## What is done with the chosen watches -/

theorem started_cons (depth : Nat) (m : Machine) (past : List Machine) :
    started depth (m :: past) = (startOf depth m).toList ++ started depth past := by
  rw [started, List.filterMap_cons]
  cases startOf depth m <;> rfl

theorem started_idle (hm : startOf depth s = none) : started depth (s :: past) = started depth past := by
  rw [started_cons, hm]
  rfl

theorem Skipped.cons (h : Skipped depth past id) (m : Machine) : Skipped depth (m :: past) id := by
  obtain ⟨newer, u, older, rfl, hp, hne⟩ := h
  exact ⟨m :: newer, u, older, rfl, hp, hne⟩

theorem DoneWith.idle (h : DoneWith depth done past) (hm : startOf depth s = none) :
    DoneWith depth done (s :: past) := by
  have hsame : started depth (s :: past) = started depth past := started_idle hm
  exact ⟨by rw [hsame]; exact h.order, fun i hi => by rw [hsame]; exact (h.each i hi).imp id fun hs => hs.cons s,
    by rw [hsame]; exact h.first⟩

theorem DoneWith.start (h : DoneWith depth done past) (hm : startOf depth s = some id) :
    DoneWith depth (done ++ [id]) (s :: past) := by
  have hnew : started depth (s :: past) = id :: started depth past := by rw [started_cons, hm]; rfl
  constructor
  case order =>
    rw [hnew, List.reverse_cons]
    exact h.order.append (List.Sublist.refl [id])
  case each =>
    intro i hi
    rw [hnew]
    rcases List.mem_append.1 hi with hi | hi
    · exact (h.each i hi).imp (List.mem_cons_of_mem id) fun hs => hs.cons s
    · exact .inl (List.mem_singleton.1 hi ▸ List.mem_cons_self)
  case first =>
    intro _
    rw [hnew]
    exact List.cons_ne_nil _ _

theorem DoneWith.skip (h : DoneWith depth done past) (hm : startOf depth s = none) (hp : PassesOver depth s id)
    (hne : done ≠ []) : DoneWith depth (done ++ [id]) (s :: past) := by
  have hstay := h.idle hm
  constructor
  case order => exact hstay.order.trans (List.sublist_append_left done [id])
  case each =>
    intro i hi
    rcases List.mem_append.1 hi with hi | hi
    · exact hstay.each i hi
    · rw [List.mem_singleton.1 hi]
      exact .inr ⟨[], s, past, rfl, hp, h.first hne⟩
  case first => exact fun _ => hstay.first hne

/-! ## One step of a pass -/

variable {K : List Frame} {l : Loop Callback} {ids : List Nat} {now : Nat}

theorem startOf_above (h : depth < s.stack.length) : startOf depth s = none := by
  unfold startOf
  split
  · rw [if_neg (by omega)]
  · rfl

/-- The first chosen watch can be taken, since nothing has been called before it. -/
theorem take_first (ht : l.Tidy) (hw : s.loop.watches = l.watches) (hid : id ∈ l.readyIds now) :
    (s.loop.take id now).isSome = true := by
  obtain ⟨w, ⟨hmem, -⟩, rfl⟩ := (Loop.mem_readyIds_iff l now id).1 hid
  obtain ⟨hmem, hready⟩ := List.mem_filter.1 hmem
  refine Loop.take_of_ready ?_ hready
  rw [Loop.find?, hw]
  exact Loop.find?_of_mem ht hmem

theorem dispatching_choosing {ran : Bool} (ht : l.Tidy) (hids : l.readyIds now = done ++ rest)
    (hd : DoneWith K.length done past) (hst : s.stack = K) (hc : s.control = .dispatch rest now ran)
    (hran : ran = true ↔ started K.length past ≠ []) (hl : done = [] → s.loop.watches = l.watches) :
    Dispatching K l (l.readyIds now) now (s :: past) s.step := by
  have hstep : s.step = s.dispatch rest now ran := by rw [step, hc]
  rw [hstep]
  cases rest with
  | nil =>
    have hnone : startOf K.length s = none := by rw [startOf, hc]
    have hsame : started K.length (s :: past) = started K.length past := started_idle hnone
    rw [List.append_nil] at hids
    refine .ended (if ran then .dispatched else .empty) (hids ▸ hd.idle hnone) hst rfl ?_
    rw [hsame, ← hran]
    cases ran <;> simp
  | cons i rest =>
    have hmore : l.readyIds now = (done ++ [i]) ++ rest := by rw [hids, List.append_assoc]; rfl
    cases htake : s.loop.take i now with
    | none =>
      have hnone : startOf K.length s = none := by simp [startOf, hc, htake]
      have hsame : started K.length (s :: past) = started K.length past := started_idle hnone
      -- nothing has run before the first chosen watch, so that one is never skipped
      have hne : done ≠ [] := by
        intro hnil
        have hsome := take_first ht (hl hnil) (hids ▸ List.mem_append_right done List.mem_cons_self)
        rw [htake] at hsome
        cases hsome
      have hgo : s.dispatch (i :: rest) now ran = s.go (.dispatch rest now ran) := by
        unfold dispatch
        dsimp only
        rw [htake]
      rw [hgo]
      exact .choosing (done ++ [i]) rest ran hmore
        (hd.skip hnone ⟨rest, now, ran, by rw [hst], hc, Loop.take_eq_none htake⟩ hne) hst rfl
        (by rw [hsame]; exact hran)
        (by simp)
    | some r =>
      have hsome : startOf K.length s = some i := by simp [startOf, hc, htake, hst]
      have hne : started K.length (s :: past) ≠ [] := by
        rw [started_cons, hsome]
        exact List.cons_ne_nil _ _
      refine .calling (done ++ [i]) rest hmore (hd.start hsome) hne ?_
      subst hst
      unfold dispatch
      dsimp only
      rw [htake]
      dsimp only
      split
      · exact List.suffix_rfl
      · exact List.suffix_cons _ _

theorem Dispatching.step (ht : l.Tidy) (h : Dispatching K l (l.readyIds now) now past s)
    (hr : returned K.length s = false) : Dispatching K l (l.readyIds now) now (s :: past) s.step := by
  cases h with
  | choosing done rest ran hids hd hst hc hran hl => exact dispatching_choosing ht hids hd hst hc hran hl
  | ended p hd hst hc hp => simp [returned, hc, hst] at hr
  | calling done rest hids hd hne hst =>
    have hnone : startOf K.length s = none := startOf_above (length_lt_of_suffix hst)
    have hsame : started K.length (s :: past) = started K.length past := started_idle hnone
    -- what is above the frame of the pass starts nothing for it, passes of their own included
    cases hret : returned (Frame.dispatch rest now :: K).length s with
    | false => exact .calling done rest hids (hd.idle hnone) (by rw [hsame]; exact hne) (suffix_step hst hret)
    | true =>
      obtain ⟨⟨v, hv⟩, hL⟩ := value_of_returned hst hret
      have hstep : s.step = Machine.go { s with stack := K } (.dispatch rest now true) := step_value hv hL
      rw [hstep]
      refine .choosing done rest true hids (hd.idle hnone) rfl rfl (by simp [hsame, hne]) fun hnil => ?_
      have horder := hd.order
      rw [hnil, List.sublist_nil, List.reverse_eq_nil_iff] at horder
      exact absurd horder hne

theorem Dispatching.pause (h : Dispatching K l ids now past s) (hr : returned K.length s = false)
    (hm : Move (fun _ => False) (s, log) (t, log')) : Dispatching K l ids now past t := by
  have hbusy : s.isIdle = true → False := by
    intro hi
    obtain ⟨⟨v, hv⟩, hnil⟩ := control_of_isIdle hi
    cases h with
    | choosing done rest ran hids hd hst hc => simp [hv] at hc
    | calling done rest hids hd hne hst => simp [hnil] at hst
    | ended p hd hst hc hp => simp [returned, hc, hst] at hr
  cases hm with
  | step hg => exact hg.elim
  | elsewhere k =>
    cases h with
    | choosing done rest ran hids hd hst hc hran hl => exact .choosing done rest ran hids hd hst hc hran hl
    | calling done rest hids hd hne hst => exact .calling done rest hids hd hne hst
    | ended p hd hst hc hp => exact .ended p hd hst hc hp
  | rejoin inner a hs =>
    cases h with
    | calling done rest hids hd hne hst => exact .calling done rest hids hd hne hst
    | choosing done rest ran hids hd hst hc => simp [hs] at hc
    | ended p hd hst hc hp => simp [hs] at hc
  | start op hi => exact (hbusy hi).elim
  | ending hi => exact (hbusy hi).elim

theorem Dispatching.doneWith (h : Dispatching K l ids now past s) :
    ∃ done rest, ids = done ++ rest ∧ DoneWith K.length done past := by
  cases h with
  | choosing done rest ran hids hd => exact ⟨done, rest, hids, hd⟩
  | calling done rest hids hd => exact ⟨done, rest, hids, hd⟩
  | ended p hd => exact ⟨ids, [], (List.append_nil ids).symm, hd⟩

/-- What has been started has been taken down, and in its order. -/
theorem Dispatching.sublist (h : Dispatching K l ids now past s) : (started K.length past).reverse.Sublist ids := by
  obtain ⟨done, rest, rfl, hd⟩ := h.doneWith
  exact hd.order.trans (List.sublist_append_left done rest)

end Machine

end Overseer
