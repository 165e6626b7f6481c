import Overseer.Proofs.Passes
import Overseer.Proofs.Removal

/-!
# Where the callbacks are

A callback is taken out of its watch for the time of one call.  It comes back when the call returns, unless
the watch has gone, so a registered watch without a callback is one whose callback is running.

    underWay id s  =  a callback of the watch id is under way, at any depth
    outermost s    =  no callback is under way
    Unstopped x y  =  y is reached from x by moves of a call that had not returned, and nobody has asked
                      the loop to stop

    slot w = none       ↔  underWay w
    a pass stalls       ↔  every watch is under way
    an outermost run    →  returns over an empty registry only

Main statement: `vacancy_run`.
-/

namespace Overseer.Machine

open Supervisor

def UnderWay (s : Machine) (id : Nat) : Prop := ∃ cb, .settle id cb ∈ s.stack

def Outermost (s : Machine) : Prop := ∀ id, ¬ s.UnderWay id

def Unstopped (x y : Machine × List Entry) : Prop := Until x.1.stack.length (fun u v => ¬ Quits u v) x y

/-- A loop that runs above the frames `K` and is not asked to stop is about to make a pass, waits for one, or has
returned because there is nothing left to wait for. -/
inductive Going (K : List Frame) (s : Machine) : Prop
  | called (hc : s.control = .perform .run) (hst : s.stack = K)
  | goesOn (hc : s.control = .keepRunning) (hst : s.stack = K) (hq : s.loop.quit = false)
  | waits (hst : .running :: K <:+ s.stack) (hq : s.loop.quit = false)
  | back (hc : s.control = .value (.answer .nothing)) (hst : s.stack = K) (hw : s.loop.watches = [])

/-- No callback is lost, and none is called while it is running. -/
structure Vacancy (s : Machine) (log : List Entry) : Prop where
  empty : ∀ w ∈ s.loop.watches, w.source.outline.slot = none ↔ s.UnderWay w.id
  alone : ∀ id, s.Starts id → ¬ s.UnderWay id ∧ ¬ Reported id log
  full : s.Outermost → ∀ w ∈ s.loop.watches, w.source.outline.slot.isSome = true
  stalls : s.control = .pass true →
    (s.step.control = .value (.passed .stalled) ↔ ∀ w ∈ s.loop.watches, s.UnderWay w.id)
  starves : s.Outermost → s.control = .pass true →
    (s.step.control = .value (.passed .stalled) ↔ s.loop.watches = [])
  returns : s.Outermost → s.control = .perform .run → ∀ y, Unstopped (s, log) y →
    returned s.stack.length y.1 = true →
    y.1.control = .value (.answer .nothing) ∧ y.1.stack = s.stack ∧ y.1.loop.watches = []

variable {s t : Machine} {G : Machine → Prop} {log log' : List Entry} {id : Nat} {K : List Frame}

/-! ## Callbacks under way -/

theorem underWay_iff : s.UnderWay id ↔ ∃ cb, (id, cb) ∈ lentOut s.stage.duties := by
  have hcontrol : ∀ cb, .restore id cb ∉ s.control.duties := by
    intro cb hm
    have hnone : lentOut s.control.duties = [] := by
      cases s.control with
      | value v => cases v <;> rfl
      | invoke i c payload =>
        have hlent := lentOut_callback c i payload []
        rwa [List.append_nil] at hlent
      | _ => rfl
    have hlent := mem_lentOut.2 hm
    rw [hnone] at hlent
    cases hlent
  have hbelow : ∀ cb, .restore id cb ∈ s.below ↔ .settle id cb ∈ s.stack := by
    intro cb
    constructor
    · intro hm
      obtain ⟨f, hf, hd⟩ := List.mem_flatMap.1 hm
      cases f <;> simp [Frame.duties] at hd
      obtain ⟨rfl, rfl⟩ := hd
      exact hf
    · exact fun hm => List.mem_flatMap.2 ⟨_, hm, List.mem_cons_self⟩
  refine exists_congr fun cb => ?_
  rw [mem_lentOut, ← hbelow, stage, List.mem_append, or_iff_right (hcontrol cb)]

theorem slots_run (h : Run G s log) : s.stage.Slots := by
  obtain ⟨past, ht⟩ := trail_of_run h
  exact (accounts_trail ht).slots

theorem empty_iff (h : Run (fun _ => True) s log) {w : Loop.Watch Callback} (hw : w ∈ s.loop.watches) :
    w.source.outline.slot = none ↔ s.UnderWay w.id := by
  have hslots := slots_run h
  have hlook := Loop.look_of_mem (final_run h).tidy hw
  rw [underWay_iff]
  constructor
  · intro hnone
    refine hslots.lent w.id w.source.outline.form ?_
    rw [← hnone]
    exact hlook
  · rintro ⟨cb, hm⟩
    exact hslots.empty _ hm _ hlook

/-- What is started has its callback. -/
theorem slot_of_starts (hs : s.Starts id) :
    ∃ w ∈ s.loop.watches, w.id = id ∧ w.source.outline.slot.isSome = true := by
  obtain ⟨rest, now, ran, job, l, -, hl⟩ := hs
  unfold Loop.take at hl
  split at hl
  · cases hl
  · next w hw =>
    obtain ⟨hmem, hid⟩ := Loop.find?_spec hw
    refine ⟨w, hmem, hid, ?_⟩
    split at hl
    · split at hl
      · next hs => rw [hs]; rfl
      · next hs => rw [hs]; rfl
      · next hs => rw [hs]; rfl
      · next hs => rw [hs]; rfl
      · cases hl
    · cases hl

theorem alone_of_starts (h : Run (fun _ => True) s log) (hs : s.Starts id) :
    ¬ s.UnderWay id ∧ ¬ Reported id log := by
  obtain ⟨w, hw, rfl, hsome⟩ := slot_of_starts hs
  refine ⟨fun hu => ?_, fun hr => ?_⟩
  · rw [(empty_iff h hw).2 hu] at hsome
    cases hsome
  · obtain ⟨past, ht⟩ := trail_of_run h
    have hgone := contains_of_ended ht hr.ended
    rw [starts_contains hs] at hgone
    cases hgone

/-- Outside of all callbacks only an empty registry is starved. -/
theorem starved_iff_nil (h : Run (fun _ => True) s log) (ho : s.Outermost) :
    s.loop.Starved ↔ s.loop.watches = [] := by
  rw [Loop.starved_iff (final_run h).tidy]
  constructor
  · intro hall
    rw [List.eq_nil_iff_forall_not_mem]
    exact fun w hw => ho w.id ((empty_iff h hw).1 (hall w hw))
  · intro hnil
    simp [hnil]

/-! ## A loop that runs -/

theorem going_step (h : Run (fun _ => True) s log) (hK : ∀ id cb, .settle id cb ∉ K) (hg : Going K s)
    (hr : returned K.length s = false) (hq : s.step.loop.quit = false) : Going K s.step := by
  cases hg with
  | called hc hst => exact .goesOn (by rw [step, hc]; rfl) (by rw [step, hc]; exact hst) hq
  | goesOn hc hst hq' =>
    refine .waits ?_ hq
    rw [step_goesOn hc hq', ← hst]
    exact List.suffix_rfl
  | back hc hst hw => simp [returned, hc, hst] at hr
  | waits hst hq' =>
    cases hret : returned (Frame.running :: K).length s with
    | false => exact .waits (suffix_step hst hret) hq
    | true =>
      obtain ⟨⟨v, hv⟩, hL⟩ := value_of_returned hst hret
      cases passing_run h K hst with
      | begins _ hc => simp [hv] at hc
      | choosing ids now ran _ hc => simp [hv] at hc
      | calling ids now hd =>
        exact absurd (length_lt_of_suffix hd) (by simp [hL])
      | ended p _ hc hp =>
        rw [step_value hc hL] at hq ⊢
        cases p with
        | stalled =>
          -- no callback is under way below this loop, so a starved registry is an empty one
          have ho : s.Outermost := by
            rintro id ⟨cb, hm⟩
            rw [hL] at hm
            exact hK id cb (by simpa using hm)
          exact .back rfl rfl ((starved_iff_nil h ho).1 (hp rfl))
        | dispatched => exact .goesOn rfl rfl hq
        | empty => exact .goesOn rfl rfl hq

theorem going_move (h : Run (fun _ => True) s log) (hK : ∀ id cb, .settle id cb ∉ K) (hg : Going K s)
    (hm : Move (fun _ => True) (s, log) (t, log')) (hr : returned K.length s = false) (hn : ¬ Quits s t) :
    Going K t := by
  have hquit := quit_move hm hn
  have hbusy : s.isIdle = true → False := by
    intro hi
    obtain ⟨⟨v, hv⟩, hnil⟩ := control_of_isIdle hi
    cases hg with
    | called hc hst => simp [hv] at hc
    | goesOn hc hst hq => simp [hv] at hc
    | waits hst hq => simp [hnil] at hst
    | back hc hst hw => simp [returned, hc, hst] at hr
  cases hm with
  | step =>
    refine going_step h hK hg hr ?_
    cases hg with
    | called hc hst => rw [step, hc]; rfl
    | goesOn hc hst hq => exact hquit hq
    | waits hst hq => exact hquit hq
    | back hc hst hw => simp [returned, hc, hst] at hr
  | elsewhere k =>
    cases hg with
    | called hc hst => exact .called hc hst
    | goesOn hc hst hq => exact .goesOn hc hst hq
    | waits hst hq => exact .waits hst hq
    | back hc hst hw => exact .back hc hst hw
  | rejoin inner a hs =>
    cases hg with
    | waits hst hq => exact .waits hst (hquit hq)
    | called hc hst => simp [hs] at hc
    | goesOn hc hst hq => simp [hs] at hc
    | back hc hst hw => simp [hs] at hc
  | start op hi => exact (hbusy hi).elim
  | ending hi => exact (hbusy hi).elim

theorem going_unstopped (h : Run (fun _ => True) s log) (ho : s.Outermost) (hc : s.control = .perform .run)
    {y : Machine × List Entry} (hy : Unstopped (s, log) y) : Going s.stack y.1 := by
  have hK : ∀ id cb, .settle id cb ∉ s.stack := fun id cb hm => ho id ⟨cb, hm⟩
  exact (Until.invariant (P := Going s.stack) hy h (.called hc rfl)
    fun _ _ _ _ hr hg hm hret hn => going_move hr hK hg hm hret hn).2

/-- In every state, however deep passes are nested: a registered watch is without its callback exactly while that
is running, so none is called twice at once; outside of all callbacks a pass that may block stalls over an
empty registry only, and a loop that runs until nobody asks it to stop leaves no watch. -/
theorem vacancy_run (hr : Run (fun _ => True) s log) : Vacancy s log := by
  have htidy := (final_run hr).tidy
  have hpass : s.control = .pass true → (s.step.control = .value (.passed .stalled) ↔ s.loop.Starved) := by
    intro hc
    rw [step, hc]
    exact stalls_iff htidy
  constructor
  case empty => exact fun w hw => empty_iff hr hw
  case alone => exact fun id hs => alone_of_starts hr hs
  case full =>
    intro ho w hw
    rw [Option.isSome_iff_ne_none]
    exact fun hnone => ho w.id ((empty_iff hr hw).1 hnone)
  case stalls =>
    intro hc
    rw [hpass hc, Loop.starved_iff htidy]
    exact forall₂_congr fun w hw => empty_iff hr hw
  case starves =>
    intro ho hc
    rw [hpass hc, starved_iff_nil hr ho]
  case returns =>
    intro ho hc y hy hret
    cases going_unstopped hr ho hc hy with
    | called hc' hst => simp [returned, hc'] at hret
    | goesOn hc' hst hq => simp [returned, hc'] at hret
    | back hc' hst hw => exact ⟨hc', hst, hw⟩
    | waits hst hq =>
      unfold returned at hret
      split at hret
      · exact absurd (length_lt_of_suffix hst) (by simp [eq_of_beq hret])
      · cases hret

/-- The loop is about to run, with idle work that makes another pass. -/
def poised : Machine × List Entry :=
  carry (carry (.fresh .standard 10000000 [] (.fresh true), [])
    (.idle 0 (.mk "i" [false] [[.iterate true]])) 1) .run 0

/-- That pass stalls, since the idle work is under way; the loop returns when it has gone. -/
theorem vacancy_of_poised : Run (fun _ => True) poised.1 poised.2 ∧ Vacancy poised.1 poised.2 ∧
    poised.1.Outermost ∧
    (walk 6 poised).1.control = .pass true ∧ (walk 6 poised).1.UnderWay 1 ∧
    (walk 6 poised).1.step.control = .value (.passed .stalled) ∧
    Unstopped poised (walk 16 poised) ∧ (walk 16 poised).1.loop.watches = [] := by
  have hrun : Run (fun _ => True) poised.1 poised.2 :=
    Run.carry (Run.carry (Run.init (.fresh .standard 10000000 [] (.fresh true) true)) rfl fun _ _ => trivial)
      (by decide) fun _ _ => trivial
  have hnested : Run (fun _ => True) (walk 6 poised).1 (walk 6 poised).2 := hrun.walk fun _ _ => trivial
  have hunder : (walk 6 poised).1.UnderWay 1 := ⟨_, List.mem_of_getElem? (i := 2) rfl⟩
  have hout : poised.1.Outermost := by
    rintro id ⟨cb, hm⟩
    cases hm
  have hpath : Unstopped poised (walk 16 poised) := by
    have hret : ∀ m < 16, returned poised.1.stack.length (walk m poised).1 = false := by decide
    have hquiet : ∀ m < 16, (walk m poised).1.news.any Entry.isQuit = false ∧
        (walk m poised).1.step.loop.quit = false := by decide
    exact until_walk hret fun m hm => not_quits (hquiet m hm).1 (hquiet m hm).2
  have hall : ∀ w ∈ (walk 6 poised).1.loop.watches, (walk 6 poised).1.UnderWay w.id := by
    intro w hw
    obtain rfl := List.mem_singleton.1 hw
    exact hunder
  exact ⟨hrun, vacancy_run hrun, hout, rfl, hunder, ((vacancy_run hnested).stalls rfl).2 hall, hpath,
    ((vacancy_run hrun).returns hout rfl _ hpath (by decide)).2.2⟩

end Overseer.Machine
