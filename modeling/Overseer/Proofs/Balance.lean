import Overseer.Proofs.HandleAccounts

/-!
# What is registered between two calls

The registry has a watch for each owner, and no other one:

    the user         each watch that was given to the user and has not ended
    an open pipe     its watch, upon that very pipe
    a running child  the child watch of its handle
    a child left     the detached watch that its handle has left it to, until the child is reported

To know what was given and left, a run is told with the machines that it has stepped from.

Main statement: `balance_of_idle`.
-/

namespace Overseer

open Supervisor
open Kernel (Stream)
open Loop (Form Outline)

namespace Machine

/-- A run to `s` with what has happened; `past` are the machines that it has stepped from, newest first. -/
inductive Trail : List Machine → Machine → List Entry → Prop
  | init {s : Machine} : Initial s → Trail [] s []
  | step {past : List Machine} {s : Machine} {log : List Entry} :
      Trail past s log → Trail (s :: past) s.step (s.news ++ log)
  | pause {past : List Machine} {s t : Machine} {log log' : List Entry} :
      Trail past s log → Move (fun _ => False) (s, log) (t, log') → Trail past t log'

/-- The user was given the watch `id`. -/
def Given (past : List Machine) (id : Nat) : Prop :=
  ∃ m ∈ past, m.registers = true ∧ id = m.loop.lastId + 1

/-- The handle `h` was closed while its child `p` ran, and has left it to the watch `id`. -/
def Left (past : List Machine) (h id : Nat) (p : Int) : Prop :=
  ∃ m ∈ past, Gone m m.step h id p

/-- The step from `m` gives the number `id` to the user, or to a child that it leaves. -/
def Gives (m : Machine) (id : Nat) : Prop :=
  (m.registers = true ∧ id = m.loop.lastId + 1) ∨ ∃ h p, Gone m m.step h id p

/-- Who owns the watch `id` of this outline. -/
inductive Holder (past : List Machine) (s : Machine) (log : List Entry) (id : Nat) :
    Outline Callback → Prop
  | user (f : Form) (x : Script) : Given past id → ¬ Ended id log → Holder past s log id ⟨f, some (.script x)⟩
  | pipe (h : Nat) (st : Stream) (p : Pipe) : (s.handle h).pipe st = some p → p.watch = id →
      Holder past s log id ⟨.io (.output p.pid st) .readable, some (.stream h st (s.handle h).generation)⟩
  | child (h : Nat) (p : Int) : (s.handle h).state = .running → (s.handle h).pid = some p →
      (s.handle h).childWatch = some id →
      Holder past s log id ⟨.child p, some (.reap h (s.handle h).generation)⟩
  | detached (h : Nat) (p : Int) : Left past h id p → ¬ Reported id log →
      Holder past s log id ⟨.child p, some .detached⟩

/-- Each watch has its owner, and each owner its watch. -/
structure Balance (past : List Machine) (s : Machine) (log : List Entry) : Prop where
  once : s.loop.ids.Nodup
  holder : ∀ w ∈ s.loop.watches, Holder past s log w.id w.source.outline
  user : ∀ id, Given past id → ¬ Ended id log → ∃ f x, s.loop.look id = some ⟨f, some (.script x)⟩
  pipe : ∀ h st p, (s.handle h).pipe st = some p → s.loop.look p.watch =
    some ⟨.io (.output p.pid st) .readable, some (.stream h st (s.handle h).generation)⟩
  child : ∀ h, (s.handle h).state = .running → ∃ p id, (s.handle h).pid = some p ∧
    (s.handle h).childWatch = some id ∧
      s.loop.look id = some ⟨.child p, some (.reap h (s.handle h).generation)⟩
  idle : ∀ h, (s.handle h).state ≠ .running → (s.handle h).childWatch = none
  detached : ∀ h id p, Left past h id p → ¬ Reported id log →
    s.loop.look id = some ⟨.child p, some .detached⟩
  apart : ∀ h id p h' p', Left past h id p → Left past h' id p' → h = h' ∧ p = p'
  anew : past.Pairwise fun m n => ∀ id, Gives m id → ¬ Gives n id
  calls : ∀ w ∈ s.loop.watches, w.source.outline.slot ≠ some .raise

variable {o s t : Machine} {past : List Machine} {given given' : Nat → Prop}
  {left : Nat → Nat → Int → Prop} {log log' : List Entry}

/-! ## Trails -/

theorem Trail.run (ht : Trail past s log) : Run (fun _ => True) s log := by
  induction ht with
  | init hi => exact .init hi
  | step _ ih => exact ih.move (.step trivial)
  | pause _ hm ih =>
    cases hm with
    | step h => exact h.elim
    | elsewhere k => exact ih.move (.elsewhere k)
    | rejoin inner a h => exact ih.move (.rejoin inner a h)
    | start op h => exact ih.move (.start op h)
    | ending h => exact ih.move (.ending h)

theorem trail_of_run {G : Machine → Prop} (h : Run G s log) : ∃ past, Trail past s log := by
  refine Run.invariant (P := fun s log => ∃ past, Trail past s log) (fun s hi => ⟨[], .init hi⟩)
    (fun s log t log' ⟨past, ht⟩ hm => ?_) h
  cases hm with
  | step => exact ⟨_, ht.step⟩
  | elsewhere k => exact ⟨_, ht.pause (.elsewhere k)⟩
  | rejoin inner a h => exact ⟨_, ht.pause (.rejoin inner a h)⟩
  | start op h => exact ⟨_, ht.pause (.start op h)⟩
  | ending h => exact ⟨_, ht.pause (.ending h)⟩

theorem not_gone (h id : Nat) (p : Int) (hst : (t.handle h).state = (o.handle h).state) : ¬ Gone o t h id p := by
  rintro ⟨hl, hc, -⟩
  rw [hst, (left?_eq_some.1 hl).1] at hc
  cases hc

theorem left_cons (past : List Machine) (s : Machine) : Left (s :: past) = leaving (Left past) s s.step := by
  funext h id p
  refine propext ⟨?_, ?_⟩
  · rintro ⟨m, hm, hg⟩
    rcases List.mem_cons.1 hm with rfl | hm
    · exact .inr hg
    · exact .inl ⟨m, hm, hg⟩
  · rintro (⟨m, hm, hg⟩ | hg)
    · exact ⟨m, List.mem_cons_of_mem _ hm, hg⟩
    · exact ⟨s, List.mem_cons_self, hg⟩

theorem leaving_of_state (left : Nat → Nat → Int → Prop)
    (hst : ∀ h, (t.handle h).state = (o.handle h).state) : leaving left o t = left := by
  funext h id p
  exact propext (or_iff_left (not_gone h id p (hst h)))

theorem given_cons : Given (s :: past) = fun id => Given past id ∨
    (s.registers = true ∧ id = s.loop.lastId + 1) := by
  funext id
  refine propext ⟨?_, ?_⟩
  · rintro ⟨m, hm, hg⟩
    rcases List.mem_cons.1 hm with rfl | hm
    · exact .inr hg
    · exact .inl ⟨m, hm, hg⟩
  · rintro (⟨m, hm, hg⟩ | hg)
    · exact ⟨m, List.mem_cons_of_mem _ hm, hg⟩
    · exact ⟨s, List.mem_cons_self, hg⟩

/-! ## Watches of the user -/

/-- A watch of the user is put under a tag, and the user is told its number. -/
theorem step_of_registers (hr : s.registers = true) : s.stage = ⟨s, s.below, none⟩ ∧
    ∃ name priority src x, src.outline.slot = some (.script x) ∧
      s.step = bind name (s.addWatch priority src) := by
  unfold registers at hr
  split at hr
  · next priority x hc =>
    refine ⟨by rw [stage, hc]; rfl, x.tag, priority, .idle (some (.script x)), x, rfl, ?_⟩
    rw [step, hc]
    rfl
  · next interval priority x hc =>
    refine ⟨by rw [stage, hc]; rfl, x.tag, priority, .timer interval (s.kernel.now + interval) (some (.script x)),
      x, rfl, ?_⟩
    rw [step, hc]
    rfl
  · next fd interest x hc =>
    refine ⟨by rw [stage, hc]; rfl, x.tag, Loop.Priority.normal,
      .io (.named fd) interest .empty (some (.script x)), x, rfl, ?_⟩
    rw [step, hc]
    rfl
  · next pid priority x hc =>
    refine ⟨by rw [stage, hc]; rfl, x.tag, priority, .child pid (s.kernel.deathFd pid) none (.script x), x, rfl, ?_⟩
    rw [step, hc]
    rfl
  · cases hr

theorem Accounts.registered (ha : Accounts given left s.stage log) (hf : Footing s.stage log)
    (hr : s.registers = true) (hg : ∀ id, given' id ↔ given id ∨ id = s.loop.lastId + 1) :
    (∀ h, s.step.handle h = s.handle h) ∧ Accounts given' left s.step.stage (s.news ++ log) := by
  obtain ⟨hstage, name, priority, src, x, hslot, hstep⟩ := step_of_registers hr
  rw [hstage] at ha hf
  have hnews : s.news = [.added s.kernel.now (s.loop.lastId + 1)] := news_eq (by rw [hstep]; rfl)
  rw [hnews, hstep]
  refine ⟨fun _ => rfl, ?_⟩
  have hslots := ha.slots
  have ht : Traffic ⟨s, s.below, none⟩ (bind name (s.addWatch priority src)).stage fun _ => False :=
    traffic_added hslots hf.tidy (by rw [hslot]; rfl) rfl rfl
  have hlook : (bind name (s.addWatch priority src)).stage.machine.loop.look (s.loop.lastId + 1) =
      some ⟨src.outline.form, some (.script x)⟩ := by
    refine (Loop.look_insert hf.tidy priority src _).trans ((if_pos rfl).trans ?_)
    rw [← hslot]
  refine ⟨ht.slots, ?_, ha.marks.traffic hslots ht fun id hid => .inl hid⟩
  refine ha.ledger.grow (i := 0) hslots hf.claimed ht rfl hlook (.inl rfl) (fun _ => rfl) (fun id hid => ?_)
    (fun id => ?_) rfl (fun id => not_ended fun e he => ?_) (fun id => ?_) fun h id p => ?_
  · exact (mem_upsert hid).symm.imp_right fun he => ⟨he, rfl⟩
  · exact (or_iff_left fun h => by cases h.2).symm
  · rw [List.mem_singleton.1 he]
    rfl
  · rw [hg]
    exact or_congr_right (and_iff_left rfl).symm
  · exact (or_iff_left fun h => by cases h.2.2.2).symm

/-! ## Accounts of a run -/

/-- Nothing is in the books of a machine that has just been set up. -/
theorem accounts_fresh {σ : Stage} (hw : σ.machine.loop.watches = []) (hraised : σ.machine.raised = [])
    (hf : ∀ h, (σ.machine.handle h).life = Handle.fresh.life)
    (hd : σ.duties = [] ∨ σ.duties = [.commence]) (hgiven : ∀ id, ¬ given id)
    (hleft : ∀ h id p, ¬ left h id p) : Accounts given left σ [] := by
  have hnone : ∀ id, σ.machine.loop.look id = none := fun id => by
    rw [Loop.look, Loop.find?, hw]
    rfl
  have hpipe : ∀ h st, (σ.machine.handle h).pipe st = none := by
    intro h st
    cases st with
    | out => exact congrArg Life.out (hf h)
    | err => exact congrArg Life.err (hf h)
  have hlent : lentOut σ.duties = [] := by
    rcases hd with hd | hd <;> rw [hd] <;> rfl
  have hreap : σ.duties.flatMap Duty.reapings = [] := by
    rcases hd with hd | hd <;> rw [hd] <;> rfl
  have hother : ∀ id, .ring id ∉ σ.duties := by
    rcases hd with hd | hd <;> rw [hd] <;> simp
  have hno : ∀ id f r, ¬ σ.Books id f r := fun id f r => not_books (hnone id)
  have hslots : σ.Slots := by
    refine ⟨fun id f h => ?_, fun x hx => ?_, ?_, fun id w h => ?_, fun x hx => ?_⟩
    · rw [hnone] at h
      cases h
    · rw [hlent] at hx
      cases hx
    · rw [hlent]
      exact List.nodup_nil
    · rw [hnone] at h
      cases h
    · rw [hlent] at hx
      cases hx
  have hledger : Ledger given left σ [] := by
    constructor
    case owned => exact fun id f r hb => absurd hb (hno id f r)
    case user => exact fun id hg => absurd hg (hgiven id)
    case pipe =>
      intro h st p hp
      rw [hpipe] at hp
      cases hp
    case detached => exact fun h id p hl => absurd hl (hleft h id p)
    case tag => exact fun id _ f r hb => absurd hb (hno id f r)
    case clear => exact fun id _ f r hb => absurd hb (hno id f r)
    case child => exact fun h id _ f r hb => absurd hb (hno id f r)
    case reaping =>
      intro x hx
      rw [hreap] at hx
      cases hx
    case vacant => exact fun h _ st => hpipe h st
    case bound =>
      rintro id (hg | ⟨e, he, -⟩ | ⟨h, p, hl⟩)
      · exact absurd hg (hgiven id)
      · cases he
      · exact absurd hl (hleft h id p)
    case apart => exact fun h id p h' p' hl => absurd hl (hleft h id p)
  refine ⟨hslots, hledger, fun id hid => ?_, ?_, ?_⟩
  · rcases hid with hid | hid
    · rw [hraised] at hid
      cases hid
    · exact absurd hid (hother id)
  · rcases hd with hd | hd <;> rw [hd] <;> simp
  · rcases hd with hd | hd <;> rw [hd] <;> simp [Stacked, Poised]

theorem accounts_initial (hi : Initial s) : Accounts (Given []) (Left []) s.stage [] := by
  have hgiven : ∀ id, ¬ Given [] id := by
    rintro id ⟨m, hm, -⟩
    cases hm
  have hleft : ∀ h id p, ¬ Left [] h id p := by
    rintro h id p ⟨m, hm, -⟩
    cases hm
  cases hi with
  | fresh config tick environ kernel logging =>
    exact accounts_fresh rfl rfl (fun _ => rfl) (.inl rfl) hgiven hleft
  | forRun outer spec =>
    refine accounts_fresh rfl rfl (fun h => ?_) (.inr rfl) hgiven hleft
    cases h with
    | zero => rfl
    | succ h => cases h <;> rfl

theorem accounts_step (ha : Accounts (Given past) (Left past) s.stage log) (hf : Footing s.stage log) :
    Accounts (Given (s :: past)) (Left (s :: past)) s.step.stage (s.news ++ log) := by
  cases hr : s.registers with
  | true =>
    have hgiven : ∀ id, Given (s :: past) id ↔ Given past id ∨ id = s.loop.lastId + 1 := fun id => by
      rw [given_cons]
      simp [hr]
    obtain ⟨hhandle, hacc⟩ := ha.registered hf hr hgiven
    rw [left_cons, leaving_of_state _ fun h => by rw [hhandle]]
    exact hacc
  | false =>
    have hgiven : Given (s :: past) = Given past := by
      rw [given_cons]
      simp [hr]
    rw [hgiven, left_cons]
    refine (step_carries (P := fun σ log => Accounts (Given past) (leaving (Left past) s σ.machine) σ log) hf
      ?_ (fun u v D d log es hl he ha => ?_) (fun u D D' d log h ha => ha.turn h)
      fun σ τ log news hf ha h hj => ha.loud hf h hj hr).2
    · show Accounts (Given past) (leaving (Left past) s s) s.stage log
      rw [leaving_of_state _ fun _ => rfl]
      exact ha
    · show Accounts (Given past) (leaving (Left past) s v) _ _
      rw [leaving_of_life hl.life]
      exact ha.level hl he

theorem accounts_trail (ht : Trail past s log) : Accounts (Given past) (Left past) s.stage log := by
  induction ht with
  | init hi => exact accounts_initial hi
  | step ht ih => exact accounts_step ih (footing_run ht.run)
  | pause ht hm ih =>
    rcases pause_cases hm with ⟨h, -⟩ | ⟨hp, rfl⟩
    · exact h.elim
    · exact hp.keeps (P := Accounts _ _) (fun _ _ _ _ _ _ hl he ha => ha.level hl he)
        (fun _ _ _ _ _ h ha => ha.turn h) ih

/-- No number is given twice. -/
theorem anew_trail (ht : Trail past s log) : past.Pairwise fun m n => ∀ id, Gives m id → ¬ Gives n id := by
  induction ht with
  | init => exact .nil
  | @step past s log ht ih =>
    refine List.pairwise_cons.2 ⟨fun n hn id hnew hold => ?_, ih⟩
    have hbound := (accounts_trail ht).ledger.bound id
    have hle : id ≤ s.loop.lastId := by
      rcases hold with hg | ⟨h, p, hg⟩
      · exact hbound (.inl ⟨n, hn, hg⟩)
      · exact hbound (.inr (.inr ⟨h, p, n, hn, hg⟩))
    have heq : id = s.loop.lastId + 1 := by
      rcases hnew with ⟨-, hid⟩ | ⟨h, p, -, -, hid⟩
      · exact hid
      · exact hid
    omega
  | pause _ _ ih => exact ih

/-! ## Between two calls -/

theorem look_of_own {k : Ward} (ht : s.loop.Tidy) (hk : k ∈ s.loop.own) : ∃ w, s.loop.look k.id = some w := by
  obtain ⟨v, hv, hvk⟩ := Loop.mem_wards.1 (Loop.mem_own.1 hk).1
  rw [Loop.ward?_id hvk]
  exact ⟨_, Loop.look_of_mem ht hv⟩

/-- Between two calls no callback is lent out, and no call waits. -/
theorem duties_of_idle (hi : s.isIdle = true) : lentOut s.stage.duties = [] ∧
    s.stage.duties.flatMap Duty.reapings = [] ∧ ∀ id, .clear id ∉ s.stage.duties := by
  obtain ⟨⟨v, hv⟩, hstack⟩ := control_of_isIdle hi
  have hduties : s.stage.duties = (Control.value v).duties := by
    rw [stage, below, hv, hstack]
    exact List.append_nil _
  rw [hduties]
  cases v with
  | again b => exact ⟨rfl, rfl, by simp [Control.duties]⟩
  | _ => exact ⟨rfl, rfl, by simp [Control.duties]⟩

theorem Trail.balance (ht : Trail past s log) (hi : s.isIdle = true) : Balance past s log := by
  obtain ⟨hlent, hreap, hclear⟩ := duties_of_idle hi
  have hf : Footing s.stage log := footing_run ht.run
  have ha := accounts_trail ht
  have hl := ha.ledger
  have full : ∀ id f r, s.stage.Books id f r →
    ∃ cb : Callback, cb.role = r ∧ s.loop.look id = some ⟨f, some cb⟩ := by
    rintro id f r ⟨cb, hr, hlook | ⟨-, hm⟩⟩
    · exact ⟨cb, hr, hlook⟩
    · rw [hlent] at hm
      cases hm
  have pipe : ∀ h st p, (s.handle h).pipe st = some p → s.loop.look p.watch =
      some ⟨.io (.output p.pid st) .readable, some (.stream h st (s.handle h).generation)⟩ := by
    intro h st p hp
    obtain ⟨cb, hr, hlook⟩ := full _ _ _ (hl.pipe h st p hp)
    cases cb <;> cases hr
    exact hlook
  have holder : ∀ w ∈ s.loop.watches, Holder past s log w.id w.source.outline := by
    intro w hw
    have hlook : s.loop.look w.id = some w.source.outline := Loop.look_of_mem hf.tidy hw
    generalize w.source.outline = o at hlook
    obtain ⟨f, slot⟩ := o
    cases slot with
    | none =>
      obtain ⟨cb, hm⟩ := ha.slots.lent _ f hlook
      rw [hlent] at hm
      cases hm
    | some cb =>
      have ho := hl.owned _ f _ (books_of_slot hlook)
      cases cb with
      | script x => exact .user f x ho.1 ho.2
      | raise => exact absurd ho (hclear _)
      | stream h st g =>
        obtain ⟨rfl, p, hp, hid⟩ := ho
        have hmine := pipe h st p hp
        rw [hid, hlook] at hmine
        cases hmine
        exact .pipe h st p hp hid
      | reap h g =>
        obtain ⟨rfl, hcw, p, hpid, rfl⟩ := ho
        exact .child h p (hf.claimed.child h _ hcw).2 hpid hcw
      | detached =>
        obtain ⟨h, p, hleft, rfl, hr⟩ := ho
        exact .detached h p hleft hr
  constructor
  case once => exact hf.tidy.nodup
  case holder => exact holder
  case user =>
    intro id hg hend
    obtain ⟨f, hb⟩ := hl.user id hg hend
    obtain ⟨cb, hr, hlook⟩ := full id f _ hb
    cases cb <;> cases hr
    exact ⟨f, _, hlook⟩
  case pipe => exact pipe
  case child =>
    intro h hrun
    obtain ⟨p, id, hpid, hcw, -, hward⟩ := (hf.custody.handle h).running hrun
    refine ⟨p, id, hpid, hcw, ?_⟩
    obtain ⟨k, hk, rfl⟩ := hward.resolve_right fun ⟨st, hst⟩ => by
      have hst : _ ∈ s.stage.duties.flatMap Duty.reapings := hst
      rw [hreap] at hst
      cases hst
    obtain ⟨w, hw⟩ := look_of_own hf.tidy hk
    obtain ⟨r, hb⟩ := books_of_look ha.slots hw
    obtain rfl := hl.child h k.id hcw _ r hb
    obtain ⟨-, -, q, hq, hform⟩ := hl.owned _ _ _ hb
    obtain rfl : p = q := Option.some.inj (hpid.symm.trans hq)
    obtain ⟨cb, hr, hlook⟩ := full _ _ _ hb
    cases cb <;> cases hr
    rw [hlook, hform]
    rfl
  case idle =>
    intro h hrun
    cases hcw : (s.handle h).childWatch with
    | none => rfl
    | some id => exact absurd (hf.claimed.child h id hcw).2 hrun
  case detached =>
    intro h id p hleft hr
    obtain ⟨cb, hr, hlook⟩ := full _ _ _ (hl.detached h id p hleft hr)
    cases cb <;> cases hr
    exact hlook
  case apart => exact hl.apart
  case anew => exact anew_trail ht
  case calls =>
    intro w hw hslot
    have hw := holder w hw
    generalize w.source.outline = o at hw hslot
    cases hw <;> cases hslot

/-- Whichever run leads to a machine between two calls, each watch has its owner, and each owner its watch. -/
theorem balance_of_idle (hr : Run (fun _ => True) s log) (hi : s.isIdle = true) :
    (∃ past, Trail past s log) ∧ ∀ past, Trail past s log → Balance past s log :=
  ⟨trail_of_run hr, fun _ ht => ht.balance hi⟩

/-- Carry out an operation that takes one step. -/
def tread (x : List Machine × Machine × List Entry) (op : Op) : List Machine × Machine × List Entry :=
  (x.2.1.start op :: x.1, (x.2.1.start op).step, (x.2.1.start op).news ++ x.2.2)

theorem Trail.tread {x : List Machine × Machine × List Entry} (ht : Trail x.1 x.2.1 x.2.2)
    (hi : x.2.1.isIdle = true) (op : Op) : Trail (tread x op).1 (tread x op).2.1 (tread x op).2.2 :=
  (ht.pause (.start op hi)).step

/-- The user has a watch, and of two children that run one was closed. -/
def deserted : List Machine × Machine × List Entry :=
  tread (tread (tread (tread ([], .fresh .standard 10000000 [] (.fresh true), [])
    (.idle 0 (.mk "i" [true] []))) (.spawn "a" (.ofArgs ["/bin/true"]) ⟨.standard, []⟩ none))
    (.spawn "b" (.ofArgs ["/bin/true"]) ⟨.standard, []⟩ none)) (.close "a")

theorem balance_of_deserted : Trail deserted.1 deserted.2.1 deserted.2.2 ∧ deserted.2.1.isIdle = true ∧
    Balance deserted.1 deserted.2.1 deserted.2.2 ∧ Given deserted.1 1 ∧ Left deserted.1 0 8 4001 ∧
    deserted.2.1.loop.ids = [1, 5, 6, 7, 8] := by
  have ht : Trail deserted.1 deserted.2.1 deserted.2.2 :=
    ((((Trail.init (.fresh .standard 10000000 [] (.fresh true) true)).tread rfl _).tread (by decide) _).tread
      (by decide) _).tread (by decide) _
  have hi : deserted.2.1.isIdle = true := by decide
  exact ⟨ht, hi, (balance_of_idle ht.run hi).2 _ ht, ⟨_, .tail _ (.tail _ (.tail _ (.head _))), rfl, rfl⟩,
    ⟨_, .head _, rfl, rfl, rfl⟩, rfl⟩

end Machine

end Overseer
