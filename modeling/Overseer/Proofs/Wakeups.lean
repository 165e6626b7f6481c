import Overseer.Proofs.Alarms
import Overseer.Proofs.Choosing
import Overseer.Proofs.Passes

/-!
# What a blocking pass waits for

A pass goes once through the registry.  A watch that has its callback is put into the poll set, or it
limits the sleep; a watch whose callback is away does neither, and cannot become ready either.

    prepare l b now  =  the descriptors to poll, the numbers of their watches, and the limit of the sleep
    Asks src r       =  such a watch is polled with the request r
    Limits src ns    =  such a watch lets the loop sleep for ns nanoseconds at most

    watch                          descriptor          limit
    descriptor, callback there     with its mask
    child not ended, with one      POLLIN
    child not ended, without                           the pace
    child ended                                        0
    timer, callback there                              deadline - now
    idle work, callback there                          0

The poll set, the numbers and the limit are found apart by `requests` and `timeout`; the one walk finds the same
(`prepare_eq`).

Main statement: `wakeups_covered`.
-/

namespace Overseer

open Supervisor
open Kernel (Request)

namespace Loop

/-- Two lists that are filled side by side, and the limit so far. -/
structure Prepared where
  fds : List Request
  targets : List Nat
  timeout : Option Nat
  deriving DecidableEq

namespace Prepared

def ask (p : Prepared) (id : Nat) (r : Request) : Prepared :=
  { p with fds := p.fds ++ [r], targets := p.targets ++ [id] }

def limit (p : Prepared) (ns : Nat) : Prepared := { p with timeout := shorten p.timeout (some ns) }

def wake (p : Prepared) : Prepared := { p with timeout := some 0 }

/-- Nothing to poll, and no end of the sleep. -/
def IsEndless (p : Prepared) : Prop := p.fds = [] ∧ p.timeout = none

/-- What is passed to the kernel as the time to sleep. -/
def milliseconds (p : Prepared) : Option Nat := p.timeout.map timeoutMs

end Prepared

variable {κ : Type} {l : Loop κ} {now : Nat}

/-- One watch of the walk. -/
def Prepared.visit (tick now : Nat) (p : Prepared) (w : Watch κ) : Prepared :=
  match w.source with
  | .io fd interest _ (some _) => p.ask w.id ⟨fd, interest.pollMask⟩
  | .child _ _ (some _) _ => p.wake
  | .idle (some _) => p.wake
  | .child pid true none _ => p.ask w.id ⟨.death pid, Condition.pollIn⟩
  | .child _ false none _ => p.limit tick
  | .timer _ deadline (some _) => p.limit (deadline - now)
  | _ => p

/-- What a pass prepares; one that may not block does not sleep. -/
def prepare (l : Loop κ) (mayBlock : Bool) (now : Nat) : Prepared :=
  l.watches.foldl (Prepared.visit l.tick now) ⟨[], [], if mayBlock then none else some 0⟩

inductive Asks : Source κ → Request → Prop
  | io (fd : Kernel.Fd) (interest fired : Condition) (cb : κ) :
      Asks (.io fd interest fired (some cb)) ⟨fd, interest.pollMask⟩
  | child (pid : Int) (cb : κ) : Asks (.child pid true none cb) ⟨.death pid, Condition.pollIn⟩

inductive Limits (tick now : Nat) : Source κ → Nat → Prop
  | idle (cb : κ) : Limits tick now (.idle (some cb)) 0
  | ended (pid : Int) (hasFd : Bool) (st : ExitStatus) (cb : κ) : Limits tick now (.child pid hasFd (some st) cb) 0
  | paced (pid : Int) (cb : κ) : Limits tick now (.child pid false none cb) tick
  | timer (interval deadline : Nat) (cb : κ) : Limits tick now (.timer interval deadline (some cb)) (deadline - now)

/-- What is prepared for a blocking pass over the registry `l` at the time `now` misses no reason to wake up, and
sleeps no longer than any of them allows. -/
structure Covered (l : Loop κ) (now : Nat) (p : Prepared) : Prop where
  aligned : p.fds.length = p.targets.length
  order : p.targets.Pairwise (· < ·)
  paired : ∀ id r, (id, r) ∈ p.targets.zip p.fds ↔ ∃ w ∈ l.watches, w.id = id ∧ Asks w.source r
  least : ∀ ns, p.timeout = some ns ↔ (∃ w ∈ l.watches, Limits l.tick now w.source ns) ∧
    ∀ w ∈ l.watches, ∀ x, Limits l.tick now w.source x → ns ≤ x
  endless : p.timeout = none ↔ ∀ w ∈ l.watches, ∀ x, ¬ Limits l.tick now w.source x
  rounded : ∀ ns, p.timeout = some ns → ns ≤ 1000000 * maxTimeoutMs →
    ∃ ms, p.milliseconds = some ms ∧ ms ≤ maxTimeoutMs ∧ ns ≤ 1000000 * ms ∧ 1000000 * ms < ns + 1000000
  clamped : ∀ ns, p.timeout = some ns → 1000000 * maxTimeoutMs < ns → p.milliseconds = some maxTimeoutMs
  covered : ∀ w ∈ l.watches, w.source.outline.slot ≠ none →
    w.id ∈ p.targets ∨ ∃ ns x, p.timeout = some ns ∧ Limits l.tick now w.source x ∧ ns ≤ x
  wakes : ∀ w ∈ l.watches, ∀ time, w.source.isReady time = true →
    w.id ∈ p.targets ∨ ∃ ns, p.timeout = some ns ∧ now + ns ≤ max now time

/-! ## One walk -/

theorem shorten_zero (a : Option Nat) : shorten a (some 0) = some 0 := by
  cases a with
  | none => rfl
  | some x => exact congrArg some (Nat.min_zero x)

theorem shorten_none (a : Option Nat) : shorten a none = a := by cases a <;> rfl

/-- A watch adds to the walk what it asks for and what it allows. -/
theorem visit_eq (tick now : Nat) (p : Prepared) (w : Watch κ) : p.visit tick now w =
    ⟨p.fds ++ w.request?.toList.map Prod.snd, p.targets ++ w.request?.toList.map Prod.fst,
      shorten p.timeout (w.limit? tick now)⟩ := by
  unfold Prepared.visit Watch.request? Watch.limit?
  obtain ⟨id, priority, source⟩ := w
  cases source with
  | io fd interest fired slot => cases slot <;> simp [Prepared.ask, shorten_none]
  | child pid hasFd status cb =>
    cases status with
    | some st => cases hasFd <;> simp [Prepared.wake, shorten_zero]
    | none => cases hasFd <;> simp [Prepared.ask, Prepared.limit, shorten_none]
  | timer interval deadline slot => cases slot <;> simp [Prepared.limit, shorten_none]
  | idle slot => cases slot <;> simp [Prepared.wake, shorten_zero, shorten_none]

theorem foldl_visit (tick now : Nat) (ws : List (Watch κ)) (p : Prepared) :
    ws.foldl (Prepared.visit tick now) p =
      ⟨p.fds ++ (ws.filterMap Watch.request?).map Prod.snd, p.targets ++ (ws.filterMap Watch.request?).map Prod.fst,
        (ws.map fun w => w.limit? tick now).foldl shorten p.timeout⟩ := by
  induction ws generalizing p with
  | nil => simp
  | cons w ws ih =>
    rw [List.foldl_cons, ih, visit_eq, List.filterMap_cons]
    cases w.request? <;> simp

/-- The walk finds what the parts of a pass find apart. -/
theorem prepare_eq (l : Loop κ) (mayBlock : Bool) (now : Nat) :
    l.prepare mayBlock now = ⟨l.requests.map Prod.snd, l.requests.map Prod.fst, l.timeout mayBlock now⟩ :=
  foldl_visit l.tick now l.watches _

theorem zip_prepare (l : Loop κ) (mayBlock : Bool) (now : Nat) :
    (l.prepare mayBlock now).targets.zip (l.prepare mayBlock now).fds = l.requests := by
  rw [prepare_eq, List.zip_map', List.map_id']

/-! ## The poll set -/

theorem request?_eq_some (w : Watch κ) (id : Nat) (r : Request) :
    w.request? = some (id, r) ↔ w.id = id ∧ Asks w.source r := by
  constructor
  · intro h
    unfold Watch.request? at h
    split at h
    · next hs =>
      cases h
      exact ⟨rfl, hs ▸ .io _ _ _ _⟩
    · next hs =>
      cases h
      exact ⟨rfl, hs ▸ .child _ _⟩
    · cases h
  · rintro ⟨rfl, ha⟩
    obtain ⟨id, priority, source⟩ := w
    cases ha <;> rfl

theorem mem_requests (l : Loop κ) (id : Nat) (r : Request) :
    (id, r) ∈ l.requests ↔ ∃ w ∈ l.watches, w.id = id ∧ Asks w.source r := by
  simp only [requests, List.mem_filterMap, request?_eq_some]

/-- The poll set is in the order of the registry. -/
theorem requests_sublist (l : Loop κ) : (l.requests.map Prod.fst).Sublist l.ids := by
  have hstep : ∀ ws : List (Watch κ), ((ws.filterMap Watch.request?).map Prod.fst).Sublist (ws.map (·.id)) := by
    intro ws
    induction ws with
    | nil => exact .slnil
    | cons w ws ih =>
      rw [List.filterMap_cons, List.map_cons]
      cases hr : w.request? with
      | none => exact ih.cons _
      | some r =>
        rw [List.map_cons, ((request?_eq_some w r.1 r.2).1 hr).1]
        exact ih.cons_cons _
  exact hstep l.watches

/-! ## The limit -/

theorem limit?_eq_some (w : Watch κ) (tick now ns : Nat) :
    w.limit? tick now = some ns ↔ Limits tick now w.source ns := by
  constructor
  · intro h
    unfold Watch.limit? at h
    split at h
    · next hs => cases h; exact hs ▸ .idle _
    · next hs => cases h; exact hs ▸ .ended _ _ _ _
    · next hs => cases h; exact hs ▸ .paced _ _
    · next hs => cases h; exact hs ▸ .timer _ _ _
    · cases h
  · intro h
    obtain ⟨id, priority, source⟩ := w
    cases h <;> rfl

/-- The limits are folded into the least of them. -/
theorem foldl_shorten_eq_some (xs : List (Option Nat)) (a : Option Nat) (x : Nat) :
    xs.foldl shorten a = some x ↔ some x ∈ a :: xs ∧ ∀ y, some y ∈ a :: xs → x ≤ y := by
  have hmem : ∀ {x}, xs.foldl shorten a = some x → some x ∈ a :: xs := by
    induction xs generalizing a with
    | nil => exact fun h => by simp [← h]
    | cons b xs ih =>
      intro x h
      rcases List.mem_cons.1 (ih (shorten a b) h) with hab | hxs
      · cases a <;> cases b <;> grind [shorten]
      · exact List.mem_cons_of_mem _ (List.mem_cons_of_mem _ hxs)
  have hle : ∀ {x y}, xs.foldl shorten a = some x → some y ∈ a :: xs → x ≤ y := by
    intro x y hx hy
    obtain ⟨least, hleast, hley⟩ := foldl_shorten_le hy
    rw [hx] at hleast
    cases hleast
    exact hley
  constructor
  · exact fun h => ⟨hmem h, fun y hy => hle h hy⟩
  · rintro ⟨hx, hall⟩
    obtain ⟨least, hleast, hlex⟩ := foldl_shorten_le hx
    rw [hleast, Nat.le_antisymm hlex (hall least (hmem hleast))]

theorem mem_limits (l : Loop κ) (now ns : Nat) :
    some ns ∈ none :: l.watches.map (fun w => w.limit? l.tick now) ↔
    ∃ w ∈ l.watches, Limits l.tick now w.source ns := by
  simp only [List.mem_cons, reduceCtorEq, false_or, List.mem_map, limit?_eq_some]

/-- The sleep of a pass that may block is the least of the limits. -/
theorem timeout_eq_some (l : Loop κ) (now ns : Nat) : l.timeout true now = some ns ↔
    (∃ w ∈ l.watches, Limits l.tick now w.source ns) ∧
      ∀ w ∈ l.watches, ∀ x, Limits l.tick now w.source x → ns ≤ x := by
  rw [timeout, if_pos rfl, foldl_shorten_eq_some, mem_limits]
  simp only [mem_limits]
  refine and_congr_right' ⟨fun h w hw x hx => h x ⟨w, hw, hx⟩, ?_⟩
  rintro h x ⟨w, hw, hx⟩
  exact h w hw x hx

theorem timeout_eq_none (l : Loop κ) (now : Nat) :
    l.timeout true now = none ↔ ∀ w ∈ l.watches, ∀ x, ¬ Limits l.tick now w.source x := by
  rw [timeout, if_pos rfl, foldl_shorten_eq_none]
  simp [Option.eq_none_iff_forall_ne_some, limit?_eq_some]

theorem exists_timeout {w : Watch κ} {x : Nat} (hw : w ∈ l.watches) (hx : Limits l.tick now w.source x) :
    ∃ ns, l.timeout true now = some ns ∧ ns ≤ x :=
  timeout_le hw true now ((limit?_eq_some w l.tick now x).2 hx)

/-- A sleep is rounded up to whole milliseconds, as far as the kernel can be asked for them. -/
theorem timeoutMs_spec (ns : Nat) (h : ns ≤ 1000000 * maxTimeoutMs) :
    timeoutMs ns ≤ maxTimeoutMs ∧ ns ≤ 1000000 * timeoutMs ns ∧ 1000000 * timeoutMs ns < ns + 1000000 := by
  unfold timeoutMs
  omega

theorem timeoutMs_eq_max {ns : Nat} (h : 1000000 * maxTimeoutMs < ns) : timeoutMs ns = maxTimeoutMs := by
  unfold timeoutMs
  omega

/-! ## Every watch is covered -/

/-- A watch that has its callback is polled, or it limits the sleep. -/
theorem asks_or_limits {src : Source κ} (h : src.outline.slot ≠ none) (tick now : Nat) :
    (∃ r, Asks src r) ∨ ∃ x, Limits tick now src x := by
  cases src with
  | io fd interest fired slot =>
    cases slot with
    | none => exact absurd rfl h
    | some cb => exact .inl ⟨_, .io fd interest fired cb⟩
  | child pid hasFd status cb =>
    cases status with
    | some st => exact .inr ⟨_, .ended pid hasFd st cb⟩
    | none =>
      cases hasFd with
      | true => exact .inl ⟨_, .child pid cb⟩
      | false => exact .inr ⟨_, .paced pid cb⟩
  | timer interval deadline slot =>
    cases slot with
    | none => exact absurd rfl h
    | some cb => exact .inr ⟨_, .timer interval deadline cb⟩
  | idle slot =>
    cases slot with
    | none => exact absurd rfl h
    | some cb => exact .inr ⟨_, .idle cb⟩

/-- A watch that is ready at some time is polled, or it limits the sleep to that time. -/
theorem asks_or_limits_of_ready {src : Source κ} {time : Nat} (h : src.isReady time = true) (tick now : Nat) :
    (∃ r, Asks src r) ∨ ∃ x, Limits tick now src x ∧ now + x ≤ max now time := by
  unfold Source.isReady at h
  split at h
  · next fd interest fired cb => exact .inl ⟨_, .io fd interest fired cb⟩
  · next pid hasFd status cb =>
    obtain ⟨st, rfl⟩ := Option.isSome_iff_exists.1 h
    exact .inr ⟨0, .ended pid hasFd st cb, Nat.le_max_left _ _⟩
  · next interval deadline cb =>
    have hdue : deadline ≤ time := of_decide_eq_true h
    exact .inr ⟨deadline - now, .timer interval deadline cb, by omega⟩
  · next cb => exact .inr ⟨0, .idle cb, Nat.le_max_left _ _⟩
  · cases h

theorem covered_prepare (ho : l.Ascending) (now : Nat) : l.Covered now (l.prepare true now) := by
  have htargets : ∀ {w r}, w ∈ l.watches → Asks w.source r → w.id ∈ (l.prepare true now).targets := by
    intro w r hw ha
    rw [prepare_eq]
    exact List.mem_map.2 ⟨(w.id, r), (mem_requests l w.id r).2 ⟨w, hw, rfl, ha⟩, rfl⟩
  have htimeout : (l.prepare true now).timeout = l.timeout true now := by rw [prepare_eq]
  constructor
  case aligned => simp [prepare_eq]
  case order =>
    rw [prepare_eq]
    exact ho.ids.sublist (requests_sublist l)
  case paired =>
    rw [zip_prepare]
    exact mem_requests l
  case least =>
    rw [htimeout]
    exact timeout_eq_some l now
  case endless =>
    rw [htimeout]
    exact timeout_eq_none l now
  case rounded =>
    intro ns hns hle
    exact ⟨timeoutMs ns, by rw [Prepared.milliseconds, hns]; rfl, timeoutMs_spec ns hle⟩
  case clamped =>
    intro ns hns hlt
    rw [Prepared.milliseconds, hns, Option.map_some, timeoutMs_eq_max hlt]
  case covered =>
    intro w hw hslot
    rcases asks_or_limits hslot l.tick now with ⟨r, ha⟩ | ⟨x, hx⟩
    · exact .inl (htargets hw ha)
    · obtain ⟨ns, hns, hle⟩ := exists_timeout hw hx
      exact .inr ⟨ns, x, htimeout.trans hns, hx, hle⟩
  case wakes =>
    intro w hw time hready
    rcases asks_or_limits_of_ready hready l.tick now with ⟨r, ha⟩ | ⟨x, hx, hbefore⟩
    · exact .inl (htargets hw ha)
    · obtain ⟨ns, hns, hle⟩ := exists_timeout hw hx
      exact .inr ⟨ns, htimeout.trans hns, by omega⟩

end Loop

/-- The kernel has been asked about descriptors. -/
def Supervisor.Entry.isQuestion : Entry → Bool
  | polled .. => true
  | _ => false

namespace Machine

open Loop (Prepared)

/-- The next step asks the kernel once, with what is prepared; or it stalls, when there is nothing to wait for. -/
structure Waits (s : Machine) (p : Prepared) : Prop where
  stalls : p.IsEndless → s.step.control = .value (.passed .stalled) ∧ s.news.any Entry.isQuestion = false
  asks : ¬ p.IsEndless → ∃ newer answer older,
    s.news = newer ++ .polled (p.targets.zip p.fds) p.milliseconds answer :: older ∧
    newer.any Entry.isQuestion = false ∧ older.any Entry.isQuestion = false ∧
    (s.collect.kernel.poll p.fds p.milliseconds).1 = answer
  wakes : ∀ ms, p.milliseconds = some ms → s.step.kernel.now ≤ s.collect.kernel.now + 1000000 * ms

variable {s : Machine}

theorem questions_no_question (asked : List (Int × Kernel.Wait)) :
    (questions asked).any Entry.isQuestion = false := by
  rw [List.any_eq_false]
  intro e he
  obtain ⟨a, -, rfl⟩ := List.mem_map.1 (List.mem_reverse.1 he)
  simp [Entry.isQuestion]

/-- The first step of a pass that does not stall writes down one question, after those about dead children. -/
theorem pass_question {b : Bool} (hne : ¬ (s.collect.loop.prepare b s.collect.kernel.now).IsEndless) :
    ∃ newer, (s.pass b).journal =
        newer ++ s.question b (s.polls b).1 :: questions (s.loop.asks s.kernel) ++ s.journal ∧
      newer.any Entry.isQuestion = false ∧ (s.pass b).kernel.now = (s.polls b).2.now := by
  have answered : ∀ k revents, (s.recollected b k revents).journal =
      questions ((s.informed b k revents).loop.asks k) ++
        s.question b (.ready revents) :: questions (s.loop.asks s.kernel) ++ s.journal := fun k revents => by
    rw [List.append_assoc]
    exact journal_recollected s b k revents
  cases opening s b with
  | stalled hr ht h =>
    refine absurd ⟨?_, ?_⟩ hne
    · rw [Loop.prepare_eq, hr]
      rfl
    · rw [Loop.prepare_eq, ht]
  | failed k code hk h =>
    rw [h, hk]
    exact ⟨[], rfl, rfl, rfl⟩
  | deadlock k hk h =>
    obtain ⟨es, hes, hquit⟩ := journal_stopFromKernel (s.asking b k .deadlock)
    rw [h, hk]
    refine ⟨es, ?_, ?_, (apart_stopFromKernel _).now⟩
    · rw [List.append_assoc]
      exact hes
    · rw [List.any_eq_false]
      intro e he
      rw [hquit e he]
      simp [Entry.isQuestion]
  | quiet k revents hk hids h =>
    rw [h, hk]
    exact ⟨_, answered k revents, questions_no_question _, now_collect _⟩
  | chosen k revents ids hk hids_ne hids h =>
    rw [h, hk]
    exact ⟨_, answered k revents, questions_no_question _, now_collect _⟩

theorem waits_prepare {b : Bool} (hc : s.control = .pass b) :
    s.Waits (s.collect.loop.prepare b s.collect.kernel.now) := by
  have hstep : s.step = s.pass b := by rw [step, hc]
  have hendless : (s.collect.loop.prepare b s.collect.kernel.now).IsEndless →
      s.step = s.attentive.yield (.passed .stalled) := by
    rintro ⟨hfds, htime⟩
    rw [Loop.prepare_eq] at hfds htime
    rw [hstep, pass_stalled (List.map_eq_nil_iff.1 hfds) htime]
  have hpolls : s.polls b = s.collect.kernel.poll (s.collect.loop.prepare b s.collect.kernel.now).fds
      (s.collect.loop.prepare b s.collect.kernel.now).milliseconds := by
    rw [Loop.prepare_eq]
    rfl
  constructor
  case stalls =>
    intro hend
    have hnews : s.news = questions (s.loop.asks s.kernel) := news_eq (by rw [hendless hend]; rfl)
    exact ⟨by rw [hendless hend, control_yield], by rw [hnews]; exact questions_no_question _⟩
  case asks =>
    intro hne
    obtain ⟨newer, hj, hnewer, -⟩ := pass_question hne
    refine ⟨newer, (s.polls b).1, questions (s.loop.asks s.kernel), news_eq ?_, hnewer, questions_no_question _,
      by rw [hpolls]⟩
    rw [hstep, hj, Loop.zip_prepare, Loop.prepare_eq]
    rfl
  case wakes =>
    intro ms hms
    have hne : ¬ (s.collect.loop.prepare b s.collect.kernel.now).IsEndless := by
      rintro ⟨-, htime⟩
      rw [Prepared.milliseconds, htime] at hms
      cases hms
    obtain ⟨-, -, -, hnow⟩ := pass_question hne
    rw [hstep, hnow, hpolls, hms]
    exact Kernel.now_poll_le ..

/-- For every registry and every time: what a blocking pass prepares covers every watch that could become
ready, and no more; and a pass that finds this registry at this time asks the kernel for just that. -/
theorem wakeups_covered {l : Loop Callback} (ho : l.Ascending) (now : Nat) :
    l.Covered now (l.prepare true now) ∧
    ∀ s : Machine, s.control = .pass true → s.collect.loop = l → s.collect.kernel.now = now →
    s.Waits (l.prepare true now) := by
  refine ⟨Loop.covered_prepare ho now, ?_⟩
  rintro s hc rfl rfl
  exact waits_prepare hc

/-- A timer that is due half a microsecond after two milliseconds, a descriptor of the user, and a child with
its two streams; the loop is about to make a pass that may block. -/
def expectant : Machine × List Entry :=
  let x := carry (.fresh .standard 10000000 [] (.fresh true), []) (.timer 2000500 0 (.mk "t" [true] [])) 1
  let x := carry x (.io "socket" .writable (.mk "w" [true] [])) 1
  carry (carry x (.spawn "a" (.ofArgs ["/bin/true"]) ⟨.standard, []⟩ none) 1) (.iterate true) 1

theorem covered_of_expectant : expectant.1.control = .pass true ∧ expectant.1.collect.loop.Ascending ∧
    expectant.1.collect.loop.Covered 0 (expectant.1.collect.loop.prepare true 0) ∧
    expectant.1.Waits (expectant.1.collect.loop.prepare true 0) ∧
    expectant.1.collect.loop.prepare true 0 =
      ⟨[⟨.named "socket", 4⟩, ⟨.output 4001 .out, 1⟩, ⟨.output 4001 .err, 1⟩, ⟨.death 4001, 1⟩],
        [2, 3, 4, 5], some 2000500⟩ ∧
    (expectant.1.collect.loop.prepare true 0).milliseconds = some 3 := by
  have hrun : Run (fun _ => True) expectant.1 expectant.2 := by
    refine Run.carry (Run.carry (Run.carry
      (Run.carry (Run.init (.fresh .standard 10000000 [] (.fresh true) true)) rfl ?_) ?_ ?_) ?_ ?_) ?_ ?_ <;>
      first | exact fun _ _ => trivial | decide
  have hascending : expectant.1.collect.loop.Ascending := by
    have ho := ascending_run hrun
    have hids : expectant.1.collect.loop.ids = expectant.1.loop.ids := by decide
    exact ⟨hids ▸ ho.ids, fun id hid => ho.le id (hids ▸ hid)⟩
  have hcovered := wakeups_covered hascending 0
  exact ⟨rfl, hascending, hcovered.1, hcovered.2 _ rfl rfl rfl, by decide, by decide⟩

end Machine

end Overseer
