import Overseer.Proofs.Calls
import Overseer.Proofs.HandleEvents
import Overseer.Proofs.Removal

/-!
# Events are delivered in order, and once

However subscribers call back into the supervisor, the events of a handle are delivered in rounds, one
after the other and in the order in which they were emitted.  A round is one entry into the queue, or
one call for each of those who are subscribed when it begins.

    round (e, [])    =  queued
    round (e, subs)  =  begun subs, told 0, heard 0, told 1, heard 1, …, ended

    deliveries       =  round ++ round ++ … ++ a part of the next
    emissions        =  e, e, …, the event of that part, the outbox
    queued events    =  drained events ++ the queue
    roster           =  who has subscribed, in that order, as the calls so far have left them

Main statement: `delivery_in_order`.
-/

namespace Overseer

open Supervisor

namespace Supervisor

/-- The calls that tell an event to these subscribers, counted from `n`. -/
def calls (e : Event) (n : Nat) : List Subscriber → List Deal
  | [] => []
  | x :: subs => .told e n x :: .heard e n :: calls e (n + 1) subs

/-- The delivery of an event to those who are subscribed when it begins. -/
def round : Event × List Subscriber → List Deal
  | (e, []) => [.queued e]
  | (e, x :: subs) => .begun e (x :: subs) :: calls e 0 (x :: subs) ++ [.ended e]

def Deal.isDelivery : Deal → Bool
  | queued _ => true
  | begun .. => true
  | told .. => true
  | heard .. => true
  | ended _ => true
  | _ => false

def Deal.emitted? : Deal → Option Event
  | emitted e => some e
  | _ => none

def Deal.queued? : Deal → Option Event
  | queued e => some e
  | _ => none

def Deal.drainedEvents : Deal → List Event
  | drained es => es
  | _ => []

/-- Who comes is put behind the others, and who is told has been called once more. -/
def enrol (subs : List Subscriber) : Deal → List Subscriber
  | .subscribed x => subs ++ [x]
  | .told _ n _ => subs.modify n Subscriber.next
  | _ => subs

/-- Who is subscribed, if these were there first. -/
def roster (founders : List Subscriber) (hist : List Deal) : List Subscriber := hist.foldl enrol founders

/-- A delivery begins with all who are subscribed, and an event is queued if there is nobody. -/
def Deal.Fits (founders : List Subscriber) (before : List Deal) : Deal → Prop
  | begun _ subs => subs = roster founders before
  | queued _ => roster founders before = []
  | _ => True

/-- What has been done of the event that is in hand. -/
inductive InHand : List Deal → List Event → Prop
  | none : InHand [] []
  | some (e : Event) (subs : List Subscriber) (part : List Deal) (hne : part ≠ [])
      (hp : part <+: .begun e subs :: calls e 0 subs) : InHand part [e]

/-- The events of one handle are delivered in order and once, and nobody who has subscribed is lost.  `P` is where its
delivery stands. -/
structure InTurn (founders : List Subscriber) (hist : List Deal) (m : Mail) (P : List Stand) : Prop where
  course : ∃ (rounds : List (Event × List Subscriber)) (part : List Deal) (inHand : List Event),
    hist.filter Deal.isDelivery = rounds.flatMap round ++ part ∧ InHand part inHand ∧
    hist.filterMap Deal.emitted? = rounds.map Prod.fst ++ inHand ++ m.outbox
  fits : ∀ before d after, hist = before ++ d :: after → d.Fits founders before
  queue : hist.filterMap Deal.queued? = hist.flatMap Deal.drainedEvents ++ m.queue
  flag : m.emitting = true ↔ P ≠ []
  alone : P.length ≤ 1
  rest : P = [] → m.outbox = [] ∧ m.subscribers = roster founders hist

/-- What has been done of the event in hand, and who has been told or is to be told of it, at each place. -/
inductive Standing (m : Mail) : List Stand → List Deal → List Event → List Subscriber → Prop
  | rest (he : m.emitting = false) (ho : m.outbox = []) : Standing m [] [] [] []
  | between (he : m.emitting = true) : Standing m [.between] [] [] []
  | telling (e : Event) (before rest : List Subscriber) (he : m.emitting = true) (hne : before ++ rest ≠ []) :
      Standing m [.telling e (before.map Subscriber.next) rest] (.begun e (before ++ rest) :: calls e 0 before) [e]
        (before.map Subscriber.next ++ rest)
  | hearing (e : Event) (before : List Subscriber) (x : Subscriber) (rest : List Subscriber)
    (he : m.emitting = true) :
      Standing m [.hearing e ((before ++ [x]).map Subscriber.next) rest]
        (.begun e (before ++ x :: rest) :: calls e 0 before ++ [.told e before.length x]) [e]
        ((before ++ [x]).map Subscriber.next ++ rest)

/-- The history of a handle, with the rounds that are over. -/
structure Posture (founders : List Subscriber) (hist : List Deal) (m : Mail) (P : List Stand)
    (rounds : List (Event × List Subscriber)) (part : List Deal) (inHand : List Event) (ahead : List Subscriber) :
    Prop where
  course : hist.filter Deal.isDelivery = rounds.flatMap round ++ part
  emissions : hist.filterMap Deal.emitted? = rounds.map Prod.fst ++ inHand ++ m.outbox
  roster : roster founders hist = ahead ++ m.subscribers
  place : Standing m P part inHand ahead

/-- Deliveries and the queue agree with what has happened before. -/
structure Booked (founders : List Subscriber) (hist : List Deal) (m : Mail) : Prop where
  fits : ∀ before d after, hist = before ++ d :: after → d.Fits founders before
  queue : hist.filterMap Deal.queued? = hist.flatMap Deal.drainedEvents ++ m.queue

variable {founders ahead : List Subscriber} {hist ds part : List Deal} {m m' : Mail} {P P' : List Stand}
  {rounds : List (Event × List Subscriber)} {inHand : List Event}

/-! ## Rounds -/

theorem calls_append (e : Event) (n : Nat) (a b : List Subscriber) :
    calls e n (a ++ b) = calls e n a ++ calls e (n + a.length) b := by
  induction a generalizing n with
  | nil => rfl
  | cons x a ih =>
    rw [List.cons_append, calls, ih (n + 1), calls, List.length_cons, Nat.add_right_comm]
    rfl

theorem calls_concat (e : Event) (a : List Subscriber) (x : Subscriber) :
    calls e 0 (a ++ [x]) = calls e 0 a ++ [.told e a.length x, .heard e a.length] := by
  rw [calls_append, Nat.zero_add]
  rfl

theorem round_of_ne_nil (e : Event) {subs : List Subscriber} (h : subs ≠ []) :
    round (e, subs) = .begun e subs :: calls e 0 subs ++ [.ended e] := by
  cases subs with
  | nil => exact absurd rfl h
  | cons x subs => rfl

theorem modify_length (a : List Subscriber) (x : Subscriber) (b : List Subscriber) (f : Subscriber → Subscriber) :
    (a ++ x :: b).modify a.length f = a ++ f x :: b := by
  induction a with
  | nil => rfl
  | cons y a ih =>
    rw [List.cons_append, List.length_cons, List.modify_succ_cons, ih]
    rfl

theorem roster_append (founders : List Subscriber) (hist ds : List Deal) :
    roster founders (hist ++ ds) = ds.foldl enrol (roster founders hist) := List.foldl_append

theorem enrol_told (e : Event) {before rest later : List Subscriber} {x : Subscriber}
    (h : roster founders hist = before.map Subscriber.next ++ x :: rest ++ later) :
    enrol (roster founders hist) (.told e (before.map Subscriber.next).length x) =
      (before ++ [x]).map Subscriber.next ++ rest ++ later := by
  rw [h, List.append_assoc, List.cons_append, enrol, modify_length]
  simp

/-! ## What an exchange keeps -/

/-- The place does not depend on who has subscribed meanwhile, on the queue, or on later events. -/
theorem Standing.congr (h : Standing m P part inHand ahead) (he : m'.emitting = m.emitting)
    (ho : m.emitting = false → m'.outbox = m.outbox) : Standing m' P part inHand ahead := by
  cases h with
  | rest hm hout => exact .rest (he.trans hm) ((ho hm).trans hout)
  | between hm => exact .between (he.trans hm)
  | telling e before rest hm hne => exact .telling e before rest (he.trans hm) hne
  | hearing e before x rest hm => exact .hearing e before x rest (he.trans hm)

/-- While nobody delivers, nothing is in hand. -/
theorem Standing.of_silent (h : Standing m P part inHand ahead) (he : m.emitting = false) :
    P = [] ∧ part = [] ∧ inHand = [] ∧ ahead = [] := by
  cases h with
  | rest => exact ⟨rfl, rfl, rfl, rfl⟩
  | between hm => rw [hm] at he; cases he
  | telling e before rest hm hne => rw [hm] at he; cases he
  | hearing e before x rest hm => rw [hm] at he; cases he

theorem Posture.exchange (hp : Posture founders hist m P rounds part inHand ahead) (hx : Exchange m P ds m' P') :
    ∃ rounds' part' inHand' ahead', Posture founders (hist ++ ds) m' P' rounds' part' inHand' ahead' := by
  obtain ⟨hcourse, hemissions, hroster, hplace⟩ := hp
  cases hx with
  | none =>
    rw [List.append_nil]
    exact ⟨rounds, part, inHand, ahead, hcourse, hemissions, hroster, hplace⟩
  | adds e he =>
    refine ⟨rounds, part, inHand, ahead, ?_, ?_, ?_, hplace.congr rfl fun hf => by rw [he] at hf; cases hf⟩
    · simp [hcourse, Deal.isDelivery]
    · simp [hemissions, Deal.emitted?]
    · simpa [roster_append, enrol] using hroster
  | subscribes x =>
    refine ⟨rounds, part, inHand, ahead, ?_, ?_, ?_, hplace.congr rfl fun _ => rfl⟩
    · simp [hcourse, Deal.isDelivery]
    · simp [hemissions, Deal.emitted?]
    · simp [roster_append, enrol, hroster]
  | drains =>
    refine ⟨rounds, part, inHand, ahead, ?_, ?_, ?_, hplace.congr rfl fun _ => rfl⟩
    · simp [hcourse, Deal.isDelivery]
    · simp [hemissions, Deal.emitted?]
    · simpa [roster_append, enrol] using hroster
  | opens e he =>
    obtain ⟨rfl, rfl, rfl, rfl⟩ := hplace.of_silent he
    refine ⟨rounds, [], [], [], ?_, ?_, ?_, .between rfl⟩
    · simp [hcourse, Deal.isDelivery]
    · simp [hemissions, Deal.emitted?]
    · simpa [roster_append, enrol] using hroster
  | shuts ho =>
    cases hplace with
    | between hm =>
      exact ⟨rounds, [], [], [], by simpa using hcourse, by simpa using hemissions, by simpa using hroster,
        .rest rfl ho⟩
  | queues e r ho hs =>
    cases hplace with
    | between hm =>
      refine ⟨rounds ++ [(e, [])], [], [], [], ?_, ?_, ?_, .between hm⟩
      · simp [hcourse, Deal.isDelivery, round]
      · simp [hemissions, Deal.emitted?, ho]
      · simpa [roster_append, enrol] using hroster
  | begins e r ho hs =>
    cases hplace with
    | between hm =>
      refine ⟨rounds, [.begun e m.subscribers], [e], m.subscribers, ?_, ?_, ?_, .telling e [] m.subscribers hm hs⟩
      · simp [hcourse, Deal.isDelivery]
      · simp [hemissions, Deal.emitted?, ho]
      · simpa [roster_append, enrol] using hroster
  | tells e done x rest =>
    cases hplace with
    | telling _ before _ hm hne =>
      have hdone : before.map Subscriber.next ++ [.script x.next] =
          (before ++ [Subscriber.script x]).map Subscriber.next := by
        simp [Subscriber.next]
      rw [hdone]
      refine ⟨rounds, _, [e], _, ?_, ?_, ?_, .hearing e before (.script x) rest hm⟩
      · simp [hcourse, Deal.isDelivery]
      · simp [hemissions, Deal.emitted?]
      · rw [roster_append]
        exact enrol_told e hroster
  | collects e done rest =>
    cases hplace with
    | telling _ before _ hm hne =>
      have hdone : before.map Subscriber.next ++ [.collector] =
          (before ++ [Subscriber.collector]).map Subscriber.next := by
        simp [Subscriber.next]
      rw [hdone]
      have hnext := Standing.telling e (before ++ [.collector]) rest hm (by simp)
      refine ⟨rounds, _, [e], _, ?_, ?_, ?_, hnext⟩
      · simp [hcourse, Deal.isDelivery, calls_concat]
      · simp [hemissions, Deal.emitted?]
      · rw [roster_append]
        exact enrol_told e hroster
  | hears e done rest =>
    cases hplace with
    | hearing _ before x _ hm =>
      have hnext := Standing.telling e (before ++ [x]) rest hm (by simp)
      refine ⟨rounds, _, [e], _, ?_, ?_, ?_, hnext⟩
      · simp [hcourse, Deal.isDelivery, calls_concat]
      · simp [hemissions, Deal.emitted?]
      · simpa [roster_append, enrol] using hroster
  | ends e done =>
    cases hplace with
    | telling _ before _ hm hne =>
      rw [List.append_nil] at hne
      refine ⟨rounds ++ [(e, before)], [], [], [], ?_, ?_, ?_, .between hm⟩
      · simp [hcourse, Deal.isDelivery, round_of_ne_nil e hne]
      · simp [hemissions, Deal.emitted?]
      · simpa [roster_append, enrol] using hroster

theorem fits_append (h : ∀ before d after, hist = before ++ d :: after → d.Fits founders before)
    (hds : ∀ before d after, ds = before ++ d :: after → d.Fits founders (hist ++ before)) :
    ∀ before d after, hist ++ ds = before ++ d :: after → d.Fits founders before := by
  intro before d after he
  rcases List.append_eq_append_iff.1 he with ⟨more, rfl, hmore⟩ | ⟨more, rfl, hmore⟩
  · exact hds more d after hmore
  · cases more with
    | nil => simpa using hds [] d after hmore.symm
    | cons x more =>
      obtain ⟨rfl, -⟩ := List.cons.inj hmore
      exact h before d more rfl

theorem Booked.exchange (hb : Booked founders hist m) (hp : Posture founders hist m P rounds part inHand ahead)
    (hx : Exchange m P ds m' P') : Booked founders (hist ++ ds) m' := by
  have free : (∀ d ∈ ds, ∀ before, d.Fits founders before) →
      ∀ before d after, hist ++ ds = before ++ d :: after → d.Fits founders before := fun hfree =>
    fits_append hb.fits fun before d after he => hfree d (by simp [he]) _
  -- between two deliveries everybody is on the handle's own list
  have first : ∀ {d}, d.Fits founders hist →
      ∀ before d' after, hist ++ [d] = before ++ d' :: after → d'.Fits founders before := by
    intro d hd
    refine fits_append hb.fits fun before d' after he => ?_
    cases before with
    | nil =>
      obtain ⟨rfl, -⟩ := List.cons.inj he
      rwa [List.append_nil]
    | cons x before => simp at he
  have hqueue := hb.queue
  cases hx with
  | none => exact ⟨by simpa using hb.fits, by simpa using hqueue⟩
  | adds e he => exact ⟨free (by simp [Deal.Fits]), by simp [hqueue, Deal.queued?, Deal.drainedEvents]⟩
  | opens e he => exact ⟨free (by simp [Deal.Fits]), by simp [hqueue, Deal.queued?, Deal.drainedEvents]⟩
  | shuts ho => exact ⟨by simpa using hb.fits, by simpa using hqueue⟩
  | subscribes x => exact ⟨free (by simp [Deal.Fits]), by simp [hqueue, Deal.queued?, Deal.drainedEvents]⟩
  | drains => exact ⟨free (by simp [Deal.Fits]), by simp [hqueue, Deal.queued?, Deal.drainedEvents]⟩
  | tells e done x rest => exact ⟨free (by simp [Deal.Fits]), by simp [hqueue, Deal.queued?, Deal.drainedEvents]⟩
  | collects e done rest => exact ⟨free (by simp [Deal.Fits]), by simp [hqueue, Deal.queued?, Deal.drainedEvents]⟩
  | hears e done rest => exact ⟨free (by simp [Deal.Fits]), by simp [hqueue, Deal.queued?, Deal.drainedEvents]⟩
  | ends e done => exact ⟨free (by simp [Deal.Fits]), by simp [hqueue, Deal.queued?, Deal.drainedEvents]⟩
  | queues e r ho hs =>
    cases hp.place with
    | between hm =>
      refine ⟨first ?_, by simp [hqueue, Deal.queued?, Deal.drainedEvents]⟩
      exact hp.roster.trans hs
  | begins e r ho hs =>
    cases hp.place with
    | between hm =>
      refine ⟨first ?_, by simp [hqueue, Deal.queued?, Deal.drainedEvents]⟩
      exact hp.roster.symm

theorem inHand_of_standing (h : Standing m P part inHand ahead) : InHand part inHand := by
  cases h with
  | rest => exact .none
  | between => exact .none
  | telling e before rest hm hne =>
    refine .some e (before ++ rest) _ (List.cons_ne_nil _ _) ?_
    rw [calls_append]
    exact List.prefix_append (.begun e (before ++ rest) :: calls e 0 before) _
  | hearing e before x rest hm =>
    refine .some e (before ++ x :: rest) _ (by simp) ?_
    rw [calls_append, Nat.zero_add]
    exact ⟨.heard e before.length :: calls e (before.length + 1) rest, by simp [calls]⟩

/-- A delivery is under way while the flag is up, and no other one; otherwise nothing waits. -/
theorem Standing.spec (h : Standing m P part inHand ahead) :
    (m.emitting = true ↔ P ≠ []) ∧ P.length ≤ 1 ∧ (P = [] → m.outbox = [] ∧ ahead = []) := by
  cases h with
  | rest hm ho => exact ⟨by simp [hm], Nat.zero_le 1, fun _ => ⟨ho, rfl⟩⟩
  | between hm => exact ⟨by simp [hm], Nat.le_refl 1, fun hnil => absurd hnil (List.cons_ne_nil _ _)⟩
  | telling e before rest hm hne =>
    exact ⟨by simp [hm], Nat.le_refl 1, fun hnil => absurd hnil (List.cons_ne_nil _ _)⟩
  | hearing e before x rest hm =>
    exact ⟨by simp [hm], Nat.le_refl 1, fun hnil => absurd hnil (List.cons_ne_nil _ _)⟩

theorem Posture.inTurn (hp : Posture founders hist m P rounds part inHand ahead) (hb : Booked founders hist m) :
    InTurn founders hist m P := by
  obtain ⟨hflag, halone, hrest⟩ := hp.place.spec
  refine ⟨⟨rounds, part, inHand, hp.course, inHand_of_standing hp.place, hp.emissions⟩, hb.fits, hb.queue,
    hflag, halone, fun hnil => ⟨(hrest hnil).1, ?_⟩⟩
  rw [hp.roster, (hrest hnil).2, List.nil_append]

end Supervisor

namespace Machine

/-- What has happened to the events of the handle `h`, oldest first. -/
def dealings (past : List Machine) (h : Nat) : List Deal := past.reverse.flatMap fun m => m.deals h

/-- Who was subscribed when the run began. -/
def founders (past : List Machine) (s : Machine) (h : Nat) : List Subscriber :=
  (((s :: past).getLast (List.cons_ne_nil s past)).mail h).subscribers

/-- What is said of the step from `m` is told by the journal, or can be seen of the machine. -/
def Shows (m : Machine) (h : Nat) : Deal → Prop
  | .emitted e => ∃ g, .emitted h g e ∈ m.news
  | .queued e => .queued h e ∈ m.news
  | .begun e subs => .delivering h e subs.length ∈ m.news
  | .told e _ .collector => m.step.captured = m.captured.add e
  | .told e _ (.script x) => .told x.tag e ∈ m.news ∧
      ∃ (u : Machine) (done rest : List Subscriber),
        u.stack = .told h e done rest :: m.stack ∧ m.step = u.callScript x
  | .drained es => ∃ view, m.step.control = .value (.answer (.ofHandle (.events es) view none))
  | _ => True

/-- The events of the handle `h` are delivered in order and once, through all calls back into the supervisor. -/
structure Mailing (past : List Machine) (s : Machine) (log : List Entry) (h : Nat) : Prop where
  first : founders past s h = [] ∨ founders past s h = [.collector]
  order : InTurn (founders past s h) (dealings past h) (s.mail h) (s.stands h)
  changes : ∀ m ∈ past, m.Exchanges h
  shows : ∀ m ∈ past, ∀ d ∈ m.deals h, m.Shows h d
  outermost : ∀ e, s.control = .emit h e → (s.mail h).emitting = false →
    ∀ y, Call (fun _ => True) (s, log) y →
    returned s.stack.length y.1 = true → (y.1.mail h).outbox = [] ∧ (y.1.mail h).emitting = false ∧
      ∀ past', Trail past' y.1 y.2 → (y.1.mail h).subscribers = roster (founders past' y.1 h) (dealings past' h)

variable {s t m : Machine} {past : List Machine} {log log' : List Entry} {h : Nat}

/-! ## Along a run -/

theorem dealings_cons (m : Machine) (past : List Machine) (h : Nat) :
    dealings (m :: past) h = dealings past h ++ m.deals h := by
  simp [dealings]

/-- Between two steps the events are left alone. -/
theorem alone_of_pause (hm : Move (fun _ => False) (s, log) (t, log')) :
    t.mail h = s.mail h ∧ t.stands h = s.stands h := by
  cases hm with
  | step hf => exact hf.elim
  | elsewhere k => exact ⟨rfl, rfl⟩
  | rejoin inner a hs =>
    refine ⟨rfl, ?_⟩
    rw [stands, stands, hs]
    rfl
  | start op hi =>
    obtain ⟨⟨v, hv⟩, -⟩ := control_of_isIdle hi
    refine ⟨rfl, ?_⟩
    rw [stands, stands, hv]
    rfl
  | ending hi => exact ⟨rfl, rfl⟩

theorem founders_of_pause (hm : Move (fun _ => False) (s, log) (t, log')) :
    founders past t h = founders past s h := by
  cases past with
  | nil => exact congrArg Mail.subscribers (alone_of_pause hm).1
  | cons m past => rfl

theorem lt_of_emitting (he : (s.mail h).emitting = true) : h < s.handles.length := by
  refine lt_of_ne_fresh fun hf => ?_
  rw [mail, hf] at he
  cases he

theorem mail_initial (hi : Initial s) (h : Nat) :
    ∃ subs, s.mail h = ⟨[], false, subs, []⟩ ∧ (subs = [] ∨ subs = [.collector]) := by
  cases hi with
  | fresh => exact ⟨[], rfl, .inl rfl⟩
  | forRun outer spec =>
    cases h with
    | zero => exact ⟨[.collector], rfl, .inr rfl⟩
    | succ n => exact ⟨[], rfl, .inl rfl⟩

theorem founders_trail (ht : Trail past s log) (h : Nat) :
    founders past s h = [] ∨ founders past s h = [.collector] := by
  induction ht with
  | init hi =>
    obtain ⟨subs, hmail, hsubs⟩ := mail_initial hi h
    rwa [founders, List.getLast_singleton, hmail]
  | step _ ih => exact ih
  | pause _ hm ih => rwa [founders_of_pause hm]

/-- What a run keeps of the events of a handle. -/
theorem posture_trail (ht : Trail past s log) (h : Nat) : (∃ rounds part inHand ahead,
    Posture (founders past s h) (dealings past h) (s.mail h) (s.stands h) rounds part inHand ahead) ∧
      Booked (founders past s h) (dealings past h) (s.mail h) ∧
      ∀ m ∈ past, m.Exchanges h := by
  induction ht with
  | @init s hi =>
    obtain ⟨subs, hmail, -⟩ := mail_initial hi h
    have hstands : s.stands h = [] := by cases hi <;> rfl
    rw [hmail, hstands]
    refine ⟨⟨[], [], [], [], rfl, rfl, ?_, .rest rfl rfl⟩, ⟨by simp [dealings], rfl⟩, by simp⟩
    exact congrArg Mail.subscribers hmail
  | @step past s log ht ih =>
    obtain ⟨⟨rounds, part, inHand, ahead, hp⟩, hb, hall⟩ := ih
    have hx : s.Exchanges h :=
      exchange_step (footing_run ht.run) fun hne => lt_of_emitting (hp.place.spec.1.2 hne)
    have hsame : founders (s :: past) s.step h = founders past s h := rfl
    rw [hsame, dealings_cons]
    refine ⟨hp.exchange hx, hb.exchange hp hx, fun m hm => ?_⟩
    rcases List.mem_cons.1 hm with rfl | hm
    · exact hx
    · exact hall m hm
  | pause ht hm ih =>
    obtain ⟨hmail, hstands⟩ := alone_of_pause (h := h) hm
    rw [founders_of_pause hm, hmail, hstands]
    exact ih

/-! ## What is told of it -/

theorem news_emit {i : Nat} {e : Event} (hc : m.control = .emit i e) :
    m.news = [.emitted i (m.handle i).generation e] := by
  refine news_eq ?_
  rw [step, hc]
  dsimp only
  unfold emit
  dsimp only
  split <;> rfl

theorem shows_deliver {d : Deal} (hc : m.control = .deliver h) (hd : d ∈ (m.mail h).deals) : m.Shows h d := by
  have hstep : m.step = m.deliver h := by rw [step, hc]
  cases ho : (m.mail h).outbox with
  | nil =>
    rw [Mail.deals_nil ho] at hd
    cases hd
  | cons e rest =>
    have hout : (m.handle h).outbox = e :: rest := ho
    by_cases hs : (m.mail h).subscribers = []
    · rw [Mail.deals_queued ho hs] at hd
      obtain rfl := List.mem_singleton.1 hd
      have hnews : m.news = [.queued h e] := by
        refine news_eq ?_
        rw [hstep]
        unfold deliver
        dsimp only
        rw [hout, show (m.handle h).subscribers = [] from hs]
        rfl
      show .queued h e ∈ m.news
      rw [hnews]
      exact List.mem_singleton_self _
    · rw [Mail.deals_begun ho hs] at hd
      obtain rfl := List.mem_singleton.1 hd
      have hnews : m.news = [.delivering h e (m.mail h).subscribers.length] := by
        refine news_eq ?_
        rw [hstep]
        unfold deliver
        dsimp only
        rw [hout]
        dsimp only
        split
        · next hnil => exact absurd hnil hs
        · rfl
      show .delivering h e (m.mail h).subscribers.length ∈ m.news
      rw [hnews]
      exact List.mem_singleton_self _

theorem journal_callScript (s : Machine) (x : Script) : (s.callScript x).journal = s.journal := by
  unfold callScript
  split
  · rfl
  · split <;> rfl

theorem shows_tell {e : Event} {done rest : List Subscriber} {d : Deal} (hc : m.control = .tell h e done rest)
    (hd : d ∈ toldTo e done.length rest) : m.Shows h d := by
  have hstep : m.step = m.tell h e done rest := by rw [step, hc]
  cases rest with
  | nil =>
    obtain rfl := List.mem_singleton.1 hd
    trivial
  | cons x rest =>
    cases x with
    | collector =>
      rcases List.mem_cons.1 hd with rfl | hd
      · show m.step.captured = _
        rw [hstep]
        rfl
      · obtain rfl := List.mem_singleton.1 hd
        trivial
    | script x =>
      obtain rfl := List.mem_singleton.1 hd
      have hnews : m.news = [.told x.tag e] := by
        refine news_eq ?_
        rw [hstep, tell, journal_callScript]
        rfl
      refine ⟨by rw [hnews]; exact List.mem_singleton_self _,
        (m.push (.told h e (done ++ [.script x.next]) rest)).record (.told x.tag e), done ++ [.script x.next],
        rest, rfl, ?_⟩
      rw [hstep]
      rfl

theorem shows_drain {name : String} (hc : m.control = .perform (.drain name)) :
    m.Shows h (.drained m.returnedEvents) := by
  have hstep : m.step = m.perform (.drain name) := by rw [step, hc]
  have hcontrol : m.step.control =
      .value (.answer (.ofHandle (.events ((m.resolve name).2.handle (m.resolve name).1).queue)
        (((m.resolve name).2.mapHandle (m.resolve name).1 fun y => { y with queue := [] }).handle
          (m.resolve name).1).view none)) := by
    rw [hstep]
    rfl
  have hreturned : m.returnedEvents = ((m.resolve name).2.handle (m.resolve name).1).queue := by
    rw [returnedEvents, hcontrol]
  rw [hreturned]
  exact ⟨_, hcontrol⟩

theorem shows_of_deals {d : Deal} (hd : d ∈ m.deals h) : m.Shows h d := by
  unfold deals at hd
  split at hd
  · next i e hc =>
    split at hd
    · next hi =>
      obtain rfl := List.mem_singleton.1 hd
      subst hi
      exact ⟨_, by rw [news_emit hc]; exact List.mem_singleton_self _⟩
    · cases hd
  · next i hc =>
    split at hd
    · next hi =>
      exact shows_deliver (hi ▸ hc) hd
    · cases hd
  · next i e done rest hc =>
    split at hd
    · next hi => exact shows_tell (hi ▸ hc) hd
    · cases hd
  · split at hd
    · obtain rfl := List.mem_singleton.1 hd
      trivial
    · cases hd
  · split at hd
    · obtain rfl := List.mem_singleton.1 hd
      trivial
    · cases hd
  · next name hc =>
    split at hd
    · obtain rfl := List.mem_singleton.1 hd
      exact shows_drain hc
    · cases hd
  · cases hd

/-! ## The outermost emission -/

/-- A call leaves the frames of its callers alone. -/
theorem suffix_call {G : Machine → Prop} {x y : Machine × List Entry} (hc : Call G x y) :
    x.1.stack <:+ y.1.stack := by
  induction hc with
  | refl => exact List.suffix_rfl
  | @tail u v _ hm ih =>
    obtain ⟨s, log⟩ := u
    obtain ⟨t, log'⟩ := v
    obtain ⟨hmove, hret⟩ := hm
    cases hmove with
    | step => exact suffix_step ih hret
    | elsewhere k => exact ih
    | rejoin inner a hs => exact ih
    | start op hi => exact ih
    | ending hi => exact ih

theorem Trail.mailing (ht : Trail past s log) (h : Nat) : Mailing past s log h := by
  obtain ⟨⟨rounds, part, inHand, ahead, hp⟩, hb, hall⟩ := posture_trail ht h
  have horder := hp.inTurn hb
  refine ⟨founders_trail ht h, horder, hall, fun m _ d hd => shows_of_deals hd, fun e hc he y hcall hret => ?_⟩
  · obtain ⟨⟨v, hv⟩, hst⟩ := value_of_returned (suffix_call hcall) hret
    have hnone : y.1.stands h = [] := by
      have hbefore : s.stands h = [] := by
        by_contra hne
        rw [horder.flag.2 hne] at he
        cases he
      rw [stands, hc] at hbefore
      rw [stands, hv, hst]
      exact hbefore
    have hrun : Run (fun _ => True) y.1 y.2 := ht.run.call (x := (s, log)) hcall
    have hrest : ∀ past', Trail past' y.1 y.2 →
        InTurn (founders past' y.1 h) (dealings past' h) (y.1.mail h) (y.1.stands h) := by
      intro past' ht'
      obtain ⟨⟨rounds, part, inHand, ahead, hp⟩, hb, -⟩ := posture_trail ht' h
      exact hp.inTurn hb
    obtain ⟨past', ht'⟩ := trail_of_run hrun
    refine ⟨((hrest past' ht').rest hnone).1, ?_, fun past'' ht'' => ((hrest past'' ht'').rest hnone).2⟩
    exact Bool.eq_false_iff.2 fun hup => (hrest past' ht').flag.1 hup hnone

/-- For every handle and whatever its subscribers do when they are called, to any depth: its events are
delivered in the order in which they were emitted, each once, in one round of calls to all who are subscribed
when the round begins or into the queue if there is nobody; a round is over before the next begins; and when
an emission that has found nobody delivering has returned, nothing waits and everybody who has subscribed is
there. -/
theorem delivery_in_order (hr : Run (fun _ => True) s log) :
    (∃ past, Trail past s log) ∧ ∀ past, Trail past s log → ∀ h, Mailing past s log h :=
  ⟨trail_of_run hr, fun _ ht => ht.mailing⟩

/-- An event has been queued, and the next is about to be told to a subscriber who brings another, empties the
queue, and lets the loop make a pass, which reads more. -/
def corresponding : List Machine × Machine × List Entry :=
  hike (hike (hike (hike (hike (hike ([], .fresh .standard 10000000 [] (.fresh true), [])
    (.spawn "a" (.ofArgs ["/bin/cat"]) ⟨.standard, []⟩ none) 1) (.event (.child 4001 (.emit .out [104]))) 1)
    (.iterate false) 14) (.subscribe "a" (.mk "s" [] [[.event (.child 4001 (.emit .err [33])),
      .subscribe "a" (.mk "t" [] []), .drain "a", .iterate false]])) 1)
    (.event (.child 4001 (.emit .out [105]))) 1) (.iterate false) 5

/-- The second event is told to one subscriber, and the third, which has come meanwhile, to two. -/
theorem mailing_of_corresponding : Run (fun _ => True) corresponding.2.1 corresponding.2.2 ∧
    Mailing corresponding.1 corresponding.2.1 corresponding.2.2 0 ∧
    corresponding.2.1.control = .emit 0 (.chunk .out [105]) ∧ (corresponding.2.1.mail 0).emitting = false ∧
    Call (fun _ => True) corresponding.2 (walk 31 corresponding.2) ∧
    ((walk 31 corresponding.2).1.mail 0).outbox = [] ∧ ((walk 31 corresponding.2).1.mail 0).emitting = false ∧
    (dealings (tramp 31 corresponding).1 0).filterMap Deal.emitted? =
      [.chunk .out [104], .chunk .out [105], .chunk .err [33]] ∧
    (dealings (tramp 31 corresponding).1 0).filterMap Deal.queued? = [.chunk .out [104]] := by
  have hspawned : Trail _ _ _ := Trail.hike (x := ([], .fresh .standard 10000000 [] (.fresh true), []))
    (.init (.fresh .standard 10000000 [] (.fresh true) true)) rfl
    (.spawn "a" (.ofArgs ["/bin/cat"]) ⟨.standard, []⟩ none) 1
  have ht : Trail corresponding.1 corresponding.2.1 corresponding.2.2 :=
    (((((hspawned.hike (by decide) (.event (.child 4001 (.emit .out [104]))) 1).hike (by decide)
      (.iterate false) 14).hike
      (by decide) (.subscribe "a" (.mk "s" []
        [[.event (.child 4001 (.emit .err [33])), .subscribe "a" (.mk "t" [] []),
        .drain "a", .iterate false]])) 1).hike (by decide) (.event (.child 4001 (.emit .out [105]))) 1).hike
      (by decide) (.iterate false) 5)
  have hmailing := (delivery_in_order ht.run).2 _ ht 0
  have hcall : Call (fun _ => True) corresponding.2 (walk 31 corresponding.2) :=
    Call.walk (fun _ _ => trivial) (by decide)
  obtain ⟨hout, hflag, -⟩ := hmailing.outermost (.chunk .out [105]) rfl rfl _ hcall (by decide)
  exact ⟨ht.run, hmailing, rfl, rfl, hcall, hout, hflag, rfl, rfl⟩

end Machine

end Overseer
