import Overseer.Proofs.SilentSteps
import Overseer.Proofs.Spawning

/-!
# The events of one handle

An emitted event waits in the outbox of its handle.  The call that has found nobody delivering takes the
events out one by one, and tells each to all who are subscribed; meanwhile the handle's own list of
subscribers is empty, and who comes then is put behind the others in the end.  Without subscribers the
event goes into the queue.

    stands s h    =  where deliveries of the handle h stand: in the control, and in the frames of the stack
    deals s h     =  what the next step does with the events of h

    between    --begun-->  telling [] subs          telling done (x :: rest)  --told-->  hearing (done ++ [x']) rest
    telling done []  --ended-->  between            hearing done rest  --heard-->  telling done rest

Main statement: `exchange_step`.
-/

namespace Overseer

open Supervisor

namespace Supervisor

/-- A subscriber after one call. -/
def Subscriber.next : Subscriber → Subscriber
  | script x => .script x.next
  | collector => .collector

/-- What happens to the events of one handle; subscribers are counted in the order in which they are told. -/
inductive Deal
  | emitted (e : Event)
  | queued (e : Event)
  | begun (e : Event) (subscribers : List Subscriber)
  | told (e : Event) (n : Nat) (x : Subscriber)
  | heard (e : Event) (n : Nat)
  | ended (e : Event)
  | subscribed (x : Subscriber)
  | drained (es : List Event)

/-- A delivery stands between two events, before the next subscriber, or at one that has been called. -/
inductive Stand
  | between
  | telling (e : Event) (done rest : List Subscriber)
  | hearing (e : Event) (done rest : List Subscriber)

def Control.stands (h : Nat) : Control → List Stand
  | deliver i => if i = h then [.between] else []
  | tell i e done rest => if i = h then [.telling e done rest] else []
  | _ => []

def Frame.stands (h : Nat) : Frame → List Stand
  | told i e done rest => if i = h then [.hearing e done rest] else []
  | _ => []

/-- What becomes of the oldest event of the outbox. -/
def Mail.deals (m : Mail) : List Deal :=
  match m.outbox, m.subscribers with
  | [], _ => []
  | e :: _, [] => [.queued e]
  | e :: _, subs => [.begun e subs]

theorem Mail.deals_nil {m : Mail} (ho : m.outbox = []) : m.deals = [] := by
  rw [deals, ho]

theorem Mail.deals_queued {m : Mail} {e : Event} {r : List Event} (ho : m.outbox = e :: r) (hs : m.subscribers = []) :
    m.deals = [.queued e] := by
  rw [deals, ho, hs]

theorem Mail.deals_begun {m : Mail} {e : Event} {r : List Event} (ho : m.outbox = e :: r) (hs : m.subscribers ≠ []) :
    m.deals = [.begun e m.subscribers] := by
  rw [deals, ho]
  cases hm : m.subscribers with
  | nil => exact absurd hm hs
  | cons x subs => rfl

/-- What becomes of an event that is told to these subscribers. -/
def toldTo (e : Event) (n : Nat) : List Subscriber → List Deal
  | [] => [.ended e]
  | .collector :: _ => [.told e n .collector, .heard e n]
  | x :: _ => [.told e n x]

/-- Events, subscribers and deliveries of a handle, before and after a step. -/
inductive Exchange : Mail → List Stand → List Deal → Mail → List Stand → Prop
  | none {m : Mail} {P : List Stand} : Exchange m P [] m P
  | adds {m : Mail} {P : List Stand} (e : Event) (he : m.emitting = true) :
      Exchange m P [.emitted e] { m with outbox := m.outbox ++ [e] } P
  | opens {m : Mail} {P : List Stand} (e : Event) (he : m.emitting = false) :
      Exchange m P [.emitted e] { m with outbox := m.outbox ++ [e], emitting := true } (.between :: P)
  | shuts {m : Mail} {P : List Stand} (ho : m.outbox = []) :
      Exchange m (.between :: P) [] { m with emitting := false } P
  | queues {m : Mail} {P : List Stand} (e : Event) (r : List Event) (ho : m.outbox = e :: r)
    (hs : m.subscribers = []) :
      Exchange m (.between :: P) [.queued e] { m with outbox := r, queue := m.queue ++ [e] } (.between :: P)
  | begins {m : Mail} {P : List Stand} (e : Event) (r : List Event) (ho : m.outbox = e :: r)
    (hs : m.subscribers ≠ []) :
      Exchange m (.between :: P) [.begun e m.subscribers] { m with outbox := r, subscribers := [] }
        (.telling e [] m.subscribers :: P)
  | tells {m : Mail} {P : List Stand} (e : Event) (done : List Subscriber) (x : Script) (rest : List Subscriber) :
      Exchange m (.telling e done (.script x :: rest) :: P) [.told e done.length (.script x)] m
        (.hearing e (done ++ [.script x.next]) rest :: P)
  | collects {m : Mail} {P : List Stand} (e : Event) (done rest : List Subscriber) :
      Exchange m (.telling e done (.collector :: rest) :: P) [.told e done.length .collector, .heard e done.length] m
        (.telling e (done ++ [.collector]) rest :: P)
  | hears {m : Mail} {P : List Stand} (e : Event) (done rest : List Subscriber) :
      Exchange m (.hearing e done rest :: P) [.heard e (done.length - 1)] m (.telling e done rest :: P)
  | ends {m : Mail} {P : List Stand} (e : Event) (done : List Subscriber) :
      Exchange m (.telling e done [] :: P) [.ended e] { m with subscribers := done ++ m.subscribers } (.between :: P)
  | subscribes {m : Mail} {P : List Stand} (x : Subscriber) :
      Exchange m P [.subscribed x] { m with subscribers := m.subscribers ++ [x] } P
  | drains {m : Mail} {P : List Stand} : Exchange m P [.drained m.queue] { m with queue := [] } P

end Supervisor

namespace Machine

def stands (s : Machine) (h : Nat) : List Stand := s.control.stands h ++ s.stack.flatMap (Frame.stands h)

/-- The events that the step returns to the user. -/
def returnedEvents (s : Machine) : List Event :=
  match s.step.control with
  | .value (.answer (.ofHandle (.events es) _ _)) => es
  | _ => []

/-- What the step does with the events of the handle `h`. -/
def deals (s : Machine) (h : Nat) : List Deal :=
  match s.control, s.stack with
  | .emit i e, _ => if i = h then [.emitted e] else []
  | .deliver i, _ => if i = h then (s.mail h).deals else []
  | .tell i e done rest, _ => if i = h then toldTo e done.length rest else []
  | .value (.again _), .told i e done _ :: _ => if i = h then [.heard e (done.length - 1)] else []
  | .perform (.subscribe name x), _ => if (s.resolve name).1 = h then [.subscribed (.script x)] else []
  | .perform (.drain name), _ => if (s.resolve name).1 = h then [.drained s.returnedEvents] else []
  | _, _ => []

/-- The step deals with the events of the handle `h` as its delivery stands. -/
def Exchanges (s : Machine) (h : Nat) : Prop :=
  Exchange (s.mail h) (s.stands h) (s.deals h) (s.step.mail h) (s.step.stands h)

variable {s t : Machine} {h i : Nat} {log : List Entry} {K : List Frame}

/-! ## Where deliveries stand -/

theorem flatMap_stands (h : Nat) (K : List Frame) :
    (K.filter Frame.isLoud).flatMap (Frame.stands h) = K.flatMap (Frame.stands h) := by
  induction K with
  | nil => rfl
  | cons f K ih =>
    cases hf : f.isLoud with
    | true => rw [List.filter_cons_of_pos hf, List.flatMap_cons, List.flatMap_cons, ih]
    | false =>
      have hnone : f.stands h = [] := by
        cases f <;> first | rfl | cases hf
      rw [List.filter_cons_of_neg (by simp [hf]), List.flatMap_cons, hnone, ih, List.nil_append]

theorem stands_of_quiet {c : Control} (hc : c.isLoud = false) (h : Nat) : c.stands h = [] := by
  cases c <;> first | rfl | cases hc

theorem Tacit.stands (ht : Tacit K s t) (h : Nat) : t.stands h = K.flatMap (Frame.stands h) := by
  rw [Machine.stands, stands_of_quiet ht.control, List.nil_append, ← flatMap_stands, ht.stack, flatMap_stands]

/-! ## Emitting and delivering -/

theorem exchange_none (hm : s.step.mail h = s.mail h) (hp : s.step.stands h = s.stands h) (hd : s.deals h = []) :
    s.Exchanges h := by
  rw [Exchanges, hm, hp, hd]
  exact .none

theorem mail_mapHandle_self (s : Machine) (f : Handle → Handle) (hl : h < s.handles.length) :
    (s.mapHandle h f).mail h = (f (s.handle h)).mail := by
  rw [mail, handle_mapHandle_self s f hl]

theorem exchange_emit {e : Event} (hc : s.control = .emit i e) (hl : i < s.handles.length) :
    s.Exchanges h := by
  have hstep : s.step = s.emit i e := by rw [step, hc]
  have hstands : s.stands h = s.stack.flatMap (Frame.stands h) := by rw [stands, hc]; rfl
  by_cases hi : i = h
  · subst hi
    have hdeals : s.deals i = [.emitted e] := by simp [deals, hc]
    rw [Exchanges, hstep, hdeals, hstands]
    unfold emit
    dsimp only
    split
    · next he =>
      have hmail : ((s.record (.emitted i (s.handle i).generation e)).mapHandle i fun x =>
          { x with outbox := x.outbox ++ [e] }).mail i = { s.mail i with outbox := (s.mail i).outbox ++ [e] } :=
        mail_mapHandle_self _ _ hl
      rw [mail_yield, hmail]
      exact .adds e he
    · next he =>
      have hmail : ((s.record (.emitted i (s.handle i).generation e)).mapHandle i fun x =>
          { x with outbox := x.outbox ++ [e], emitting := true }).mail i =
            { s.mail i with outbox := (s.mail i).outbox ++ [e], emitting := true } :=
        mail_mapHandle_self _ _ hl
      have hopen : (((s.record (.emitted i (s.handle i).generation e)).mapHandle i fun x =>
          { x with outbox := x.outbox ++ [e], emitting := true }).go (.deliver i)).stands i =
            .between :: s.stack.flatMap (Frame.stands i) := by
        simp [stands, Control.stands]
      rw [mail_go, hmail, hopen]
      exact .opens e (Bool.not_eq_true _ ▸ he)
  · refine exchange_none ?_ ?_ (by simp [deals, hc, hi]) <;> rw [hstep]
    · unfold emit
      dsimp only
      split <;> simp [mail_mapHandle_of_ne _ _ (Ne.symm hi)]
    · rw [hstands]
      unfold emit
      dsimp only
      split <;> simp [stands, Control.stands, hi]

theorem deliver_shuts (hl : i < s.handles.length) (ho : (s.mail i).outbox = []) :
    (s.deliver i).mail i = { s.mail i with emitting := false } ∧
    (s.deliver i).stands i = s.stack.flatMap (Frame.stands i) := by
  have hdeliver : s.deliver i = (s.mapHandle i fun x => { x with emitting := false }).yield .unit := by
    rw [deliver, show (s.handle i).outbox = [] from ho]
  rw [hdeliver]
  exact ⟨mail_mapHandle_self s (fun x => { x with emitting := false }) hl, rfl⟩

theorem deliver_queues {e : Event} {r : List Event} (hl : i < s.handles.length) (ho : (s.mail i).outbox = e :: r)
    (hs : (s.mail i).subscribers = []) :
    (s.deliver i).mail i = { s.mail i with outbox := r, queue := (s.mail i).queue ++ [e] } ∧
    (s.deliver i).stands i = .between :: s.stack.flatMap (Frame.stands i) := by
  have hdeliver : s.deliver i = (((s.mapHandle i fun x => { x with outbox := r }).mapHandle i fun x =>
      { x with queue := x.queue ++ [e] }).record (.queued i e)).go (.deliver i) := by
    rw [deliver, show (s.handle i).outbox = e :: r from ho]
    dsimp only
    rw [show (s.handle i).subscribers = [] from hs]
  have hl' : i < (s.mapHandle i fun x => { x with outbox := r }).handles.length := by
    rwa [mapHandle, List.length_modify]
  rw [hdeliver]
  constructor
  · rw [mail_go, mail_record, mail_mapHandle_self _ _ hl', handle_mapHandle_self s _ hl]
    rfl
  · simp [stands, Control.stands]

theorem deliver_begins {e : Event} {r : List Event} (hl : i < s.handles.length) (ho : (s.mail i).outbox = e :: r)
    (hs : (s.mail i).subscribers ≠ []) :
    (s.deliver i).mail i = { s.mail i with outbox := r, subscribers := [] } ∧
    (s.deliver i).stands i = .telling e [] (s.mail i).subscribers :: s.stack.flatMap (Frame.stands i) := by
  have hdeliver : s.deliver i = (((s.mapHandle i fun x => { x with outbox := r }).record
      (.delivering i e (s.mail i).subscribers.length)).mapHandle i fun x => { x with subscribers := [] }).go
        (.tell i e [] (s.mail i).subscribers) := by
    rw [deliver, show (s.handle i).outbox = e :: r from ho]
    dsimp only
    split
    · next hnone => exact absurd hnone hs
    · rfl
  have hl' : i < ((s.mapHandle i fun x => { x with outbox := r }).record
      (.delivering i e (s.mail i).subscribers.length)).handles.length := by
    rwa [record, mapHandle, List.length_modify]
  rw [hdeliver]
  constructor
  · rw [mail_go, mail_mapHandle_self _ _ hl']
    show ({ (s.mapHandle i fun x => { x with outbox := r }).handle i with subscribers := [] }).mail = _
    rw [handle_mapHandle_self s _ hl]
    rfl
  · simp [stands, Control.stands]

theorem deliver_elsewhere (hi : i ≠ h) :
    (s.deliver i).mail h = s.mail h ∧ (s.deliver i).stands h = s.stack.flatMap (Frame.stands h) := by
  unfold deliver
  dsimp only
  split
  · simp [mail_mapHandle_of_ne _ _ hi.symm, stands, Control.stands]
  · split <;> simp [mail_mapHandle_of_ne _ _ hi.symm, stands, Control.stands, hi]

theorem exchange_deliver (hc : s.control = .deliver i) (hl : s.stands h ≠ [] → h < s.handles.length) :
    s.Exchanges h := by
  have hstep : s.step = s.deliver i := by rw [step, hc]
  by_cases hi : i = h
  · subst hi
    have hstands : s.stands i = .between :: s.stack.flatMap (Frame.stands i) := by simp [stands, hc, Control.stands]
    have hlt : i < s.handles.length := hl (by simp [hstands])
    have hdeals : s.deals i = (s.mail i).deals := by simp [deals, hc]
    rw [Exchanges, hstep, hdeals, hstands]
    cases ho : (s.mail i).outbox with
    | nil =>
      obtain ⟨hmail, hstill⟩ := deliver_shuts hlt ho
      rw [Mail.deals_nil ho, hmail, hstill]
      exact .shuts ho
    | cons e r =>
      by_cases hs : (s.mail i).subscribers = []
      · obtain ⟨hmail, hstill⟩ := deliver_queues hlt ho hs
        rw [Mail.deals_queued ho hs, hmail, hstill]
        exact .queues e r ho hs
      · obtain ⟨hmail, hnext⟩ := deliver_begins hlt ho hs
        rw [Mail.deals_begun ho hs, hmail, hnext]
        exact .begins e r ho hs
  · obtain ⟨hmail, hstands⟩ := deliver_elsewhere (s := s) hi
    refine exchange_none (by rw [hstep, hmail]) ?_ (by simp [deals, hc, hi])
    rw [hstep, hstands]
    simp [stands, hc, Control.stands, hi]

theorem exchange_tell {e : Event} {done rest : List Subscriber} (hc : s.control = .tell i e done rest)
    (hl : s.stands h ≠ [] → h < s.handles.length) : s.Exchanges h := by
  have hstep : s.step = s.tell i e done rest := by rw [step, hc]
  have hcall : ∀ (x : Script) (r : List Subscriber), Tacit (.told i e (done ++ [.script x.next]) r :: s.stack) s
      ((((s.push (.told i e (done ++ [.script x.next]) r)).record (.told x.tag e)).callScript x)) := fun x r => by
    have ht := callScript_tacit ((s.push (.told i e (done ++ [.script x.next]) r)).record (.told x.tag e)) x
    exact ⟨ht.mail, ht.stack, ht.control⟩
  by_cases hi : i = h
  · subst hi
    have hstands : s.stands i = .telling e done rest :: s.stack.flatMap (Frame.stands i) := by
      simp [stands, hc, Control.stands]
    have hlt : i < s.handles.length := hl (by simp [hstands])
    have hdeals : s.deals i = toldTo e done.length rest := by simp [deals, hc]
    rw [Exchanges, hstep, hdeals, hstands]
    cases rest with
    | nil =>
      have hmail : (s.tell i e done []).mail i = { s.mail i with subscribers := done ++ (s.mail i).subscribers } :=
        mail_mapHandle_self _ _ hlt
      have hback : (s.tell i e done []).stands i = .between :: s.stack.flatMap (Frame.stands i) := by
        simp [tell, stands, Control.stands]
      rw [hmail, hback]
      exact .ends e done
    | cons x rest =>
      cases x with
      | collector =>
        have hnext : (s.tell i e done (.collector :: rest)).stands i =
            .telling e (done ++ [.collector]) rest :: s.stack.flatMap (Frame.stands i) := by
          simp [tell, stands, Control.stands, go]
        rw [hnext]
        exact .collects e done rest
      | script x =>
        have hmail : (s.tell i e done (.script x :: rest)).mail i = s.mail i := congrFun (hcall x rest).mail i
        have hnext : (s.tell i e done (.script x :: rest)).stands i =
            .hearing e (done ++ [.script x.next]) rest :: s.stack.flatMap (Frame.stands i) := by
          rw [tell, (hcall x rest).stands i, List.flatMap_cons]
          simp [Frame.stands]
        rw [hmail, hnext]
        exact .tells e done x rest
  · have hhere : s.stands h = s.stack.flatMap (Frame.stands h) := by simp [stands, hc, Control.stands, hi]
    refine exchange_none ?_ ?_ (by simp [deals, hc, hi]) <;> rw [hstep]
    · cases rest with
      | nil => exact mail_mapHandle_of_ne _ _ (Ne.symm hi)
      | cons x rest =>
        cases x with
        | collector => rfl
        | script x => exact congrFun (hcall x rest).mail h
    · rw [hhere]
      cases rest with
      | nil => simp [tell, stands, Control.stands, hi]
      | cons x rest =>
        cases x with
        | collector => simp [tell, stands, Control.stands, go, hi]
        | script x =>
          rw [tell, (hcall x rest).stands h, List.flatMap_cons]
          simp [Frame.stands, hi]

theorem exchange_heard {e : Event} {done rest : List Subscriber} {b : Bool} (hc : s.control = .value (.again b))
    (hst : s.stack = .told i e done rest :: K) : s.Exchanges h := by
  have hmail : s.step.mail h = s.mail h := by
    rw [step_value hc hst]
    rfl
  by_cases hi : i = h
  · subst hi
    have hbefore : s.stands i = .hearing e done rest :: K.flatMap (Frame.stands i) := by
      simp [stands, hc, hst, Control.stands, Frame.stands]
    have hafter : s.step.stands i = .telling e done rest :: K.flatMap (Frame.stands i) := by
      rw [step_value hc hst]
      simp [resume, stands, Control.stands]
    have hdeals : s.deals i = [.heard e (done.length - 1)] := by simp [deals, hc, hst]
    rw [Exchanges, hmail, hbefore, hafter, hdeals]
    exact .hears e done rest
  · refine exchange_none hmail ?_ (by simp [deals, hc, hst, hi])
    rw [step_value hc hst]
    simp [resume, stands, hc, hst, Control.stands, Frame.stands, hi]

/-! ## Subscribing and draining -/

theorem exchange_subscribe (hf : Footing s.stage log) {name : String} {x : Script}
    (hc : s.control = .perform (.subscribe name x)) : s.Exchanges h := by
  have hstep : s.step = s.perform (.subscribe name x) := by rw [step, hc]
  have hstands : s.step.stands h = s.stands h := by
    rw [hstep]
    simp [perform, reply, stands, hc, Control.stands]
  by_cases hi : (s.resolve name).1 = h
  · subst hi
    have hmail : s.step.mail (s.resolve name).1 = { s.mail (s.resolve name).1 with
        subscribers := (s.mail (s.resolve name).1).subscribers ++ [.script x] } := by
      rw [hstep]
      refine (mail_mapHandle_self (s.resolve name).2 _ (lt_resolve hf name)).trans ?_
      rw [handle_resolve]
      rfl
    have hdeals : s.deals (s.resolve name).1 = [.subscribed (.script x)] := by simp [deals, hc]
    rw [Exchanges, hmail, hstands, hdeals]
    exact .subscribes _
  · refine exchange_none ?_ hstands (by simp [deals, hc, hi])
    rw [hstep]
    exact (mail_mapHandle_of_ne (s.resolve name).2 _ (Ne.symm hi)).trans (by rw [mail_resolve])

theorem exchange_drain (hf : Footing s.stage log) {name : String} (hc : s.control = .perform (.drain name)) :
    s.Exchanges h := by
  have hstep : s.step = s.perform (.drain name) := by rw [step, hc]
  have hstands : s.step.stands h = s.stands h := by
    rw [hstep]
    simp [perform, reply, stands, hc, Control.stands]
  by_cases hi : (s.resolve name).1 = h
  · subst hi
    have hmail : s.step.mail (s.resolve name).1 = { s.mail (s.resolve name).1 with queue := [] } := by
      rw [hstep]
      refine (mail_mapHandle_self (s.resolve name).2 _ (lt_resolve hf name)).trans ?_
      rw [handle_resolve]
      rfl
    have hreturned : s.returnedEvents = (s.mail (s.resolve name).1).queue := by
      rw [returnedEvents, hstep]
      exact congrArg Handle.queue (handle_resolve s name _)
    have hdeals : s.deals (s.resolve name).1 = [.drained s.returnedEvents] := by simp [deals, hc]
    rw [Exchanges, hmail, hstands, hdeals, hreturned]
    exact .drains
  · refine exchange_none ?_ hstands (by simp [deals, hc, hi])
    rw [hstep]
    exact (mail_mapHandle_of_ne (s.resolve name).2 _ (Ne.symm hi)).trans (by rw [mail_resolve])

/-! ## One step -/

theorem exchange_pass {b : Bool} (hc : s.control = .pass b) : s.Exchanges h := by
  have hstep : s.step = s.pass b := by rw [step, hc]
  refine exchange_none (by rw [hstep, mail_pass]) ?_ (by simp [deals, hc])
  have hcontrol : (s.pass b).control.stands h = [] := by
    cases opening s b with
    | stalled hr ht h => rw [h]; rfl
    | failed k code hk h => rw [h]; rfl
    | deadlock k hk h => rw [h]; rfl
    | quiet k revents hk hids h => rw [h]; rfl
    | chosen k revents ids hk hne hids h => rw [h]; rfl
  rw [hstep, stands, stands, hcontrol, stack_pass, hc]
  rfl

theorem exchange_dispatch {ids : List Nat} {now : Nat} {ran : Bool} (hc : s.control = .dispatch ids now ran) :
    s.Exchanges h := by
  have hstep : s.step = s.dispatch ids now ran := by rw [step, hc]
  have hsame : (s.dispatch ids now ran).mail = s.mail ∧
      (s.dispatch ids now ran).stands h = s.stack.flatMap (Frame.stands h) := by
    unfold dispatch
    split
    · exact ⟨rfl, rfl⟩
    · split
      · exact ⟨rfl, rfl⟩
      · dsimp only
        split <;> exact ⟨rfl, rfl⟩
  refine exchange_none (by rw [hstep, hsame.1]) ?_ (by simp [deals, hc])
  rw [hstep, hsame.2, stands, hc]
  rfl

theorem deals_of_not_speaks (hs : ¬ Speaks s) : s.deals h = [] := by
  unfold deals
  split
  · next i e hc => exact absurd (.emit i e hc) hs
  · next i hc => exact absurd (.deliver i hc) hs
  · next i e done rest hc => exact absurd (.tell i e done rest hc) hs
  · next b i e done rest K hc hst => exact absurd (.heard i e done rest b K hc hst) hs
  · next name x hc => exact absurd (.subscribe name x hc) hs
  · next name hc => exact absurd (.drain name hc) hs
  · rfl

theorem stands_of_not_speaks (hs : ¬ Speaks s) : s.control.stands h = [] := by
  cases hc : s.control with
  | deliver i => exact absurd (.deliver i hc) hs
  | tell i e done rest => exact absurd (.tell i e done rest hc) hs
  | _ => rfl

/-- Every step deals with the events of a handle as its delivery stands. -/
theorem exchange_step (hf : Footing s.stage log) (hl : s.stands h ≠ [] → h < s.handles.length) : s.Exchanges h := by
  by_cases hs : Speaks s
  · cases hs with
    | pass b hc => exact exchange_pass hc
    | dispatch ids now ran hc => exact exchange_dispatch hc
    | called v ids now K hc hst =>
      refine exchange_none ?_ ?_ ?_
      · rw [step_value hc hst]; rfl
      · rw [step_value hc hst]
        simp [resume, stands, hc, hst, Control.stands, Frame.stands]
      · rw [deals, hc, hst]
        cases v <;> rfl
    | emit i e hc => exact exchange_emit hc (hf.due i e (by rw [stage, hc]; rfl))
    | deliver i hc => exact exchange_deliver hc hl
    | tell i e done rest hc => exact exchange_tell hc hl
    | heard i e done rest b K hc hst => exact exchange_heard hc hst
    | subscribe name x hc => exact exchange_subscribe hf hc
    | drain name hc => exact exchange_drain hf hc
  · obtain ⟨K, ht, hK⟩ := (speaks_or_tacit s).resolve_left hs
    refine exchange_none (congrFun ht.mail h) ?_ (deals_of_not_speaks hs)
    rw [ht.stands, stands, stands_of_not_speaks hs, List.nil_append]
    rcases hK with rfl | ⟨v, f, -, hst, hf⟩
    · rfl
    · have hnone : f.stands h = [] := by
        cases f <;> first | rfl | cases hf
      rw [hst, List.flatMap_cons, hnone, List.nil_append]

end Machine

end Overseer
