import Overseer.Proofs.DeedInvariants

/-!
# What a deed does to the output of a handle

    keeps      pipes may be closed
    spawned    the next generation begins, with new pipes
    read       a pipe of the present generation is read, and what was read is due to be told
    put        what was due enters the outbox
    handed     the oldest event leaves the outbox

What was read, told, put and drawn is gathered from a log, the oldest first.

Main statement: `Loud.flow`.
-/

namespace Overseer

open Supervisor
open Kernel (Stream)

theorem Kernel.length_read {k : Kernel} {pid : Int} {st : Stream} {size : Nat} {bytes : Bytes}
    (h : (k.read pid st size).1 = .ok bytes) : bytes.length ≤ size := by
  unfold Kernel.read at h
  split at h
  · cases h
  · split at h
    · cases h
    · split at h
      · split at h
        · cases h
        · cases h
          exact Nat.zero_le _
      · cases h
        exact List.length_take_le _ _

namespace Supervisor

/-- The stream of which an event tells. -/
def Event.stream? : Event → Option Stream
  | .chunk st _ => some st
  | .ioError st _ => some st
  | .reaped _ => none

def Event.bytes : Event → Bytes
  | .chunk _ bytes => bytes
  | _ => []

def Event.isFault : Event → Bool
  | .ioError .. => true
  | _ => false

/-- The bytes that a read has returned. -/
def answerBytes : Except Int Bytes → Bytes
  | .ok bytes => bytes
  | .error _ => []

/-- What an entry says was read of a stream of generation `g` of handle `h`. -/
def Entry.bytesRead (h g : Nat) (st : Stream) : Entry → Bytes
  | read i j st' r => if i = h ∧ j = g ∧ st' = st then answerBytes r else []
  | _ => []

/-- The event that an entry tells of a stream of generation `g` of handle `h`. -/
def Entry.told? (h g : Nat) (st : Stream) : Entry → Option Event
  | emitted i j e => if i = h ∧ j = g ∧ e.stream? = some st then some e else none
  | _ => none

/-- The bytes read of a stream, the oldest first. -/
def bytesRead (h g : Nat) (st : Stream) (log : List Entry) : Bytes :=
  log.reverse.flatMap (Entry.bytesRead h g st)

/-- A read of a stream has failed for good. -/
def Failed (h g : Nat) (st : Stream) (log : List Entry) : Prop :=
  ∃ e, .read h g st (.error e) ∈ log ∧ readEnds (.error e) = true

/-- The events told of a stream, the oldest first. -/
def told (h g : Nat) (st : Stream) (log : List Entry) : List Event :=
  log.reverse.filterMap (Entry.told? h g st)

/-- The event of a stream of handle `h` that is told next. -/
def dueOf (h : Nat) (st : Stream) (d : Option (Nat × Event)) : List Event :=
  (d.toList.filter fun x => x.1 = h ∧ x.2.stream? = some st).map (·.2)

/-- The generation of handle `h` that puts an event into its outbox. -/
def Entry.age? (h : Nat) : Entry → Option Nat
  | emitted i g _ => if i = h then some g else none
  | _ => none

/-- The event that an entry puts into the outbox of handle `h`. -/
def Entry.put? (h : Nat) : Entry → Option Event
  | emitted i _ e => if i = h then some e else none
  | _ => none

/-- The event that an entry draws from the outbox of handle `h`. -/
def Entry.drawn? (h : Nat) : Entry → Option Event
  | delivering i e _ => if i = h then some e else none
  | queued i e => if i = h then some e else none
  | _ => none

/-- The generations of a handle's events, the oldest event first. -/
def ages (h : Nat) (log : List Entry) : List Nat := log.reverse.filterMap (Entry.age? h)

/-- The events put into an outbox, the oldest first. -/
def puts (h : Nat) (log : List Entry) : List Event := log.reverse.filterMap (Entry.put? h)

/-- The events drawn from an outbox, the oldest first. -/
def drawn (h : Nat) (log : List Entry) : List Event := log.reverse.filterMap (Entry.drawn? h)

def Entry.execution? : Entry → Option Execution
  | executed e => some e
  | _ => none

/-- How the child of generation `g` of handle `h` was executed. -/
def opened (h g : Nat) : List Entry → Option Execution
  | [] => none
  | .spawned i j _ :: log => if i = h ∧ j = g then log.findSome? Entry.execution? else opened h g log
  | _ :: log => opened h g log

/-- A stream of generation `g` of handle `h` is captured. -/
def Captured (h g : Nat) (st : Stream) (log : List Entry) : Prop :=
  ∃ e, opened h g log = some e ∧ e.mode st = .pipe

/-- Neither a read nor an event of handle `h`. -/
def Entry.isMute (h : Nat) : Entry → Bool
  | read i _ _ _ => i != h
  | emitted i _ _ => i != h
  | delivering i _ _ => i != h
  | queued i _ => i != h
  | _ => true

end Supervisor

namespace Machine

/-- What one deed of a step that starts from `o` does to the output of the handle `h`: nothing but that
pipes may be closed, or a new generation begins, a stream is read, an event is put into the outbox, or
one is drawn from it. -/
inductive Flow (o : Machine) (chunk : Nat) (h : Nat) (x : Handle) (d : Option (Nat × Event))
    (es : List Entry) (y : Handle) (d' : Option (Nat × Event)) : Prop
  | keeps (hg : y.generation = x.generation)
      (hp : ∀ st, y.pipe st = x.pipe st ∨ (y.pipe st = none ∧ y.state ≠ .running))
      (hb : y.outbox = x.outbox) (he : ∀ e ∈ es, e.isMute h = true)
      (hd : ∀ st, dueOf h st d' = dueOf h st d)
  | spawned (hg : y.generation = x.generation + 1)
      (hp : ∀ st p, y.pipe st = some p → .spawned h y.generation p.pid ∈ es)
      (ho : ∃ e, (∀ log, opened h y.generation (es ++ log) = some e) ∧
        ∀ st, (y.pipe st).isSome ↔ e.mode st = .pipe) (hb : y.outbox = x.outbox)
      (he : ∀ e ∈ es, e.isMute h = true) (hd : d = none) (hd' : d' = none)
  | read (st : Stream) (p : Pipe) (r : Except Int Bytes) (more : List Entry)
      (hx₀ : x.life = (o.handle h).life) (hx : x.pipe st = some p)
      (hk : r = (o.kernel.read p.pid st o.config.chunk).1)
      (hlen : ∀ bytes, r = .ok bytes → bytes.length ≤ chunk) (hg : y.generation = x.generation)
      (hp : ∀ st', y.pipe st' = if readEnds r = true ∧ st' = st then none else x.pipe st')
      (hb : y.outbox = x.outbox) (he : es = more ++ [.read h x.generation st r])
      (hm : ∀ e ∈ more, e.isMute h = true) (hd : d = none) (hd' : d' = (readSays st r).map (h, ·))
  | put (e : Event) (hg : y.generation = x.generation) (hp : ∀ st, y.pipe st = x.pipe st)
      (hb : y.outbox = x.outbox ++ [e]) (he : es = [.emitted h x.generation e]) (hd : d = some (h, e))
      (hd' : d' = none)
  | handed (e : Event) (entry : Entry) (hg : y.generation = x.generation)
      (hp : ∀ st, y.pipe st = x.pipe st) (hb : x.outbox = e :: y.outbox) (he : es = [entry])
      (hentry : entry = .queued h e ∨ ∃ n, entry = .delivering h e n) (hd : d' = d)

variable {o s t : Machine} {σ τ : Stage} {log : List Entry} {h : Nat} {x y : Handle}

/-! ## How a child was executed -/

theorem opened_append {g : Nat} {es : List Entry} (hno : ∀ p, .spawned h g p ∉ es) (log : List Entry) :
    opened h g (es ++ log) = opened h g log := by
  induction es with
  | nil => rfl
  | cons e es ih =>
    have hrest := ih fun p hm => hno p (List.mem_cons_of_mem _ hm)
    cases e with
    | spawned i j p =>
      have hne : ¬ (i = h ∧ j = g) := by
        rintro ⟨rfl, rfl⟩
        exact hno p List.mem_cons_self
      exact (if_neg hne).trans hrest
    | _ => exact hrest

/-- A child is executed right before it is told of. -/
theorem opened_spawned {g : Nat} {e : Execution} {pid : Int} {before after : List Entry}
    (hb : ∀ e ∈ before, e.isWiring = true) (ha : ∀ e ∈ after, e.isWiring = true) (log : List Entry) :
    opened h g (after ++ .spawned h g pid :: (before ++ [.executed e]) ++ log) = some e := by
  have hbefore : before.findSome? Entry.execution? = none := by
    refine List.findSome?_eq_none_iff.2 fun e hm => ?_
    cases e with
    | executed e => cases hb _ hm
    | _ => rfl
  rw [List.append_assoc, opened_append fun p hm => by cases ha _ hm]
  have hlast : (before ++ ([Entry.executed e] ++ log)).findSome? Entry.execution? = some e := by
    rw [List.findSome?_append, hbefore]
    rfl
  rw [← List.append_assoc] at hlast
  exact (if_pos ⟨rfl, rfl⟩).trans hlast

/-! ## Every deed is a flow -/

theorem Entry.isMute_of_isLow {e : Entry} (he : e.isLow = true) (h : Nat) : e.isMute h = true := by
  cases e <;> first | rfl | cases he

theorem Entry.isMute_of_isStir {e : Entry} (he : e.isStir = true) (h : Nat) : e.isMute h = true := by
  cases e <;> first | rfl | cases he

theorem Entry.isMute_of_isWiring {e : Entry} (he : e.isWiring = true) (h : Nat) : e.isMute h = true := by
  cases e <;> first | rfl | cases he

theorem Entry.isMute_of_isUnwiring {e : Entry} (he : e.isUnwiring = true) (h : Nat) :
    e.isMute h = true := by
  cases e <;> first | rfl | cases he

theorem flow_of_handle {chunk : Nat} {es : List Entry} {d d' : Option (Nat × Event)} (hy : y = x)
    (he : ∀ e ∈ es, e.isMute h = true) (hd : ∀ st, dueOf h st d' = dueOf h st d) :
    Flow o chunk h x d es y d' := by
  subst hy
  exact .keeps rfl (fun _ => .inl rfl) rfl he hd

theorem pipe_of_life (hl : y.life = x.life) (st : Stream) : y.pipe st = x.pipe st := by
  cases st with
  | out => exact congrArg Life.out hl
  | err => exact congrArg Life.err hl

theorem dueOf_of_ne {i : Nat} (hi : i ≠ h) (st : Stream) (e : Option Event) :
    dueOf h st (e.map (i, ·)) = [] := by
  cases e <;> simp [dueOf, hi]

theorem Level.flow {chunk : Nat} {es : List Entry} (hl : Level s t) (he : ∀ e ∈ es, e.isLow = true)
    (o : Machine) (d : Option (Nat × Event)) (h : Nat) : Flow o chunk h (s.handle h) d es (t.handle h) d :=
  .keeps (hl.generation h) (fun st => .inl (hl.pipe h st)) (hl.outbox h)
    (fun e hm => Entry.isMute_of_isLow (he e hm) h) fun _ => rfl

/-- A child that is adopted begins a new generation of its handle. -/
theorem Adoption.flow {i : Nat} {e : Execution} {pid : Int} {k : Kernel} (chunk : Nat)
    (ha : Adoption ((s.record (.executed e)).withKernel k) t i e pid) : ∃ es, t.journal = es ++ s.journal ∧
      ∀ h, Flow o chunk h (s.handle h) none es (t.handle h) none := by
  obtain ⟨before, after, hj, hb, haf⟩ := ha.journal
  refine ⟨after ++ .spawned i ((s.handle i).generation + 1) pid :: (before ++ [.executed e]), ?_, fun h => ?_⟩
  · rw [hj, List.append_assoc, List.cons_append, List.append_assoc]
    rfl
  have hmute : ∀ e' ∈ after ++ .spawned i ((s.handle i).generation + 1) pid :: (before ++ [.executed e]),
      e'.isMute h = true := by
    intro e' hm
    rcases List.mem_append.1 hm with hm | hm
    · exact Entry.isMute_of_isWiring (haf e' hm) h
    · rcases List.mem_cons.1 hm with rfl | hm
      · rfl
      · rcases List.mem_append.1 hm with hm | hm
        · exact Entry.isMute_of_isWiring (hb e' hm) h
        · rw [List.mem_singleton.1 hm]
          rfl
  by_cases hi : h = i
  · subst hi
    obtain ⟨out, err, hlife⟩ := ha.life
    have hgen : (t.handle h).generation = (s.handle h).generation + 1 := congrArg Life.generation hlife
    refine .spawned hgen (fun st p hp => ?_) ⟨e, fun log => ?_, fun st => ⟨fun hsome => ?_, ha.captured st⟩⟩
      ha.outbox hmute rfl rfl
    · rw [hgen, (ha.pipe st p hp).1]
      exact List.mem_append_right _ List.mem_cons_self
    · rw [hgen]
      exact opened_spawned hb haf log
    · obtain ⟨p, hp⟩ := Option.isSome_iff_exists.1 hsome
      exact (ha.pipe st p hp).2.1
  · exact flow_of_handle (ha.others h hi) hmute fun _ => rfl

/-- A handle that is closed loses its pipes. -/
theorem flow_close (ht : s.loop.Tidy) (chunk i : Nat) : ∃ es, (s.close i).journal = es ++ s.journal ∧
    ∀ h, Flow o chunk h (s.handle h) none es ((s.close i).handle h) none := by
  by_cases hlive : (s.handle i).state = .running ∨ (s.handle i).state = .reaped
  · have hclosure := closure_close s ht hlive
    obtain ⟨es, he, hes⟩ := hclosure.journal
    refine ⟨es, he, fun h => ?_⟩
    have hmute : ∀ e ∈ es, e.isMute h = true := fun e hm => Entry.isMute_of_isUnwiring (hes e hm).1 h
    by_cases hi : h = i
    · subst hi
      have hlife := (closed_close s hlive).handle
      have hstate : ((s.close h).handle h).state = .closed := congrArg Life.state hlife
      refine .keeps (congrArg Life.generation hlife) (fun st => .inr ⟨?_, by rw [hstate]; simp⟩)
        hclosure.outbox hmute fun _ => rfl
      cases st with
      | out => exact congrArg Life.out hlife
      | err => exact congrArg Life.err hlife
    · exact flow_of_handle (hclosure.others h hi) hmute fun _ => rfl
  · rw [close_eq_self s hlive]
    exact ⟨[], rfl, fun h => flow_of_handle rfl (by simp) fun _ => rfl⟩

theorem mute_read {i g : Nat} {st : Stream} {r : Except Int Bytes} (hi : i ≠ h) :
    (Entry.read i g st r).isMute h = true := by
  simpa [Entry.isMute] using hi

theorem Loud.flow {news : List Entry} (hfoot : Footing σ log) (hl : Loud o σ τ)
    (hj : τ.machine.journal = news ++ σ.machine.journal) (h : Nat) :
    Flow o σ.machine.config.chunk h (σ.machine.handle h) σ.due news (τ.machine.handle h) τ.due := by
  have hnews : ∀ es, τ.machine.journal = es ++ σ.machine.journal → es = news := fun _ he =>
    List.append_cancel_right (he.symm.trans hj)
  cases hl with
  | stirred hs =>
    have hb := hs.bystanding
    obtain ⟨es, he, hes⟩ := hb.journal
    obtain rfl := hnews _ he
    exact flow_of_handle (by rw [handle, handle, hb.handles])
      (fun e hm => Entry.isMute_of_isStir (hes e hm) h) fun _ => rfl
  | @adopted s D i c e pid k hname hstate hsp he hk hs =>
    have ha := adoption_adopt ((s.record (.executed e)).withKernel k) hfoot.tidy (hfoot.lt_of_named hname) c e pid
    obtain ⟨es, he, hflow⟩ := ha.flow s.config.chunk
    obtain rfl := hnews es he
    exact hflow h
  | @closed s D i hc hs hlast hrs =>
    obtain ⟨es, he, hflow⟩ := flow_close hfoot.tidy s.config.chunk i
    obtain rfl := hnews es he
    exact hflow h
  | @reaped s D x hg hrun hs =>
    obtain rfl := hnews [] rfl
    have hmap := handle_mapHandle s x.h h
      fun y => { y with state := .reaped, status := some x.status, childWatch := none }
    have hdue : ∀ st, dueOf h st (some (x.h, .reaped x.status)) = dueOf h st none := by
      intro st
      simp [dueOf, Event.stream?]
    split at hmap
    · next hi =>
      obtain ⟨rfl, -⟩ := hi
      refine .keeps ?_ (fun st => .inl ?_) ?_ (by simp) hdue
      · rw [hmap]
      · rw [hmap]
        cases st <;> rfl
      · rw [hmap]
    · exact flow_of_handle hmap (by simp) hdue
  | @read s D i st p r hp hr hk hc hs =>
    obtain rfl := hnews [.read i (s.handle i).generation st r] rfl
    by_cases hi : i = h
    · subst hi
      refine .read st p r [] (hs.life i) hp hk (fun bytes hb => ?_) rfl (fun st' => ?_) rfl rfl (by simp)
        rfl rfl
      · rw [hb] at hk
        rw [hc]
        exact Kernel.length_read hk.symm
      · rw [hr, if_neg (by simp)]
        rfl
    · refine flow_of_handle rfl (fun e hm => ?_) fun st' => dueOf_of_ne hi st' _
      rw [List.mem_singleton.1 hm]
      exact mute_read hi
  | @finished s D i st p r n hp hr hk hs =>
    have hrel := release_releaseStream hp r n
    obtain ⟨es, he, hes⟩ := hrel.journal
    obtain rfl := hnews (es ++ [.read i (s.handle i).generation st r])
      (by rw [he, List.append_assoc]; rfl)
    have hmute : ∀ e ∈ es, e.isMute h = true := by
      intro e hm
      rcases hes e hm with hmere | ⟨b, rfl⟩
      · exact Entry.isMute_of_isLow (Entry.isLow_of_isMere hmere) h
      · rfl
    by_cases hi : i = h
    · subst hi
      refine .read st p r es (hs.life i) hp hk (fun bytes hb => ?_) ?_ (fun st' => ?_) ?_ rfl hmute rfl rfl
      · rw [hb] at hr
        rw [List.isEmpty_iff.1 hr]
        exact Nat.zero_le _
      · rw [hrel.handle]
        cases st <;> rfl
      · rw [hrel.handle]
        cases st <;> cases st' <;> simp [Handle.dropPipe, Handle.pipe, hr]
      · rw [hrel.handle]
        cases st <;> rfl
    · refine flow_of_handle (hrel.others h fun he => hi he.symm) (fun e hm => ?_) fun st' => dueOf_of_ne hi st' _
      rcases List.mem_append.1 hm with hm | hm
      · exact hmute e hm
      · rw [List.mem_singleton.1 hm]
        exact mute_read hi
  | @emitted s D i e f hlife hf hs =>
    obtain rfl := hnews [.emitted i (s.handle i).generation e] rfl
    by_cases hi : h = i
    · subst hi
      have hmap : ((s.record (.emitted h (s.handle h).generation e)).mapHandle h f).handle h = f (s.handle h) :=
        handle_mapHandle_self _ f (hfoot.due h e rfl)
      refine .put e ?_ (fun st => ?_) ?_ rfl rfl rfl
      · rw [hmap]
        exact congrArg Life.generation (hlife _)
      · rw [hmap]
        exact pipe_of_life (hlife _) st
      · rw [hmap]
        exact hf _
    · refine flow_of_handle (handle_mapHandle_of_ne _ f (.inl hi)) (fun e' hm => ?_) fun st => ?_
      · rw [List.mem_singleton.1 hm]
        have hne : i ≠ h := fun he => hi he.symm
        simpa [Entry.isMute] using hne
      · exact (dueOf_of_ne (fun he => hi he.symm) st (some e)).symm
  | @handed s D i e rest entry f hbox hentry hlife hf =>
    obtain rfl := hnews [entry] rfl
    by_cases hi : h = i
    · subst hi
      have hmap : ((s.mapHandle h f).record entry).handle h = f (s.handle h) := by
        refine handle_mapHandle_self s f (lt_of_ne_fresh fun hfresh => ?_)
        rw [hfresh] at hbox
        cases hbox
      refine .handed e entry ?_ (fun st => ?_) ?_ rfl hentry rfl
      · rw [hmap]
        exact congrArg Life.generation (hlife _)
      · rw [hmap]
        exact pipe_of_life (hlife _) st
      · rw [hmap, hf]
        exact hbox
    · refine flow_of_handle (handle_mapHandle_of_ne s f (.inl hi)) (fun e' hm => ?_) fun st => rfl
      have hne : i ≠ h := fun he => hi he.symm
      rw [List.mem_singleton.1 hm]
      rcases hentry with rfl | ⟨n, rfl⟩
      · simpa [Entry.isMute] using hne
      · simpa [Entry.isMute] using hne

/-! ## What is gathered -/

theorem bytesRead_append (h g : Nat) (st : Stream) (es log : List Entry) :
    bytesRead h g st (es ++ log) = bytesRead h g st log ++ bytesRead h g st es := by
  rw [bytesRead, List.reverse_append, List.flatMap_append]
  rfl

/-- What is gathered from a log comes behind what was gathered before. -/
theorem gathered_append {α : Type} (f : Entry → Option α) (es log : List Entry) :
    (es ++ log).reverse.filterMap f = log.reverse.filterMap f ++ es.reverse.filterMap f := by
  rw [List.reverse_append, List.filterMap_append]

theorem gathered_mute {α : Type} {f : Entry → Option α} {es : List Entry}
    (hf : ∀ e : Entry, e.isMute h = true → f e = none) (he : ∀ e ∈ es, e.isMute h = true) :
    es.reverse.filterMap f = [] :=
  List.filterMap_eq_nil_iff.2 fun e hm => hf e (he e (List.mem_reverse.1 hm))

theorem told?_mute {g : Nat} {st : Stream} {e : Entry} (he : e.isMute h = true) :
    Entry.told? h g st e = none := by
  cases e with
  | emitted i j e => exact if_neg fun hi => by simp [Entry.isMute, hi.1] at he
  | _ => rfl

theorem age?_mute {e : Entry} (he : e.isMute h = true) : Entry.age? h e = none := by
  cases e with
  | emitted i j e => exact if_neg fun hi => by simp [Entry.isMute, hi] at he
  | _ => rfl

theorem put?_mute {e : Entry} (he : e.isMute h = true) : Entry.put? h e = none := by
  cases e with
  | emitted i j e => exact if_neg fun hi => by simp [Entry.isMute, hi] at he
  | _ => rfl

theorem drawn?_mute {e : Entry} (he : e.isMute h = true) : Entry.drawn? h e = none := by
  cases e with
  | delivering i e n => exact if_neg fun hi => by simp [Entry.isMute, hi] at he
  | queued i e => exact if_neg fun hi => by simp [Entry.isMute, hi] at he
  | _ => rfl

theorem bytesRead_of_unread {g : Nat} {st : Stream} {log : List Entry} (hno : ∀ r, .read h g st r ∉ log) :
    bytesRead h g st log = [] := by
  refine List.flatMap_eq_nil_iff.2 fun e hm => ?_
  have hm := List.mem_reverse.1 hm
  cases e with
  | read i j st' r =>
    refine if_neg ?_
    rintro ⟨rfl, rfl, rfl⟩
    exact hno r hm
  | _ => rfl

theorem unread_of_mute {g : Nat} {st : Stream} {r : Except Int Bytes} {es : List Entry}
    (he : ∀ e ∈ es, e.isMute h = true) : .read h g st r ∉ es := by
  intro hm
  have hmute := he _ hm
  simp [Entry.isMute] at hmute

theorem bytesRead_mute {es : List Entry} (he : ∀ e ∈ es, e.isMute h = true) (g : Nat) (st : Stream) :
    bytesRead h g st es = [] :=
  bytesRead_of_unread fun _ => unread_of_mute he

theorem told_append (h g : Nat) (st : Stream) (es log : List Entry) :
    told h g st (es ++ log) = told h g st log ++ told h g st es :=
  gathered_append _ es log

theorem told_mute {es : List Entry} (he : ∀ e ∈ es, e.isMute h = true) (g : Nat) (st : Stream) :
    told h g st es = [] :=
  gathered_mute (fun _ he => told?_mute he) he

/-- A handle keeps its generation and opens no pipe, or it begins the next generation. -/
theorem Flow.onward {chunk : Nat} {d d' : Option (Nat × Event)} {es : List Entry}
    (hf : Flow o chunk h x d es y d') :
    (y.generation = x.generation ∧ ∀ st, y.pipe st = x.pipe st ∨ y.pipe st = none) ∨
      (y.generation = x.generation + 1 ∧
        ∀ st p, y.pipe st = some p → .spawned h y.generation p.pid ∈ es) := by
  cases hf with
  | keeps hg hp hb he hd => exact .inl ⟨hg, fun st => (hp st).imp_right And.left⟩
  | spawned hg hp ho hb he hd hd' => exact .inr ⟨hg, hp⟩
  | read st p r more hx₀ hx hk hlen hg hp hb he hm hd hd' =>
    refine .inl ⟨hg, fun st' => ?_⟩
    rw [hp]
    split
    · exact .inr rfl
    · exact .inl rfl
  | put e hg hp hb he hd hd' => exact .inl ⟨hg, fun st => .inl (hp st)⟩
  | handed e entry hg hp hb he hentry hd => exact .inl ⟨hg, fun st => .inl (hp st)⟩

/-- An event enters the outbox with the generation that its handle has, and one that leaves it is the
oldest there. -/
theorem Flow.ledger {chunk : Nat} {d d' : Option (Nat × Event)} {es : List Entry}
    (hf : Flow o chunk h x d es y d') :
    (ages h es = [] ∨ ages h es = [x.generation]) ∧
      x.outbox ++ puts h es = drawn h es ++ y.outbox := by
  have mute : ∀ {es : List Entry}, (∀ e ∈ es, e.isMute h = true) →
      ages h es = [] ∧ puts h es = [] ∧ drawn h es = [] := fun he =>
    ⟨gathered_mute (fun _ he => age?_mute he) he, gathered_mute (fun _ he => put?_mute he) he,
      gathered_mute (fun _ he => drawn?_mute he) he⟩
  cases hf with
  | keeps hg hp hb he hd =>
    obtain ⟨hages, hputs, hdrawn⟩ := mute he
    refine ⟨.inl hages, ?_⟩
    rw [hputs, hdrawn, hb, List.append_nil]
    rfl
  | spawned hg hp ho hb he hd hd' =>
    obtain ⟨hages, hputs, hdrawn⟩ := mute he
    refine ⟨.inl hages, ?_⟩
    rw [hputs, hdrawn, hb, List.append_nil]
    rfl
  | read st p r more hx₀ hx hk hlen hg hp hb he hm hd hd' =>
    obtain ⟨hages, hputs, hdrawn⟩ := mute hm
    subst he
    have hfirst : ∀ {α : Type} (f : Entry → Option α), f (Entry.read h x.generation st r) = none →
        (more ++ [Entry.read h x.generation st r]).reverse.filterMap f = more.reverse.filterMap f := by
      intro α f hnone
      rw [gathered_append]
      simp [hnone]
    refine ⟨.inl ((hfirst (Entry.age? h) rfl).trans hages), ?_⟩
    rw [puts, drawn, hfirst (Entry.put? h) rfl, hfirst (Entry.drawn? h) rfl, ← puts, ← drawn, hputs,
      hdrawn, hb, List.append_nil]
    rfl
  | put e hg hp hb he hd hd' =>
    subst he
    refine ⟨.inr (by simp [ages, Entry.age?]), ?_⟩
    rw [hb]
    simp [puts, drawn, Entry.put?, Entry.drawn?]
  | handed e entry hg hp hb he hentry hd =>
    subst he
    rcases hentry with rfl | ⟨n, rfl⟩
    · exact ⟨.inl rfl, by simp [puts, drawn, Entry.put?, Entry.drawn?, hb]⟩
    · exact ⟨.inl rfl, by simp [puts, drawn, Entry.put?, Entry.drawn?, hb]⟩

/-- A stream of the present generation is read, from the pipe that is open for it. -/
theorem Flow.reads {chunk g : Nat} {d d' : Option (Nat × Event)} {es : List Entry} {st : Stream}
    {r : Except Int Bytes} (hf : Flow o chunk h x d es y d') (hm : .read h g st r ∈ es) :
    x.life = (o.handle h).life ∧ g = x.generation ∧
      ∃ p, x.pipe st = some p ∧ r = (o.kernel.read p.pid st o.config.chunk).1 := by
  cases hf with
  | keeps hg hp hb he hd => exact absurd hm (unread_of_mute he)
  | spawned hg hp ho hb he hd hd' => exact absurd hm (unread_of_mute he)
  | read st' p r' more hx₀ hx hk hlen hg hp hb he hmore hd hd' =>
    subst he
    rcases List.mem_append.1 hm with hm | hm
    · exact absurd hm (unread_of_mute hmore)
    · obtain ⟨rfl, rfl, rfl⟩ : g = x.generation ∧ st = st' ∧ r = r' := by simpa using hm
      exact ⟨hx₀, rfl, p, hx, hk⟩
  | put e hg hp hb he hd hd' =>
    subst he
    simp at hm
  | handed e entry hg hp hb he hentry hd =>
    subst he
    rcases hentry with rfl | ⟨n, rfl⟩
    · simp at hm
    · simp at hm

end Machine

end Overseer
