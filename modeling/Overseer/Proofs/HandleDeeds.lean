import Overseer.Proofs.DeedInvariants
import Overseer.Proofs.Generations

/-!
# What a deed makes of a handle

A deed of a step leaves a handle with the state that it has, or it gives the handle another one: a new
child, an end, a closing.  The exit of a child is due when the handle is reaped, and is told next.

    keeps      the same state and status, and no pipe, input or watch that was not there
    spawned    →  running, in a new generation
    closed     →  closed
    reaped     →  reaped, and the exit is due
    told       the exit that was due is told

Main statement: `Loud.shift`.
-/

namespace Overseer

open Supervisor

namespace Supervisor

/-- The exit of generation `g` of handle `h` that an entry announces. -/
def Entry.announces? (h g : Nat) : Entry → Option ExitStatus
  | emitted i j (.reaped st) => if i = h ∧ j = g then some st else none
  | _ => none

/-- The exits announced of generation `g` of handle `h`. -/
def announced (h g : Nat) (log : List Entry) : List ExitStatus :=
  log.filterMap (Entry.announces? h g)

/-- The exit of handle `h` that is announced next. -/
def dueExit (h : Nat) : Option (Nat × Event) → List ExitStatus
  | some (i, .reaped st) => if i = h then [st] else []
  | _ => []

/-- Neither a spawn nor an event. -/
def Entry.isHushed : Entry → Bool
  | spawned .. => false
  | emitted .. => false
  | _ => true

end Supervisor

namespace Machine

/-- Of the handle `h` there is neither a birth nor an announcement. -/
structure Silent (h : Nat) (es : List Entry) : Prop where
  births : births h es = 0
  announced : ∀ g, announced h g es = []

/-- The same state, generation and status, and nothing new to be closed. -/
structure Slimmer (x y : Handle) : Prop where
  state : y.state = x.state
  generation : y.generation = x.generation
  pid : y.pid = x.pid
  status : y.status = x.status
  stdin : x.stdin = none → y.stdin = none
  out : x.out = none → y.out = none
  err : x.err = none → y.err = none
  childWatch : x.childWatch = none → y.childWatch = none

/-- What one deed of a step that starts from `o` makes of the handle `h`: it keeps its state, or it
enters another one, or its exit is told. -/
inductive Shift (o : Machine) (h : Nat) (x : Handle) (d : Option (Nat × Event)) (es : List Entry)
    (y : Handle) (d' : Option (Nat × Event)) : Prop
  | keeps (hs : Slimmer x y) (he : Silent h es) (hd : dueExit h d' = dueExit h d)
  | spawned (hx₀ : x.life = (o.handle h).life) (ho : o.spawning?.isSome) (hd : d = none) (hd' : d' = none)
      (hb : births h es = 1) (hnew : ∀ g p, .spawned h g p ∈ es → g = y.generation)
      (ha : ∀ g, announced h g es = []) (hx : x.state = .notStarted ∨ x.state = .closed)
      (hy : y.state = .running) (hg : y.generation = x.generation + 1) (hp : y.pid.isSome)
      (hs : y.status = none)
  | closed (hx₀ : x.life = (o.handle h).life) (hd : d = none) (hd' : d' = none) (he : Silent h es)
      (hx : x.state = .running ∨ x.state = .reaped)
      (hy : y.life = { x.life with state := .closed, stdin := none, out := none, err := none,
                                   childWatch := none })
  | reaped (st : ExitStatus) (hx₀ : x.life = (o.handle h).life) (hd : d = none) (hd' : d' = some (h, .reaped st))
      (he : es = []) (hx : x.state = .running)
      (hy : y = { x with state := .reaped, status := some st, childWatch := none })
  | told (st : ExitStatus) (hx₀ : x.life = (o.handle h).life) (hd : d = some (h, .reaped st)) (hd' : d' = none)
      (he : es = [.emitted h x.generation (.reaped st)]) (hy : y.life = x.life)

variable {o s t : Machine} {σ τ : Stage} {log : List Entry} {h : Nat} {x y : Handle}

/-! ## Lemmas -/

theorem announced_append (h g : Nat) (es log : List Entry) :
    announced h g (es ++ log) = announced h g es ++ announced h g log :=
  List.filterMap_append

theorem silent_of_hushed {es : List Entry} (he : ∀ e ∈ es, e.isHushed = true) (h : Nat) :
    Silent h es := by
  refine ⟨births_eq_zero.2 fun g p hm => ?_, fun g => ?_⟩
  · cases he _ hm
  refine List.filterMap_eq_nil_iff.2 fun e hm => ?_
  cases e with
  | emitted i j ev => cases he _ hm
  | _ => rfl

theorem silent_nil (h : Nat) : Silent h [] := ⟨rfl, fun _ => rfl⟩

theorem Slimmer.refl (x : Handle) : Slimmer x x := ⟨rfl, rfl, rfl, rfl, id, id, id, id⟩

theorem slimmer_of_life (hl : y.life = x.life) : Slimmer x y := by
  obtain ⟨hstate, hgen, hpid, -, hstatus, hin, hout, herr, hcw⟩ := Life.mk.inj hl
  refine ⟨hstate, hgen, hpid, hstatus, fun h => ?_, fun h => ?_, fun h => ?_, fun h => ?_⟩
  · rw [hin, h]
  · rw [hout, h]
  · rw [herr, h]
  · rw [hcw, h]

theorem Level.slimmer (hl : Level s t) (h : Nat) : Slimmer (s.handle h) (t.handle h) := by
  refine ⟨hl.state h, hl.generation h, hl.pid h, hl.status h, fun hn => ?_, fun hn => ?_, fun hn => ?_,
    fun hn => ?_⟩
  · rcases hl.stdin h with hs | hs
    · rw [hs, hn]
    · exact hs
  · exact (hl.pipe h .out).trans hn
  · exact (hl.pipe h .err).trans hn
  · rw [hl.childWatch, hn]

theorem slimmer_dropPipe (x : Handle) (st : Kernel.Stream) : Slimmer x (x.dropPipe st) := by
  cases st with
  | out => exact ⟨rfl, rfl, rfl, rfl, id, fun _ => rfl, id, id⟩
  | err => exact ⟨rfl, rfl, rfl, rfl, id, id, fun _ => rfl, id⟩

/-! ## Deeds -/

theorem Entry.isHushed_of_isLow {e : Entry} (h : e.isLow = true) : e.isHushed = true := by
  cases e <;> first | rfl | cases h

theorem Entry.isHushed_of_isStir {e : Entry} (h : e.isStir = true) : e.isHushed = true := by
  cases e <;> first | rfl | cases h

theorem Entry.isHushed_of_isWiring {e : Entry} (h : e.isWiring = true) : e.isHushed = true := by
  cases e <;> first | rfl | cases h

theorem Entry.isHushed_of_isUnwiring {e : Entry} (h : e.isUnwiring = true) : e.isHushed = true := by
  cases e <;> first | rfl | cases h

/-- An adoption tells of one birth, that of the handle's child, and of no exit. -/
theorem Adoption.tale {i : Nat} {e : Execution} {pid : Int} (ha : Adoption s t i e pid) :
    ∃ es, t.journal = es ++ s.journal ∧ (∀ h, births h es = if i = h then 1 else 0) ∧
      (∀ h g p, .spawned h g p ∈ es → g = (s.handle i).generation + 1) ∧
      ∀ h g, announced h g es = [] := by
  obtain ⟨before, after, hj, hb, haf⟩ := ha.journal
  have hbefore := silent_of_hushed fun e hm => Entry.isHushed_of_isWiring (hb e hm)
  have hafter := silent_of_hushed fun e hm => Entry.isHushed_of_isWiring (haf e hm)
  refine ⟨after ++ .spawned i ((s.handle i).generation + 1) pid :: before, by simp [hj], fun h => ?_,
    fun h g p hm => ?_, fun h g => ?_⟩
  · rw [births_append, (hafter h).births, births, List.countP_cons, ← births, (hbefore h).births]
    simp [Entry.isBirth]
  · rcases List.mem_append.1 hm with hm | hm
    · cases haf _ hm
    · rcases List.mem_cons.1 hm with he | hm
      · cases he
        rfl
      · cases hb _ hm
  · rw [announced_append, (hafter h).announced]
    exact (hbefore h).announced g

theorem Bystanding.shift {D D' : List Duty} (hb : Bystanding s t D D') {news : List Entry}
    (hj : t.journal = news ++ s.journal) (o : Machine) (d : Option (Nat × Event)) (h : Nat) :
    Shift o h (s.handle h) d news (t.handle h) d := by
  obtain ⟨es, he, hes⟩ := hb.journal
  obtain rfl : es = news := List.append_cancel_right (he.symm.trans hj)
  have hhandle : t.handle h = s.handle h := by rw [handle, handle, hb.handles]
  refine .keeps ?_ (silent_of_hushed (fun e hm => Entry.isHushed_of_isStir (hes e hm)) h) rfl
  rw [hhandle]
  exact .refl _

theorem dueExit_self (h : Nat) (st : ExitStatus) : dueExit h (some (h, .reaped st)) = [st] :=
  if_pos rfl

/-- Nothing that a read says is an exit. -/
theorem dueExit_readSays (h i : Nat) (st : Kernel.Stream) (r : Except Int Bytes) :
    dueExit h ((readSays st r).map (i, ·)) = [] := by
  unfold readSays
  split <;> split <;> rfl

/-- Each loud deed is a shift of each handle. -/
theorem Loud.shift {news : List Entry} (hf : Footing σ log) (hl : Loud o σ τ)
    (hj : τ.machine.journal = news ++ σ.machine.journal) (h : Nat) :
    Shift o h (σ.machine.handle h) σ.due news (τ.machine.handle h) τ.due := by
  have hnews : ∀ es, τ.machine.journal = es ++ σ.machine.journal → es = news := fun _ he =>
    List.append_cancel_right (he.symm.trans hj)
  cases hl with
  | stirred hs => exact hs.bystanding.shift hj o _ h
  | @adopted s D i c e pid k hname hstate hsp he hk hs =>
    have ha := adoption_adopt ((s.record (.executed e)).withKernel k) hf.tidy (hf.lt_of_named hname) c e pid
    obtain ⟨es, he, hes, hnew, hann⟩ := ha.tale
    obtain rfl := hnews (es ++ [.executed e]) (by rw [List.append_assoc]; exact he)
    have hbirths : births h (es ++ [.executed e]) = if i = h then 1 else 0 := by
      rw [births_append, hes]
      rfl
    have hann : ∀ g, announced h g (es ++ [.executed e]) = [] := by
      intro g
      rw [announced_append, hann]
      rfl
    by_cases hi : h = i
    · subst hi
      obtain ⟨out, err, hlife⟩ := ha.life
      have hgen : (Machine.handle _ h).generation = (s.handle h).generation + 1 := congrArg Life.generation hlife
      have hpid : (Machine.handle _ h).pid = some pid := congrArg Life.pid hlife
      rw [if_pos rfl] at hbirths
      refine .spawned (hs.life h) (by rw [hsp]; rfl) rfl rfl hbirths (fun g p hm => ?_) hann hstate
        (congrArg Life.state hlife) hgen (by rw [hpid]; rfl) (congrArg Life.status hlife)
      rw [hgen]
      exact hnew h g p (by simpa using hm)
    · rw [if_neg fun he => hi he.symm] at hbirths
      refine .keeps ?_ ⟨hbirths, hann⟩ rfl
      rw [ha.others h hi]
      exact .refl _
  | @closed s D i hc hs hlast hrs =>
    by_cases hlive : (s.handle i).state = .running ∨ (s.handle i).state = .reaped
    · have hclosure := closure_close s hf.tidy hlive
      obtain ⟨es, he, hes⟩ := hclosure.journal
      obtain rfl := hnews _ he
      have hsilent := silent_of_hushed (fun e hm => Entry.isHushed_of_isUnwiring (hes e hm).1) h
      by_cases hi : h = i
      · subst hi
        exact .closed (hs.life h) rfl rfl hsilent hlive (closed_close s hlive).handle
      · refine .keeps ?_ hsilent rfl
        rw [hclosure.others h hi]
        exact .refl _
    · rw [close_eq_self s hlive] at hj ⊢
      obtain rfl := hnews [] (by rw [close_eq_self s hlive]; rfl)
      exact .keeps (.refl _) (silent_nil h) rfl
  | @reaped s D x hg hrun hs =>
    obtain rfl := hnews [] rfl
    have hmap := handle_mapHandle s x.h h
      fun y => { y with state := .reaped, status := some x.status, childWatch := none }
    split at hmap
    · next hi =>
      obtain ⟨rfl, -⟩ := hi
      exact .reaped x.status (hs.life x.h) rfl rfl rfl hrun hmap
    · next hi =>
      have hne : x.h ≠ h := fun he => hi ⟨he.symm, by
        rw [he] at hrun ⊢
        exact lt_of_ne_fresh fun hf => by rw [hf] at hrun; cases hrun⟩
      refine .keeps ?_ (silent_nil h) (if_neg hne)
      rw [hmap]
      exact .refl _
  | @read s D i st p r hp hr hk hc hs =>
    obtain rfl := hnews [.read i (s.handle i).generation st r] rfl
    exact .keeps (.refl _) (silent_of_hushed (by simp [Entry.isHushed]) h) (dueExit_readSays h i st r)
  | @finished s D i st p r n hp hr hk hs =>
    have hrel := release_releaseStream hp r n
    obtain ⟨es, he, hes⟩ := hrel.journal
    obtain rfl := hnews (es ++ [.read i (s.handle i).generation st r])
      (by rw [he, List.append_assoc]; rfl)
    refine .keeps ?_ (silent_of_hushed (fun e hm => ?_) h) (dueExit_readSays h i st r)
    · by_cases hi : h = i
      · rw [hi, hrel.handle]
        exact slimmer_dropPipe _ st
      · rw [hrel.others h hi]
        exact .refl _
    · rcases List.mem_append.1 hm with hm | hm
      · rcases hes e hm with hmere | ⟨b, rfl⟩
        · exact Entry.isHushed_of_isLow (Entry.isLow_of_isMere hmere)
        · rfl
      · rw [List.mem_singleton.1 hm]
        rfl
  | @emitted s D i e f hlife hf hs =>
    obtain rfl := hnews [.emitted i (s.handle i).generation e] rfl
    have hl : (((s.record (.emitted i (s.handle i).generation e)).mapHandle i f).handle h).life =
        (s.handle h).life := life_mapHandle _ i h hlife
    cases e with
    | reaped st =>
      by_cases hi : i = h
      · subst hi
        exact .told st (hs.life i) rfl rfl rfl hl
      · refine .keeps (slimmer_of_life hl) ⟨rfl, fun g => ?_⟩ (if_neg hi).symm
        have hne : Entry.announces? h g (.emitted i (s.handle i).generation (.reaped st)) = none :=
          if_neg fun he => hi he.1
        rw [announced, List.filterMap_cons_none hne, List.filterMap_nil]
    | chunk st bytes => exact .keeps (slimmer_of_life hl) ⟨rfl, fun g => rfl⟩ rfl
    | ioError st c => exact .keeps (slimmer_of_life hl) ⟨rfl, fun g => rfl⟩ rfl
  | @handed s D i e rest entry f hbox hentry hlife hf =>
    obtain rfl := hnews [entry] rfl
    have hl : ((s.mapHandle i f).handle h).life = (s.handle h).life := life_mapHandle s i h hlife
    refine .keeps (slimmer_of_life hl) (silent_of_hushed (fun e' hm => ?_) h) rfl
    rw [List.mem_singleton.1 hm]
    rcases hentry with rfl | ⟨n, rfl⟩
    · rfl
    · rfl

theorem Level.shift {es : List Entry} (hl : Level s t) (he : ∀ e ∈ es, e.isLow = true)
    (o : Machine) (d : Option (Nat × Event)) (h : Nat) :
    Shift o h (s.handle h) d es (t.handle h) d :=
  .keeps (hl.slimmer h) (silent_of_hushed (fun e hm => Entry.isHushed_of_isLow (he e hm)) h) rfl

end Machine

end Overseer
