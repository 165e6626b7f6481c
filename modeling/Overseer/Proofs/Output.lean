import Overseer.Proofs.OutputDeeds

/-!
# Captured output

What is read of a stream is told in the same order, chunk by chunk, and nothing else is.

    bytes read of a stream   =  bytes told of it ++ bytes in hand
    events put in an outbox  =  events drawn from it ++ events in it

A stream that has failed says so once and is silent afterwards, and a generation speaks before the
next one does.

Main statement: `output_run`.
-/

namespace Overseer

open Supervisor
open Kernel (Stream)

namespace Machine

/-- The events told of a stream, and the one that is told of it next. -/
def saying (h : Nat) (x : Handle) (d : Option (Nat × Event)) (log : List Entry) (g : Nat) (st : Stream) :
    List Event :=
  told h g st log ++ if g = x.generation then dueOf h st d else []

/-- The handle `h` has told what was read, and nothing else. -/
structure Faithful (chunk : Nat) (h : Nat) (x : Handle) (d : Option (Nat × Event)) (log : List Entry) :
    Prop where
  bytes : ∀ g st, bytesRead h g st log = (saying h x d log g st).flatMap Event.bytes
  chunk : ∀ g st, ∀ e ∈ saying h x d log g st,
    e.isFault = true ∨ (e.bytes ≠ [] ∧ e.bytes.length ≤ chunk)
  last : ∀ g st before e after, saying h x d log g st = before ++ e :: after → e.isFault = true → after = []
  lapsed : ∀ st, ∀ e ∈ saying h x d log x.generation st, e.isFault = true → x.pipe st = none
  future : ∀ g st, x.generation < g → saying h x d log g st = []
  failed : ∀ g st, Failed h g st log → ∃ e ∈ saying h x d log g st, e.isFault = true
  ages : (ages h log).Pairwise (· ≤ ·)
  age : ∀ g ∈ Supervisor.ages h log, g ≤ x.generation
  outbox : puts h log = drawn h log ++ x.outbox
  source : ∀ st p, x.pipe st = some p → .spawned h x.generation p.pid ∈ log

/-- The output of one stream of generation `g` of handle `h`, and the events of that handle. -/
structure Output (s : Machine) (log : List Entry) (h g : Nat) (st : Stream) : Prop where
  bytes : bytesRead h g st log = (told h g st log).flatMap Event.bytes ++
    if g = (s.handle h).generation then (dueOf h st s.control.due).flatMap Event.bytes else []
  chunk : ∀ bytes, .emitted h g (.chunk st bytes) ∈ log → bytes ≠ [] ∧ bytes.length ≤ s.config.chunk
  once : ((told h g st log).filter Event.isFault).length ≤ 1
  last : ∀ before e after, told h g st log = before ++ e :: after → e.isFault = true → after = []
  order : ∀ newer older e, log = newer ++ .emitted h g e :: older →
    ∀ g' e', .emitted h g' e' ∈ newer → g ≤ g'
  drawn : puts h log = drawn h log ++ (s.handle h).outbox
  reads : ∀ r, .read h g st r ∈ s.news → g = (s.handle h).generation ∧
    ∃ p, (s.handle h).pipe st = some p ∧ .spawned h g p.pid ∈ log ∧
      r = (s.kernel.read p.pid st s.config.chunk).1

variable {o s t : Machine} {σ τ : Stage} {log : List Entry} {h : Nat} {x y : Handle}

/-! ## What is told -/

theorem bytes_readSays (st : Stream) (r : Except Int Bytes) :
    (readSays st r).toList.flatMap Event.bytes = answerBytes r := by
  cases r with
  | ok bytes =>
    cases bytes with
    | nil => rfl
    | cons b bs => simp [readSays, answerBytes, Event.bytes]
  | error e =>
    unfold readSays answerBytes
    dsimp only
    split <;> rfl

theorem dueOf_readSays (h : Nat) (st st' : Stream) (r : Except Int Bytes) :
    dueOf h st' ((readSays st r).map (h, ·)) = if st' = st then (readSays st r).toList else [] := by
  have hstream : ∀ e ∈ readSays st r, e.stream? = some st := by
    intro e he
    unfold readSays at he
    split at he
    · split at he
      · cases he
      · cases he
        rfl
    · split at he
      · cases he
      · cases he
        rfl
  cases hsays : readSays st r with
  | none =>
    split <;> rfl
  | some e =>
    have he : e.stream? = some st := hstream e hsays
    by_cases hst : st' = st
    · subst hst
      rw [if_pos rfl]
      simp [dueOf, he]
    · rw [if_neg hst]
      have hne : ¬ st = st' := fun hs => hst hs.symm
      simp [dueOf, he, hne]

/-- What is told of a stream grows by what has just been read of it, and by nothing else. -/
theorem Flow.saying {chunk : Nat} {d d' : Option (Nat × Event)} {es : List Entry}
    (hf : Flow o chunk h x d es y d') (log : List Entry) (g : Nat) (st : Stream) :
    (bytesRead h g st es = [] ∧ (∀ r, .read h g st r ∉ es) ∧
        saying h y d' (es ++ log) g st = saying h x d log g st) ∨
      ∃ r, g = x.generation ∧ (x.pipe st).isSome ∧ (∀ r', .read h g st r' ∈ es → r' = r) ∧
        (readEnds r = true → y.pipe st = none) ∧
        (∀ bytes, r = .ok bytes → bytes.length ≤ chunk) ∧ bytesRead h g st es = answerBytes r ∧
        saying h y d' (es ++ log) g st = saying h x d log g st ++ (readSays st r).toList := by
  cases hf with
  | keeps hg hp hb he hd =>
    refine .inl ⟨bytesRead_mute he g st, fun _ => unread_of_mute he, ?_⟩
    rw [Machine.saying, told_append, told_mute he, List.append_nil, hg, hd]
    rfl
  | spawned hg hp ho hb he hd hd' =>
    refine .inl ⟨bytesRead_mute he g st, fun _ => unread_of_mute he, ?_⟩
    subst hd hd'
    have hnone : dueOf h st none = [] := rfl
    rw [Machine.saying, Machine.saying, told_append, told_mute he, hnone, ite_self, ite_self]
    simp
  | read st' p r more hx₀ hx hk hlen hg hp hb he hm hd hd' =>
    subst he hd hd'
    have hbytes : bytesRead h g st (more ++ [.read h x.generation st' r]) =
        if x.generation = g ∧ st' = st then answerBytes r else [] := by
      rw [bytesRead_append, bytesRead_mute hm]
      simp [Supervisor.bytesRead, Entry.bytesRead]
    have htold : told h g st (more ++ [.read h x.generation st' r] ++ log) = told h g st log := by
      rw [told_append, told_append, told_mute hm]
      exact List.append_nil _
    have hread : ∀ r', .read h g st r' ∈ more ++ [.read h x.generation st' r] →
        x.generation = g ∧ st' = st ∧ r' = r := by
      intro r' hm'
      rcases List.mem_append.1 hm' with hm' | hm'
      · exact absurd hm' (unread_of_mute hm)
      · obtain ⟨rfl, rfl, rfl⟩ : g = x.generation ∧ st = st' ∧ r' = r := by simpa using hm'
        exact ⟨rfl, rfl, rfl⟩
    by_cases hhit : x.generation = g ∧ st' = st
    · obtain ⟨rfl, rfl⟩ := hhit
      refine .inr ⟨r, rfl, by rw [hx]; rfl, fun r' hm' => ?_, fun hend => (hp st').trans (if_pos ⟨hend, rfl⟩),
        hlen, by rw [hbytes, if_pos ⟨rfl, rfl⟩], ?_⟩
      · exact (hread r' hm').2.2
      · rw [Machine.saying, Machine.saying, htold, hg, if_pos rfl, if_pos rfl, dueOf_readSays, if_pos rfl]
        simp [dueOf]
    · refine .inl ⟨by rw [hbytes, if_neg hhit], fun r' hm' => hhit ⟨(hread r' hm').1, (hread r' hm').2.1⟩, ?_⟩
      rw [Machine.saying, Machine.saying, htold, hg, dueOf_readSays]
      by_cases hgen : g = x.generation
      · have hst : ¬ st = st' := fun hs => hhit ⟨hgen.symm, hs.symm⟩
        rw [if_neg hst]
        rfl
      · rw [if_neg hgen, if_neg hgen]
  | put e hg hp hb he hd hd' =>
    subst he hd hd'
    refine .inl ⟨rfl, by simp, ?_⟩
    rw [Machine.saying, Machine.saying, told_append, hg]
    by_cases hgen : g = x.generation
    · subst hgen
      by_cases hst : e.stream? = some st
      · simp [told, Entry.told?, dueOf, hst]
      · simp [told, Entry.told?, dueOf, hst]
    · have hne : ¬ x.generation = g := fun hx => hgen hx.symm
      simp [told, Entry.told?, hgen, hne]
  | handed e entry hg hp hb he hentry hd =>
    subst he hd
    have htold : told h g st [entry] = [] ∧ bytesRead h g st [entry] = [] ∧ ∀ r, .read h g st r ∉ [entry] := by
      rcases hentry with rfl | ⟨n, rfl⟩
      · exact ⟨rfl, rfl, by simp⟩
      · exact ⟨rfl, rfl, by simp⟩
    refine .inl ⟨htold.2.1, htold.2.2, ?_⟩
    rw [Machine.saying, Machine.saying, told_append, htold.1, hg, List.append_nil]

theorem readEnds_of_isFault {st : Stream} {r : Except Int Bytes} {e : Event}
    (he : e ∈ (readSays st r).toList) (hfault : e.isFault = true) : readEnds r = true := by
  have he := Option.mem_toList.1 he
  cases r with
  | ok bytes =>
    rw [readSays] at he
    split at he
    · cases he
    · cases he
      cases hfault
  | error c =>
    rw [readSays] at he
    split at he
    · cases he
    · next hc =>
      push Not at hc
      simp [readEnds, hc.1, hc.2]

theorem readSays_of_failed (st : Stream) {c : Int} (hc : readEnds (.error c) = true) :
    readSays st (.error c) = some (.ioError st (.code c)) := by
  unfold readSays
  dsimp only
  rw [if_neg]
  simpa [readEnds] using hc

theorem chunk_of_readSays {chunk : Nat} {st : Stream} {r : Except Int Bytes} {e : Event}
    (hlen : ∀ bytes, r = .ok bytes → bytes.length ≤ chunk) (he : e ∈ (readSays st r).toList) :
    e.isFault = true ∨ (e.bytes ≠ [] ∧ e.bytes.length ≤ chunk) := by
  have he := Option.mem_toList.1 he
  cases r with
  | ok bytes =>
    rw [readSays] at he
    split at he
    · cases he
    · next hne =>
      cases he
      exact .inr ⟨fun hnil => hne (List.isEmpty_iff.2 hnil), hlen bytes rfl⟩
  | error c =>
    rw [readSays] at he
    split at he
    · cases he
    · cases he
      exact .inl rfl

/-- A last event that is put behind events without a fault leaves any fault last. -/
theorem last_append {old before after : List Event} {e : Event} {e? : Option Event}
    (hold : ∀ e ∈ old, e.isFault ≠ true) (hs : old ++ e?.toList = before ++ e :: after)
    (hfault : e.isFault = true) : after = [] := by
  have hout : ∀ rest, old ≠ before ++ e :: rest := by
    intro rest hr
    refine hold e ?_ hfault
    rw [hr]
    exact List.mem_append_right _ List.mem_cons_self
  cases e? with
  | none =>
    rw [Option.toList_none, List.append_nil] at hs
    exact absurd hs (hout after)
  | some a =>
    rcases List.eq_nil_or_concat after with hnil | ⟨rest, b, hrest⟩
    · exact hnil
    · rw [hrest, List.concat_eq_append, ← List.cons_append, ← List.append_assoc] at hs
      exact absurd (List.append_inj_left' hs rfl) (hout rest)

theorem Faithful.flow {chunk : Nat} {d d' : Option (Nat × Event)} {es : List Entry}
    (hx : Faithful chunk h x d log) (hf : Flow o chunk h x d es y d') : Faithful chunk h y d' (es ++ log) := by
  obtain ⟨hages, hbox⟩ := hf.ledger
  have hle : x.generation ≤ y.generation := by
    rcases hf.onward with ⟨hg, -⟩ | ⟨hg, -⟩ <;> omega
  constructor
  case bytes =>
    intro g st
    rw [bytesRead_append, hx.bytes]
    rcases hf.saying log g st with ⟨hread, -, hsame⟩ | ⟨r, -, -, -, -, -, hread, hmore⟩
    · rw [hread, hsame, List.append_nil]
    · rw [hread, hmore, List.flatMap_append, bytes_readSays]
  case chunk =>
    intro g st e he
    rcases hf.saying log g st with ⟨-, -, hsame⟩ | ⟨r, -, -, -, -, hlen, -, hmore⟩
    · rw [hsame] at he
      exact hx.chunk g st e he
    · rw [hmore] at he
      rcases List.mem_append.1 he with he | he
      · exact hx.chunk g st e he
      · exact chunk_of_readSays hlen he
  case last =>
    intro g st before e after hs hfault
    rcases hf.saying log g st with ⟨-, -, hsame⟩ | ⟨r, rfl, hopen, -, -, -, -, hmore⟩
    · rw [hsame] at hs
      exact hx.last g st before e after hs hfault
    · rw [hmore] at hs
      refine last_append (fun e' he' hfault' => ?_) hs hfault
      rw [hx.lapsed st e' he' hfault'] at hopen
      cases hopen
  case lapsed =>
    intro st e he hfault
    rcases hf.saying log y.generation st with ⟨-, -, hsame⟩ | ⟨r, hg, hopen, -, hend, -, -, hmore⟩
    · rw [hsame] at he
      rcases hf.onward with ⟨hg, hp⟩ | ⟨hg, -⟩
      · rw [hg] at he
        have hnone := hx.lapsed st e he hfault
        rcases hp st with hst | hst
        · rw [hst, hnone]
        · exact hst
      · rw [hx.future _ st (by omega)] at he
        cases he
    · rw [hmore] at he
      rcases List.mem_append.1 he with he | he
      · rw [hg] at he
        rw [hx.lapsed st e he hfault] at hopen
        cases hopen
      · exact hend (readEnds_of_isFault he hfault)
  case future =>
    intro g st hlt
    rcases hf.saying log g st with ⟨-, -, hsame⟩ | ⟨r, hg, -⟩
    · rw [hsame]
      exact hx.future g st (by omega)
    · omega
  case failed =>
    rintro g st ⟨c, hm, hc⟩
    rcases hf.saying log g st with ⟨-, hnone, hsame⟩ | ⟨r, -, -, hone, -, -, -, hmore⟩
    · rw [hsame]
      rcases List.mem_append.1 hm with hm | hm
      · exact absurd hm (hnone _)
      · exact hx.failed g st ⟨c, hm, hc⟩
    · rw [hmore]
      rcases List.mem_append.1 hm with hm | hm
      · refine ⟨.ioError st (.code c), List.mem_append_right _ ?_, rfl⟩
        rw [← hone _ hm, readSays_of_failed st hc]
        exact List.mem_singleton_self _
      · obtain ⟨e, he, hfault⟩ := hx.failed g st ⟨c, hm, hc⟩
        exact ⟨e, List.mem_append_left _ he, hfault⟩
  case ages =>
    rw [Supervisor.ages, gathered_append, ← Supervisor.ages, ← Supervisor.ages]
    refine List.pairwise_append.2 ⟨hx.ages, ?_, fun a ha b hb => ?_⟩
    · rcases hages with hnil | hone
      · rw [hnil]
        exact .nil
      · rw [hone]
        exact List.pairwise_singleton _ _
    · rcases hages with hnil | hone
      · rw [hnil] at hb
        cases hb
      · rw [hone] at hb
        rw [List.mem_singleton.1 hb]
        exact hx.age a ha
  case age =>
    intro g hg
    rw [Supervisor.ages, gathered_append, ← Supervisor.ages, ← Supervisor.ages] at hg
    rcases List.mem_append.1 hg with hg | hg
    · exact Nat.le_trans (hx.age g hg) hle
    · rcases hages with hnil | hone
      · rw [hnil] at hg
        cases hg
      · rw [hone] at hg
        rw [List.mem_singleton.1 hg]
        exact hle
  case outbox =>
    have hputs : puts h (es ++ log) = puts h log ++ puts h es := gathered_append _ es log
    have hdrawn : drawn h (es ++ log) = drawn h log ++ drawn h es := gathered_append _ es log
    rw [hputs, hdrawn, hx.outbox, List.append_assoc, List.append_assoc, hbox]
  case source =>
    intro st p hp
    rcases hf.onward with ⟨hg, hpipe⟩ | ⟨-, hnew⟩
    · rcases hpipe st with hst | hst
      · rw [hg]
        exact List.mem_append_right _ (hx.source st p (hst.symm.trans hp))
      · rw [hst] at hp
        cases hp
    · exact List.mem_append_left _ (hnew st p hp)

/-! ## Runs -/

/-- All handles have told what was read. -/
def AllFaithful (σ : Stage) (log : List Entry) : Prop :=
  ∀ h, Faithful σ.machine.config.chunk h (σ.machine.handle h) σ.due log

/-- What the reads in the entries `es` have asked the kernel of the machine `s`. -/
def Asked (s : Machine) (es : List Entry) : Prop :=
  ∀ h g st r, .read h g st r ∈ es → g = (s.handle h).generation ∧
    ∃ p, (s.handle h).pipe st = some p ∧ r = (s.kernel.read p.pid st s.config.chunk).1

theorem faithful_of_life {chunk : Nat} (hl : x.life = Handle.fresh.life) (hb : x.outbox = []) :
    Faithful chunk h x none [] := by
  have hnone : ∀ g st, saying h x none [] g st = [] := by
    intro g st
    simp [saying, told, dueOf]
  constructor
  case bytes =>
    intro g st
    rw [hnone]
    rfl
  case chunk =>
    intro g st e he
    rw [hnone] at he
    cases he
  case last =>
    intro g st before e after hs
    rw [hnone] at hs
    simp at hs
  case lapsed =>
    intro st e he
    rw [hnone] at he
    cases he
  case future => exact fun g st _ => hnone g st
  case failed =>
    rintro g st ⟨c, hm, -⟩
    cases hm
  case ages => exact .nil
  case age => exact fun g hg => absurd hg List.not_mem_nil
  case outbox => exact hb.symm
  case source =>
    intro st p hp
    rw [pipe_of_life hl] at hp
    cases st <;> cases hp

theorem AllFaithful.level {D : List Duty} {d : Option (Nat × Event)} {es : List Entry}
    (hp : AllFaithful ⟨s, D, d⟩ log) (hl : Level s t) (he : ∀ e ∈ es, e.isLow = true) :
    AllFaithful ⟨t, D, d⟩ (es ++ log) := by
  intro h
  have hcarried := (hp h).flow (hl.flow he s d h)
  rw [← hl.config] at hcarried
  exact hcarried

theorem AllFaithful.loud {news : List Entry} (hp : AllFaithful σ log) (hf : Footing σ log) (hl : Loud o σ τ)
    (hj : τ.machine.journal = news ++ σ.machine.journal) : AllFaithful τ (news ++ log) := by
  intro h
  have hcarried := (hp h).flow (hl.flow hf hj h)
  rw [← config_of_loud hf hl] at hcarried
  exact hcarried

theorem faithful_initial (hi : Initial s) : AllFaithful s.stage [] := by
  intro h
  cases hi with
  | fresh config tick environ kernel logging => exact faithful_of_life rfl rfl
  | forRun outer spec => cases h <;> exact faithful_of_life rfl rfl

theorem faithful_run {G : Machine → Prop} (hr : Run G s log) : AllFaithful s.stage log :=
  (run_stages (P := AllFaithful) (fun _ hi => faithful_initial hi)
    (fun _ _ _ _ _ _ hl he hp => hp.level hl he) (fun _ _ _ _ _ _ hp => hp)
    (fun _ _ _ _ _ hf hp hl hj => hp.loud hf hl hj) hr).2

/-- A step reads a stream of the present generation, from the pipe that is open for it. -/
theorem asked_step (hf : Footing s.stage log) : Asked s s.news := by
  have hcarried := (step_carries (P := fun _ log' => ∃ es, log' = es ++ log ∧ Asked s es)
    hf ⟨[], rfl, fun _ _ _ _ hm => absurd hm List.not_mem_nil⟩ ?_ ?_ ?_).2
  · obtain ⟨es, he, hasked⟩ := hcarried
    obtain rfl := List.append_cancel_right he
    exact hasked
  · rintro - - - - - es - he ⟨es', rfl, hasked⟩
    refine ⟨es ++ es', by rw [List.append_assoc], fun h g st r hm => ?_⟩
    rcases List.mem_append.1 hm with hm | hm
    · cases he _ hm
    · exact hasked h g st r hm
  · exact fun _ _ _ _ _ _ hp => hp
  · rintro σ τ log' news hf ⟨es, rfl, hasked⟩ hl hj
    refine ⟨news ++ es, by rw [List.append_assoc], fun h g st r hm => ?_⟩
    rcases List.mem_append.1 hm with hm | hm
    · obtain ⟨hlife, hg, p, hp, hk⟩ := (hl.flow hf hj h).reads hm
      exact ⟨hg.trans (congrArg Life.generation hlife), p, (pipe_of_life hlife st).symm.trans hp, hk⟩
    · exact hasked h g st r hm

/-! ## Main theorem -/

/-- Where everything of one kind is last, there is one of that kind at most. -/
theorem length_filter_le_one {p : Event → Bool} {es : List Event}
    (hlast : ∀ before e after, es = before ++ e :: after → p e = true → after = []) :
    (es.filter p).length ≤ 1 := by
  induction es with
  | nil => exact Nat.zero_le _
  | cons e es ih =>
    by_cases he : p e = true
    · rw [hlast [] e es rfl he, List.filter_cons_of_pos he]
      exact Nat.le_refl _
    · rw [List.filter_cons_of_neg he]
      refine ih fun before e' after hs hp => hlast (e :: before) e' after ?_ hp
      rw [hs]
      rfl

theorem mem_told {g : Nat} {st : Stream} {e : Event} (hst : e.stream? = some st)
    (hm : .emitted h g e ∈ log) : e ∈ told h g st log :=
  List.mem_filterMap.2 ⟨_, List.mem_reverse.2 hm, if_pos ⟨rfl, rfl, hst⟩⟩

/-- In every run, what is read of each stream is told in order, and nothing else. -/
theorem output_run (hr : Run (fun _ => True) s log) (h g : Nat) (st : Stream) : Output s log h g st := by
  have hx := faithful_run hr h
  have hlast : ∀ before e after, told h g st log = before ++ e :: after → e.isFault = true → after = [] := by
    intro before e after hs hfault
    have hsaying : saying h (s.handle h) s.control.due log g st =
        before ++ e :: (after ++ if g = (s.handle h).generation then dueOf h st s.control.due else []) := by
      rw [saying, hs, List.append_assoc]
      rfl
    exact (List.append_eq_nil_iff.1 (hx.last g st before e _ hsaying hfault)).1
  constructor
  case bytes =>
    have hbytes := hx.bytes g st
    rw [saying, List.flatMap_append] at hbytes
    refine hbytes.trans (congrArg _ ?_)
    by_cases hg : g = (s.handle h).generation
    · rw [if_pos hg]
      exact congrArg _ (if_pos hg)
    · rw [if_neg hg]
      exact congrArg _ (if_neg hg)
  case chunk =>
    intro bytes hm
    have hsaid : .chunk st bytes ∈ saying h (s.handle h) s.control.due log g st :=
      List.mem_append_left _ (mem_told rfl hm)
    rcases hx.chunk g st _ hsaid with hfault | hsize
    · cases hfault
    · exact hsize
  case once => exact length_filter_le_one hlast
  case last => exact hlast
  case order =>
    rintro newer older e rfl g' e' hm
    have hages := hx.ages
    rw [ages, gathered_append, List.reverse_cons, List.filterMap_append] at hages
    have hfirst : g ∈ older.reverse.filterMap (Entry.age? h) ++ [Entry.emitted h g e].filterMap (Entry.age? h) :=
      List.mem_append_right _ (by simp [Entry.age?])
    have hsecond : g' ∈ newer.reverse.filterMap (Entry.age? h) :=
      List.mem_filterMap.2 ⟨_, List.mem_reverse.2 hm, if_pos rfl⟩
    exact (List.pairwise_append.1 hages).2.2 g hfirst g' hsecond
  case drawn => exact hx.outbox
  case reads =>
    intro r hm
    obtain ⟨rfl, p, hp, hk⟩ := asked_step (footing_run hr) h g st r hm
    exact ⟨rfl, p, hp, hx.source st p hp, hk⟩

/-- A machine whose child has written two bytes, which have been read and put into the outbox. -/
def overheard : Machine × List Entry :=
  carry (carry (carry (.fresh .standard 10000000 [] (.fresh true), [])
    (.spawn "a" (.ofArgs ["/bin/echo"]) ⟨.standard, []⟩ none) 1)
    (.event (.child 4001 (.emit .out [104, 105]))) 1) (.iterate false) 6

theorem output_of_overheard : Run (fun _ => True) overheard.1 overheard.2 ∧
    bytesRead 0 1 .out overheard.2 = [104, 105] ∧ told 0 1 .out overheard.2 = [.chunk .out [104, 105]] ∧
    Output overheard.1 overheard.2 0 1 .out := by
  have hrun : Run (fun _ => True) overheard.1 overheard.2 :=
    Run.carry (Run.carry (Run.carry (Run.init (.fresh .standard 10000000 [] (.fresh true) true)) rfl
      fun _ _ => trivial) (by decide) fun _ _ => trivial) (by decide) fun _ _ => trivial
  exact ⟨hrun, rfl, rfl, output_run hrun 0 1 .out⟩

end Machine

end Overseer
