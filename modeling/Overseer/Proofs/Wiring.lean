import Overseer.Proofs.Deeds
import Overseer.Proofs.SpawnAndClose

/-!
# Watches put up and taken down

What becomes of the registry when a child is adopted or a handle is closed, read off the outlines.

    adopt  :  one watch on each captured stream and one on the child, all with new numbers
    close  :  the watches of the handle are gone, and a child that runs gets a detached one
-/

namespace Overseer

open Supervisor
open Kernel (Stream)

namespace Supervisor

/-- Entries that putting up a watch may leave. -/
def Entry.isWiring : Entry → Bool
  | noted .. => true
  | added .. => true
  | _ => false

/-- Entries that taking down a watch may leave. -/
def Entry.isUnwiring : Entry → Bool
  | added .. => true
  | removed .. => true
  | _ => false

def Execution.mode (e : Execution) : Stream → Stdio
  | .out => e.out
  | .err => e.err

/-- The outline of the watch on a captured stream. -/
def streamOutline (h g : Nat) (pid : Int) (st : Stream) : Loop.Outline Callback :=
  ⟨.io (.output pid st) .readable, some (.stream h st g)⟩

/-- The outline of the watch on a child that reports to its handle. -/
def reapOutline (h g : Nat) (pid : Int) : Loop.Outline Callback := ⟨.child pid, some (.reap h g)⟩

def detachedOutline (pid : Int) : Loop.Outline Callback := ⟨.child pid, some .detached⟩

end Supervisor

namespace Machine

/-- Nothing but the registry and the life of handles may differ. -/
structure Spares (s t : Machine) : Prop where
  size : t.handles.length = s.handles.length
  names : t.names = s.names
  tags : t.tags = s.tags
  config : t.config = s.config
  raised : t.raised = s.raised

/-- Only the registry differs, and the journal tells of new watches and of notices. -/
structure Beside (s t : Machine) : Prop extends Spares s t where
  handles : t.handles = s.handles
  journal : ∃ es, t.journal = es ++ s.journal ∧ ∀ e ∈ es, e.isWiring = true

/-- The watch upon one stream of a new child is put up, if the stream is captured. -/
structure Tapped (s t : Machine) (h g : Nat) (pid : Int) (st : Stream) (mode : Stdio)
    (p : Option Pipe) : Prop extends Beside s t where
  tidy : t.loop.Tidy
  lastId : s.loop.lastId ≤ t.loop.lastId
  pipe : ∀ q, p = some q → q.pid = pid ∧ mode = .pipe ∧ s.loop.lastId < q.watch ∧ q.watch ≤ t.loop.lastId
  captured : mode = .pipe → p.isSome
  look : ∀ id, t.loop.look id =
    if p.map (·.watch) = some id then some (streamOutline h g pid st) else s.loop.look id
  new : ∀ id, s.loop.lastId < id → id ≤ t.loop.lastId → p.map (·.watch) = some id

/-- A new child of the handle `h` is wired to the registry. -/
structure Adoption (s t : Machine) (h : Nat) (e : Execution) (pid : Int) : Prop extends Spares s t where
  others : ∀ i, i ≠ h → t.handle i = s.handle i
  outbox : (t.handle h).outbox = (s.handle h).outbox
  journal : ∃ before after, t.journal =
      after ++ .spawned h ((s.handle h).generation + 1) pid :: (before ++ s.journal) ∧
    (∀ e ∈ before, e.isWiring = true) ∧ ∀ e ∈ after, e.isWiring = true
  lastId : s.loop.lastId < t.loop.lastId
  life : ∃ out err, (t.handle h).life = ⟨.running, (s.handle h).generation + 1, some pid,
      if e.newGroup then -pid else pid, none, if e.stdin = .pipe then some pid else none, out, err,
      some t.loop.lastId⟩
  child : t.loop.look t.loop.lastId = some (reapOutline h ((s.handle h).generation + 1) pid)
  pipe : ∀ st p, (t.handle h).pipe st = some p → p.pid = pid ∧ e.mode st = .pipe ∧
    s.loop.lastId < p.watch ∧ p.watch < t.loop.lastId ∧
    t.loop.look p.watch = some (streamOutline h ((s.handle h).generation + 1) pid st)
  captured : ∀ st, e.mode st = .pipe → ((t.handle h).pipe st).isSome
  old : ∀ id, id ≤ s.loop.lastId → t.loop.look id = s.loop.look id
  new : ∀ id, s.loop.lastId < id → (t.loop.look id).isSome → id = t.loop.lastId ∨
    ∃ st p, (t.handle h).pipe st = some p ∧ p.watch = id

/-- A handle that is running or reaped is closed. -/
structure Closure (s t : Machine) (h : Nat) : Prop extends Spares s t where
  others : ∀ i, i ≠ h → t.handle i = s.handle i
  outbox : (t.handle h).outbox = (s.handle h).outbox
  journal : ∃ es, t.journal = es ++ s.journal ∧ ∀ e ∈ es, e.isUnwiring = true ∧
    ∀ id, e = .removed id true → id ∈ (s.handle h).watches
  look : ∀ id, t.loop.look id =
    if id = s.loop.lastId + 1 then (s.handle h).left?.map detachedOutline
    else if id ∈ (s.handle h).watches then none
    else s.loop.look id

/-- A captured stream has been read for the last time, and is let go of. -/
structure Release (s t : Machine) (h : Nat) (st : Stream) (p : Pipe) (r : Except Int Bytes) : Prop
    extends Spares s t where
  others : ∀ i, i ≠ h → t.handle i = s.handle i
  handle : t.handle h = (s.handle h).dropPipe st
  lastId : t.loop.lastId = s.loop.lastId
  look : ∀ id, t.loop.look id = if id = p.watch then none else s.loop.look id
  journal : ∃ es, t.journal = es ++ .read h (s.handle h).generation st r :: s.journal ∧
    ∀ e ∈ es, e.isMere = true ∨ ∃ b, e = .removed p.watch b

variable {s t u : Machine}

/-! ## Adoption -/

theorem Spares.refl (s : Machine) : Spares s s := ⟨rfl, rfl, rfl, rfl, rfl⟩

theorem Spares.trans (h : Spares s t) (h' : Spares t u) : Spares s u :=
  ⟨h'.size.trans h.size, h'.names.trans h.names, h'.tags.trans h.tags, h'.config.trans h.config,
    h'.raised.trans h.raised⟩

theorem spares_mapHandle (s : Machine) (h : Nat) (f : Handle → Handle) : Spares s (s.mapHandle h f) :=
  ⟨List.length_modify _ _ _, rfl, rfl, rfl, rfl⟩

theorem Beside.refl (s : Machine) : Beside s s := ⟨.refl s, rfl, [], rfl, by simp⟩

theorem Beside.trans (h : Beside s t) (h' : Beside t u) : Beside s u := by
  obtain ⟨es, he, hw⟩ := h.journal
  obtain ⟨es', he', hw'⟩ := h'.journal
  refine ⟨h.toSpares.trans h'.toSpares, h'.handles.trans h.handles, es' ++ es, ?_, fun e hm => ?_⟩
  · rw [he', he, List.append_assoc]
  · rcases List.mem_append.1 hm with hm | hm
    · exact hw' e hm
    · exact hw e hm

theorem Beside.handle (h : Beside s t) (i : Nat) : t.handle i = s.handle i := by
  rw [Machine.handle, Machine.handle, h.handles]

theorem beside_note (s : Machine) (n : Notice) : Beside s (s.note n) := by
  unfold note
  split
  · exact ⟨⟨rfl, rfl, rfl, rfl, rfl⟩, rfl, [_], rfl, by simp [Entry.isWiring]⟩
  · exact .refl s

theorem beside_addWatch (s : Machine) (priority : Loop.Priority) (src : Loop.Source Callback) :
    Beside s (s.addWatch priority src).2 :=
  ⟨⟨rfl, rfl, rfl, rfl, rfl⟩, rfl, [_], rfl, by simp [Entry.isWiring]⟩

theorem beside_setNonblocking (s : Machine) (pid : Int) (n : Nat) :
    Beside s (s.setNonblocking pid n) ∧ (s.setNonblocking pid n).loop = s.loop := by
  induction n generalizing s with
  | zero => exact ⟨.refl s, rfl⟩
  | succ n ih =>
    unfold setNonblocking
    dsimp only
    have hkernel : Beside s (s.withKernel s.kernel.setNonblocking.2) :=
      ⟨⟨rfl, rfl, rfl, rfl, rfl⟩, rfl, [], rfl, by simp⟩
    split
    · exact ⟨hkernel.trans (ih _).1, (ih _).2⟩
    · exact ⟨(hkernel.trans (beside_note _ _)).trans (ih _).1, (ih _).2.trans (loop_note _ _)⟩

theorem tapped_watchStream (s : Machine) (ht : s.loop.Tidy) (h g : Nat) (pid : Int) (st : Stream)
    (mode : Stdio) :
    Tapped s (s.watchStream h g pid st mode).2 h g pid st mode (s.watchStream h g pid st mode).1 := by
  unfold watchStream
  split
  · next hmode =>
    have hlook := Loop.look_insert ht Loop.Priority.normal
      (.io (.output pid st) .readable .empty (some (.stream h st g)))
    refine ⟨beside_addWatch s _ _, ht.insert _ _, Nat.le_succ _, ?_, fun _ => rfl, ?_, ?_⟩
    · intro q hq
      cases hq
      exact ⟨rfl, hmode, Nat.lt_succ_self _, Nat.le_refl _⟩
    · intro id
      refine (hlook id).trans ?_
      show _ = if some (s.loop.lastId + 1) = some id then _ else _
      by_cases hid : id = s.loop.lastId + 1
      · rw [if_pos hid, if_pos (congrArg some hid.symm)]
        rfl
      · rw [if_neg hid, if_neg fun he => hid (Option.some.inj he).symm]
    · intro id hlow hhigh
      have hhigh : id ≤ s.loop.lastId + 1 := hhigh
      exact congrArg some (by omega : s.loop.lastId + 1 = id)
  · next hmode =>
    refine ⟨.refl s, ht, Nat.le_refl _, fun q hq => ?_, fun hm => absurd hm hmode, fun id => ?_, ?_⟩
    · cases hq
    · rw [if_neg (by simp)]
    · intro id hlow hhigh
      dsimp only at hhigh
      omega

theorem adoption_adopt (s : Machine) (ht : s.loop.Tidy) {h : Nat} (hl : h < s.handles.length)
    (c : Command) (e : Execution) (pid : Int) : Adoption s (s.adopt h c e pid) h e pid := by
  obtain ⟨out₀, err₀, hlife, -⟩ := (adopted_adopt s h c e pid).life hl
  have hothers := (adopted_adopt s h c e pid).others
  have hlast := (adopted_adopt s h c e pid).lastId
  revert hlife hothers hlast
  unfold adopt
  dsimp only
  -- the stages of the wiring: pipes, the new life, the watches on both streams, the ward, the notice
  obtain ⟨ha, haloop⟩ := beside_setNonblocking s pid
    ((if e.stdin = .pipe then 1 else 0) + (if e.out = .pipe then 1 else 0) + (if e.err = .pipe then 1 else 0))
  generalize s.setNonblocking pid _ = a at ha haloop ⊢
  rw [ha.handle h]
  generalize hg : (s.handle h).generation + 1 = g
  generalize hb : Machine.record (a.mapHandle h _) _ = b
  have hbloop : b.loop = s.loop := by rw [← hb, ← haloop]; rfl
  have hout := tapped_watchStream b (by rw [hbloop]; exact ht) h g pid .out e.out
  generalize b.watchStream h g pid .out e.out = r at hout ⊢
  obtain ⟨out, d⟩ := r
  have herr := tapped_watchStream d hout.tidy h g pid .err e.err
  dsimp only at hout ⊢
  generalize d.watchStream h g pid .err e.err = r at herr ⊢
  obtain ⟨err, f⟩ := r
  dsimp only at herr ⊢
  have hchild := Loop.look_insert herr.tidy Loop.Priority.normal
    (.child pid (f.kernel.deathFd pid) none (.reap h g))
  have hn : Beside f ((f.watchChild pid Loop.Priority.normal (.reap h g)).2.note (.spawned pid g c)) :=
    (beside_addWatch f _ _).trans (beside_note _ _)
  have hnloop : ((f.watchChild pid Loop.Priority.normal (.reap h g)).2.note (.spawned pid g c)).loop =
      (f.loop.insert Loop.Priority.normal (.child pid (f.kernel.deathFd pid) none (.reap h g))).2 :=
    loop_note _ _
  have hid : (f.watchChild pid Loop.Priority.normal (.reap h g)).1 = f.loop.lastId + 1 := rfl
  rw [hid]
  generalize (f.watchChild pid Loop.Priority.normal (.reap h g)).2.note (.spawned pid g c) = n at hn hnloop ⊢
  have hbn : Beside b n := (hout.toBeside.trans herr.toBeside).trans hn
  have hlen : n.handles.length = s.handles.length := by
    rw [hbn.handles, ← hb, ← ha.handles]
    exact List.length_modify _ _ _
  have hbh : b.handle h = { s.handle h with
      state := .running, generation := g, pid := some pid, target := if e.newGroup then -pid else pid,
      status := none, stdin := if e.stdin = .pipe then some pid else none } := by
    rw [← hb]
    refine (handle_mapHandle_self a _ (by rw [ha.handles]; exact hl)).trans ?_
    rw [ha.handle h]
  have huh := handle_mapHandle_self n (h := h)
    (fun x => { x with out := out, err := err, childWatch := some (f.loop.lastId + 1), command := some c })
    (by rw [hlen]; exact hl)
  rw [hbn.handle h, hbh] at huh
  have hnlook : ∀ id, n.loop.look id = if id = f.loop.lastId + 1 then some (reapOutline h g pid)
      else f.loop.look id := by
    rw [hnloop]
    exact hchild
  have hnlast : n.loop.lastId = f.loop.lastId + 1 := by rw [hnloop]; rfl
  have hntidy : n.loop.Tidy := by
    rw [hnloop]
    exact herr.tidy.insert _ _
  generalize hu : n.mapHandle h _ = u at huh ⊢
  have huloop : u.loop = n.loop := by rw [← hu]; rfl
  have huout : (u.handle h).out = out := by rw [huh]
  have huerr : (u.handle h).err = err := by rw [huh]
  have hubox : (u.handle h).outbox = (s.handle h).outbox := by rw [huh]
  clear huh hbh
  intro hlife hothers hlast
  rw [huloop, hnlast] at hlast
  have hdlast := hout.lastId
  have hflast := herr.lastId
  rw [hbloop] at hdlast
  have hbj : b.journal = .spawned h g pid :: a.journal := by rw [← hb]; rfl
  subst hg
  constructor
  case toSpares =>
    have hab : Spares a b := by
      rw [← hb]
      exact ⟨List.length_modify _ _ _, rfl, rfl, rfl, rfl⟩
    have hnu : Spares n u := by
      rw [← hu]
      exact spares_mapHandle n h _
    exact ((ha.toSpares.trans hab).trans hbn.toSpares).trans hnu
  case others => exact fun i hi => hothers i (.inl hi)
  case outbox => exact hubox
  case journal =>
    obtain ⟨before, hbefore, hb'⟩ := ha.journal
    obtain ⟨after, hafter, ha'⟩ := hbn.journal
    have huj : u.journal = n.journal := by rw [← hu]; rfl
    exact ⟨before, after, by rw [huj, hafter, hbj, hbefore], hb', ha'⟩
  case lastId =>
    rw [huloop, hnlast]
    omega
  case life => exact ⟨out₀, err₀, hlife⟩
  case child => rw [huloop, hnlook, hnlast, if_pos rfl]
  case pipe =>
    intro st p hp
    cases st with
    | out =>
      have hp : out = some p := huout.symm.trans hp
      obtain ⟨hpid, hmode, hlow, hhigh⟩ := hout.pipe p hp
      rw [hbloop] at hlow
      refine ⟨hpid, hmode, hlow, by rw [huloop, hnlast]; omega, ?_⟩
      have hne : err.map (·.watch) ≠ some p.watch := by
        intro he
        obtain ⟨q, hq, hqw⟩ := Option.map_eq_some_iff.1 he
        have := (herr.pipe q hq).2.2.1
        omega
      rw [huloop, hnlook, if_neg (by omega), herr.look, if_neg hne, hout.look, hp, Option.map_some, if_pos rfl]
    | err =>
      have hp : err = some p := huerr.symm.trans hp
      obtain ⟨hpid, hmode, hlow, hhigh⟩ := herr.pipe p hp
      refine ⟨hpid, hmode, by omega, by rw [huloop, hnlast]; omega, ?_⟩
      rw [huloop, hnlook, if_neg (by omega), herr.look, hp, Option.map_some, if_pos rfl]
  case captured =>
    intro st hmode
    cases st with
    | out =>
      show (u.handle h).out.isSome
      rw [huout]
      exact hout.captured hmode
    | err =>
      show (u.handle h).err.isSome
      rw [huerr]
      exact herr.captured hmode
  case old =>
    intro id hid
    have hneErr : err.map (·.watch) ≠ some id := by
      intro he
      obtain ⟨q, hq, hqw⟩ := Option.map_eq_some_iff.1 he
      have := (herr.pipe q hq).2.2.1
      omega
    have hneOut : out.map (·.watch) ≠ some id := by
      intro he
      obtain ⟨q, hq, hqw⟩ := Option.map_eq_some_iff.1 he
      have := (hout.pipe q hq).2.2.1
      rw [hbloop] at this
      omega
    rw [huloop, hnlook, if_neg (by omega), herr.look, if_neg hneErr, hout.look, if_neg hneOut, hbloop]
  case new =>
    intro id hid hsome
    rw [huloop] at hsome
    obtain ⟨o, ho⟩ := Option.isSome_iff_exists.1 hsome
    have hle := Loop.le_of_look hntidy ho
    rw [huloop]
    rcases Nat.lt_or_ge f.loop.lastId id with hf | hf
    · exact .inl (by omega)
    · rcases Nat.lt_or_ge d.loop.lastId id with hd | hd
      · obtain ⟨q, hq, hqw⟩ := Option.map_eq_some_iff.1 (herr.new id hd hf)
        exact .inr ⟨.err, q, huerr.trans hq, hqw⟩
      · obtain ⟨q, hq, hqw⟩ := Option.map_eq_some_iff.1 (hout.new id (by rw [hbloop]; exact hid) hd)
        exact .inr ⟨.out, q, huout.trans hq, hqw⟩

/-! ## Closing -/

theorem look_removeWatches (s : Machine) (ids : List Nat) (id : Nat) :
    (ids.foldl removeWatch s).loop.look id = if id ∈ ids then none else s.loop.look id := by
  induction ids generalizing s with
  | nil => simp
  | cons x ids ih =>
    rw [List.foldl_cons, ih]
    show (if id ∈ ids then none else (s.loop.erase x).look id) = _
    rw [Loop.look_erase]
    by_cases hx : id = x <;> by_cases hm : id ∈ ids <;> simp [hx, hm]

theorem journal_removeWatches (s : Machine) (ids : List Nat) :
    ∃ es, (ids.foldl removeWatch s).journal = es ++ s.journal ∧ ∀ e ∈ es, e.isUnwiring = true ∧
      ∀ id, e = .removed id true → id ∈ ids := by
  induction ids generalizing s with
  | nil => exact ⟨[], rfl, by simp⟩
  | cons x ids ih =>
    obtain ⟨es, he, hes⟩ := ih (s.removeWatch x)
    refine ⟨es ++ [.removed x (s.loop.contains x)], ?_, ?_⟩
    · rw [List.foldl_cons, he, List.append_assoc]
      rfl
    · intro e hm
      rcases List.mem_append.1 hm with hm | hm
      · exact ⟨(hes e hm).1, fun id hid => List.mem_cons_of_mem _ ((hes e hm).2 id hid)⟩
      · rw [List.mem_singleton.1 hm]
        refine ⟨rfl, fun id hid => ?_⟩
        injection hid with hid
        rw [hid]
        exact List.mem_cons_self

theorem spares_removeWatches (s : Machine) (ids : List Nat) :
    Spares s (ids.foldl removeWatch s) ∧ (ids.foldl removeWatch s).handles = s.handles ∧
      (ids.foldl removeWatch s).loop.lastId = s.loop.lastId := by
  induction ids generalizing s with
  | nil => exact ⟨.refl s, rfl, rfl⟩
  | cons x ids ih =>
    obtain ⟨hs, hh, hl⟩ := ih (s.removeWatch x)
    have hx : Spares s (s.removeWatch x) := ⟨rfl, rfl, rfl, rfl, rfl⟩
    exact ⟨hx.trans hs, hh, hl⟩

theorem spares_closeStdin (s : Machine) (h : Nat) : Spares s (s.closeStdin h) := by
  unfold closeStdin
  split
  · exact .refl s
  · exact ⟨List.length_modify _ _ _, rfl, rfl, rfl, rfl⟩

theorem release_releaseStream {h : Nat} {st : Stream} {p : Pipe} (hp : (s.handle h).pipe st = some p)
    (r : Except Int Bytes) (n : Notice) :
    Release s (((s.record (.read h (s.handle h).generation st r)).note n).releaseStream h st) h st p r := by
  have hn := beside_note (s.record (.read h (s.handle h).generation st r)) n
  have hnloop := loop_note (s.record (.read h (s.handle h).generation st r)) n
  have hnotes : ∃ es, ((s.record (.read h (s.handle h).generation st r)).note n).journal =
      es ++ .read h (s.handle h).generation st r :: s.journal ∧ ∀ e ∈ es, e.isMere = true :=
    (calm_note (s.record (.read h (s.handle h).generation st r)) n).journal
  generalize (s.record (.read h (s.handle h).generation st r)).note n = a at hn hnloop hnotes ⊢
  have hah : ∀ i, a.handle i = s.handle i := hn.handle
  have hlen : h < a.handles.length := by
    refine lt_of_ne_fresh fun hf => ?_
    rw [← hah, hf] at hp
    cases st <;> cases hp
  have hrelease : a.releaseStream h st = (a.mapHandle h fun x => x.dropPipe st).removeWatch p.watch := by
    unfold releaseStream
    rw [hah, hp]
  rw [hrelease]
  obtain ⟨es, he, hes⟩ := hnotes
  constructor
  case toSpares =>
    have hsa : Spares s a := ⟨hn.size, hn.names, hn.tags, hn.config, hn.raised⟩
    have hremove : Spares (a.mapHandle h fun x => x.dropPipe st)
        ((a.mapHandle h fun x => x.dropPipe st).removeWatch p.watch) := ⟨rfl, rfl, rfl, rfl, rfl⟩
    exact (hsa.trans (spares_mapHandle a h _)).trans hremove
  case others => exact fun i hi => (handle_mapHandle_of_ne a _ (.inl hi)).trans (hah i)
  case handle => exact (handle_mapHandle_self a _ hlen).trans (congrArg (·.dropPipe st) (hah h))
  case lastId =>
    show a.loop.lastId = s.loop.lastId
    rw [hnloop]
    rfl
  case look =>
    intro id
    refine (Loop.look_erase a.loop p.watch id).trans ?_
    rw [hnloop]
    rfl
  case journal =>
    refine ⟨.removed p.watch (a.loop.contains p.watch) :: es, congrArg _ he, fun e hm => ?_⟩
    rcases List.mem_cons.1 hm with rfl | hm
    · exact .inr ⟨_, rfl⟩
    · exact .inl (hes e hm)

theorem closure_close (s : Machine) (ht : s.loop.Tidy) {h : Nat}
    (hlive : (s.handle h).state = .running ∨ (s.handle h).state = .reaped) :
    Closure s (s.close h) h := by
  have hothers := (closed_close s hlive).others
  suffices hrest : Spares s (s.close h) ∧ ((s.close h).handle h).outbox = (s.handle h).outbox ∧
      (∃ es, (s.close h).journal = es ++ s.journal ∧ ∀ e ∈ es, e.isUnwiring = true ∧
        ∀ id, e = .removed id true → id ∈ (s.handle h).watches) ∧
      ∀ id, (s.close h).loop.look id =
        if id = s.loop.lastId + 1 then (s.handle h).left?.map detachedOutline
        else if id ∈ (s.handle h).watches then none
        else s.loop.look id from ⟨hrest.1, hothers, hrest.2.1, hrest.2.2.1, hrest.2.2.2⟩
  clear hothers
  have hl : h < s.handles.length := by
    refine lt_of_ne_fresh fun hf => ?_
    rw [hf] at hlive
    rcases hlive with hst | hst <;> cases hst
  obtain ⟨hloop, -, hjournal, hlen, -, hself⟩ := closeStdin_spec s h
  have hspares := spares_closeStdin s h
  unfold close
  dsimp only
  rw [if_neg (by rcases hlive with hst | hst <;> rw [hst] <;> simp)]
  generalize s.closeStdin h = a at hloop hjournal hlen hself hspares ⊢
  have hmap := handle_mapHandle_self a (h := h)
    (fun x => { x with state := .closed, out := none, err := none, childWatch := none })
    (by rw [hlen]; exact hl)
  rw [hself] at hmap
  generalize hb : a.mapHandle h _ = b at hmap ⊢
  have hsb : Spares s b := by
    rw [← hb]
    exact hspares.trans (spares_mapHandle a h _)
  have hbl : b.loop = s.loop := by rw [← hb, ← hloop]; rfl
  have hbj : b.journal = s.journal := by rw [← hb, ← hjournal]; rfl
  have hbout : (b.handle h).outbox = (s.handle h).outbox := by rw [hmap]
  obtain ⟨hbd, hdh, hdl⟩ := spares_removeWatches b (s.handle h).watches
  obtain ⟨es, he, hes⟩ := journal_removeWatches b (s.handle h).watches
  have hdlook := look_removeWatches b (s.handle h).watches
  have hdtidy := (removeWatches_spec b (s.handle h).watches).2.2.2.1 (by rw [hbl]; exact ht)
  rw [← Handle.watches]
  generalize (s.handle h).watches.foldl removeWatch b = d at hbd hdh hdl he hes hdlook hdtidy ⊢
  have hdout : (d.handle h).outbox = (s.handle h).outbox := by
    rw [← hbout, handle, handle, hdh]
  rw [hbl] at hdl hdlook
  rw [hbj] at he
  split
  · next pid hst hpid =>
    have hleft : (s.handle h).left? = some pid := by rw [Handle.left?, if_pos hst, hpid]
    have hinsert := Loop.look_insert hdtidy Loop.Priority.normal
      (.child pid (d.kernel.deathFd pid) none .detached)
    have hnew : Spares d (d.watchChild pid Loop.Priority.normal .detached).2 := ⟨rfl, rfl, rfl, rfl, rfl⟩
    refine ⟨(hsb.trans hbd).trans hnew, hdout,
      ⟨.added d.kernel.now (d.loop.lastId + 1) :: es, congrArg _ he, fun e hm => ?_⟩, fun id => ?_⟩
    · rcases List.mem_cons.1 hm with rfl | hm
      · exact ⟨rfl, fun id hid => by cases hid⟩
      · exact hes e hm
    · refine (hinsert id).trans ?_
      rw [hdl, hdlook, hleft]
      rfl
  · next hnone =>
    have hleft : (s.handle h).left? = none := by
      unfold Handle.left?
      split
      · next hst =>
        cases hpid : (s.handle h).pid with
        | none => rfl
        | some pid => exact absurd hpid (hnone pid hst)
      · rfl
    refine ⟨hsb.trans hbd, hdout, ⟨es, he, hes⟩, fun id => ?_⟩
    rw [hdlook, hleft]
    by_cases hid : id = s.loop.lastId + 1
    · have hnothing : s.loop.look id = none := Loop.look_of_lt ht (by omega)
      rw [if_pos hid, hnothing]
      simp
    · rw [if_neg hid]

end Machine

end Overseer
