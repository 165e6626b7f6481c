import Overseer.Proofs.MachineChanges

/-!
# Spawning and closing a handle

    adopt   :  one new open ward that reports to the handle, which runs from now on
    close   :  the watches of the handle are gone, and a child that runs gets a new detached ward

Everything else that the two do is aside: it leaves wards and handles as they are, and the journal
gets nothing but plain entries.
-/

namespace Overseer

open Supervisor
open Kernel (Stream)

namespace Machine

/-- Wards, handles and tags are as they were, and the journal has got plain entries only. -/
structure Aside (s t : Machine) : Prop where
  handles : t.handles = s.handles
  tags : t.tags = s.tags
  wards : t.loop.wards = s.loop.wards
  tidy : s.loop.Tidy → t.loop.Tidy
  lastId : s.loop.lastId ≤ t.loop.lastId
  journal : ∃ es, t.journal = es ++ s.journal ∧ ∀ e ∈ es, e.isPlain = true

structure Adopted (s t : Machine) (h : Nat) (e : Execution) (pid : Int) : Prop where
  tidy : s.loop.Tidy → t.loop.Tidy
  lastId : s.loop.lastId < t.loop.lastId
  wards : t.loop.wards =
    s.loop.wards ++ [⟨t.loop.lastId, pid, none, .reap h ((s.handle h).generation + 1)⟩]
  tags : t.tags = s.tags
  others : ∀ i, i ≠ h ∨ s.handles.length ≤ h → t.handle i = s.handle i
  life : h < s.handles.length → ∃ out err,
    (t.handle h).life = ⟨.running, (s.handle h).generation + 1, some pid,
      if e.newGroup then -pid else pid, none, if e.stdin = .pipe then some pid else none, out, err,
      some t.loop.lastId⟩ ∧
    ∀ p, out = some p ∨ err = some p → s.loop.lastId < p.watch ∧ p.watch < t.loop.lastId
  journal : ∃ before after, t.journal =
      after ++ .spawned h ((s.handle h).generation + 1) pid :: (before ++ s.journal) ∧
    (∀ e ∈ before, e.isPlain = true) ∧ ∀ e ∈ after, e.isPlain = true

/-- The watches upon a new child: one on each captured stream, and the ward. -/
structure Wired (s t : Machine) (h g : Nat) (pid : Int) (out err : Option Pipe) : Prop where
  handles : t.handles = s.handles
  tags : t.tags = s.tags
  tidy : s.loop.Tidy → t.loop.Tidy
  lastId : s.loop.lastId < t.loop.lastId
  wards : t.loop.wards = s.loop.wards ++ [⟨t.loop.lastId, pid, none, .reap h g⟩]
  pipes : ∀ p, out = some p ∨ err = some p → s.loop.lastId < p.watch ∧ p.watch < t.loop.lastId
  journal : ∃ es, t.journal = es ++ s.journal ∧ ∀ e ∈ es, e.isPlain = true

end Machine

namespace Supervisor

/-- The watches that a handle lets go of when it is closed. -/
def Handle.watches (x : Handle) : List Nat :=
  x.out.toList.map (·.watch) ++ x.err.toList.map (·.watch) ++ x.childWatch.toList

/-- The child that a handle leaves behind when it is closed. -/
def Handle.left? (x : Handle) : Option Int := if x.state = .running then x.pid else none

end Supervisor

namespace Machine

structure Closed (s t : Machine) (h : Nat) : Prop where
  tidy : s.loop.Tidy → t.loop.Tidy
  lastId : t.loop.lastId = s.loop.lastId + (s.handle h).left?.toList.length
  wards : t.loop.wards = (s.loop.wards.filter fun k => !(s.handle h).watches.contains k.id) ++
    (s.handle h).left?.toList.map fun p => ⟨t.loop.lastId, p, none, .detached⟩
  tags : t.tags = s.tags
  others : ∀ i, i ≠ h → t.handle i = s.handle i
  handle : (t.handle h).life =
    { (s.handle h).life with state := .closed, stdin := none, out := none, err := none, childWatch := none }
  journal : ∃ es, t.journal = es ++ s.journal ∧ ∀ e ∈ es, e.isPlain = true

/-! ## Lemmas -/

variable {s t : Machine}

theorem Aside.refl (s : Machine) : Aside s s :=
  ⟨rfl, rfl, rfl, id, Nat.le_refl _, [], rfl, by simp⟩

theorem Aside.trans {r : Machine} (h : Aside r s) (h' : Aside s t) : Aside r t := by
  obtain ⟨es, he, hp⟩ := h.journal
  obtain ⟨es', he', hp'⟩ := h'.journal
  refine ⟨h'.handles.trans h.handles, h'.tags.trans h.tags, h'.wards.trans h.wards,
    fun ht => h'.tidy (h.tidy ht), Nat.le_trans h.lastId h'.lastId, es' ++ es, ?_, fun e hm => ?_⟩
  · rw [he', he, List.append_assoc]
  · rcases List.mem_append.1 hm with hm | hm
    · exact hp' e hm
    · exact hp e hm

theorem Aside.handle (h : Aside s t) (i : Nat) : t.handle i = s.handle i := by
  rw [Machine.handle, Machine.handle, h.handles]

theorem aside_record (s : Machine) {e : Entry} (he : e.isPlain = true) : Aside s (s.record e) :=
  ⟨rfl, rfl, rfl, id, Nat.le_refl _, [e], rfl, by simpa using he⟩

theorem aside_note (s : Machine) (n : Notice) : Aside s (s.note n) := by
  unfold note
  split
  · exact aside_record s rfl
  · exact .refl s

theorem aside_withKernel (s : Machine) (k : Kernel) : Aside s (s.withKernel k) :=
  ⟨rfl, rfl, rfl, id, Nat.le_refl _, [], rfl, by simp⟩

theorem aside_setNonblocking (s : Machine) (pid : Int) (n : Nat) : Aside s (s.setNonblocking pid n) := by
  induction n generalizing s with
  | zero => exact .refl s
  | succ n ih =>
    unfold setNonblocking
    dsimp only
    refine Aside.trans ?_ (ih _)
    split
    · exact aside_withKernel s _
    · exact (aside_withKernel s _).trans (aside_note _ _)

/-- A new watch that is not on a child. -/
theorem aside_addWatch (s : Machine) (priority : Loop.Priority) {src : Loop.Source Callback}
    (hsrc : ∀ pid fd st cb, src ≠ .child pid fd st cb) : Aside s (s.addWatch priority src).2 := by
  have hnone : Loop.Watch.ward? ⟨s.loop.lastId + 1, priority, src⟩ = none := by
    cases src with
    | child pid fd st cb => exact absurd rfl (hsrc pid fd st cb)
    | _ => rfl
  have hwards : (s.loop.insert priority src).2.wards = s.loop.wards := by
    rw [Loop.wards_insert, hnone]
    exact List.append_nil _
  exact ⟨rfl, rfl, hwards, fun ht => ht.insert priority src, Nat.le_succ _,
    [.added s.kernel.now (s.loop.lastId + 1)], rfl, by simp [Entry.isPlain]⟩

theorem aside_watchStream (s : Machine) (h g : Nat) (pid : Int) (st : Stream) (mode : Stdio) :
    Aside s (s.watchStream h g pid st mode).2 ∧
      ∀ p, (s.watchStream h g pid st mode).1 = some p →
        s.loop.lastId < p.watch ∧ p.watch ≤ (s.watchStream h g pid st mode).2.loop.lastId := by
  unfold watchStream
  split
  · refine ⟨aside_addWatch s _ (by simp), ?_⟩
    intro p hp
    cases hp
    exact ⟨Nat.lt_succ_self _, Nat.le_refl _⟩
  · exact ⟨.refl s, fun p hp => by cases hp⟩

/-- A handle that is not there has no life to be changed. -/
theorem handle_mapHandle_of_ne (s : Machine) {h i : Nat} (f : Handle → Handle)
    (hi : i ≠ h ∨ s.handles.length ≤ h) : (s.mapHandle h f).handle i = s.handle i := by
  rw [handle_mapHandle, if_neg (by omega)]

theorem handle_mapHandle_self (s : Machine) {h : Nat} (f : Handle → Handle)
    (hl : h < s.handles.length) : (s.mapHandle h f).handle h = f (s.handle h) := by
  rw [handle_mapHandle, if_pos ⟨rfl, hl⟩]

theorem loop_note (s : Machine) (n : Notice) : (s.note n).loop = s.loop := by
  unfold note
  split <;> rfl

/-- A new ward stands behind the others. -/
theorem wards_watchChild (s : Machine) (pid : Int) (priority : Loop.Priority) (cb : Callback) :
    (s.watchChild pid priority cb).2.loop.wards =
      s.loop.wards ++ [⟨s.loop.lastId + 1, pid, none, cb⟩] :=
  Loop.wards_insert s.loop priority (.child pid (s.kernel.deathFd pid) none cb)

theorem wired_watchChild {d f : Machine} {h g : Nat} {pid : Int} {out err : Option Pipe} (n : Notice)
    (hsd : Aside s d) (hdf : Aside d f)
    (hout : ∀ p, out = some p → s.loop.lastId < p.watch ∧ p.watch ≤ d.loop.lastId)
    (herr : ∀ p, err = some p → d.loop.lastId < p.watch ∧ p.watch ≤ f.loop.lastId) :
    Wired s ((f.watchChild pid Loop.Priority.normal (.reap h g)).2.note n) h g pid out err := by
  have hsf : Aside s f := hsd.trans hdf
  have hn := aside_note (f.watchChild pid Loop.Priority.normal (.reap h g)).2 n
  have hloop := loop_note (f.watchChild pid Loop.Priority.normal (.reap h g)).2 n
  generalize (f.watchChild pid Loop.Priority.normal (.reap h g)).2.note n = t at hn hloop ⊢
  have hlast : t.loop.lastId = f.loop.lastId + 1 := by rw [hloop]; rfl
  have hsd' := hsd.lastId
  have hdf' := hdf.lastId
  refine ⟨hn.handles.trans hsf.handles, hn.tags.trans hsf.tags, ?_, by omega, ?_, ?_, ?_⟩
  · intro ht
    rw [hloop]
    exact (hsf.tidy ht).insert _ _
  · rw [hlast, hloop, wards_watchChild, hsf.wards]
  · intro p hp
    rcases hp with hp | hp
    · have := hout p hp
      omega
    · have := herr p hp
      omega
  · obtain ⟨es, he, hp⟩ := hsf.journal
    obtain ⟨es', he', hp'⟩ := hn.journal
    have hw : (f.watchChild pid Loop.Priority.normal (.reap h g)).2.journal =
      .added f.kernel.now (f.loop.lastId + 1) :: f.journal := rfl
    refine ⟨es' ++ .added f.kernel.now (f.loop.lastId + 1) :: es, ?_, ?_⟩
    · rw [he', hw, he]
      simp
    · intro x hx
      rcases List.mem_append.1 hx with hx | hx
      · exact hp' x hx
      · rcases List.mem_cons.1 hx with rfl | hx
        · rfl
        · exact hp x hx

theorem adopted_adopt (s : Machine) (h : Nat) (c : Command) (e : Execution) (pid : Int) :
    Adopted s (s.adopt h c e pid) h e pid := by
  unfold adopt
  dsimp only
  -- the stages of the wiring: pipes, the new life, the watches on both streams, the ward, the notice
  have ha := aside_setNonblocking s pid
    ((if e.stdin = .pipe then 1 else 0) + (if e.out = .pipe then 1 else 0) + (if e.err = .pipe then 1 else 0))
  generalize s.setNonblocking pid _ = a at ha ⊢
  rw [ha.handle h]
  generalize hg : (s.handle h).generation + 1 = g
  generalize hb : Machine.record (a.mapHandle h _) _ = b
  have hout := aside_watchStream b h g pid .out e.out
  generalize b.watchStream h g pid .out e.out = r at hout ⊢
  obtain ⟨out, d⟩ := r
  have herr := aside_watchStream d h g pid .err e.err
  dsimp only at hout ⊢
  generalize d.watchStream h g pid .err e.err = r at herr ⊢
  obtain ⟨err, f⟩ := r
  have hw : Wired b ((f.watchChild pid Loop.Priority.normal (.reap h g)).2.note (.spawned pid g c)) h g
      pid out err := wired_watchChild _ hout.1 herr.1 hout.2 herr.2
  have hid : (f.watchChild pid Loop.Priority.normal (.reap h g)).1 =
      ((f.watchChild pid Loop.Priority.normal (.reap h g)).2.note (.spawned pid g c)).loop.lastId := by
    rw [loop_note]
    rfl
  dsimp only at hw hid ⊢
  rw [hid]
  generalize (f.watchChild pid Loop.Priority.normal (.reap h g)).2.note (.spawned pid g c) = n at hw ⊢
  have hlen : n.handles.length = s.handles.length := by
    rw [hw.handles, ← hb, ← ha.handles]
    exact List.length_modify _ _ _
  have hbloop : b.loop = a.loop := by rw [← hb]; rfl
  have hle := ha.lastId
  have hlt := hw.lastId
  rw [hbloop] at hlt
  constructor
  · intro ht
    refine hw.tidy ?_
    rw [hbloop]
    exact ha.tidy ht
  · exact Nat.lt_of_le_of_lt hle hlt
  · show n.loop.wards = s.loop.wards ++ [⟨n.loop.lastId, pid, none, .reap h ((s.handle h).generation + 1)⟩]
    rw [hw.wards, hbloop, ha.wards, hg]
  · show n.tags = s.tags
    rw [hw.tags, ← ha.tags, ← hb]
    rfl
  · intro i hi
    rw [handle_mapHandle_of_ne n _ (by rw [hlen]; exact hi), handle, hw.handles]
    show b.handle i = s.handle i
    rw [← ha.handle i, ← hb]
    exact handle_mapHandle_of_ne a _ (by rw [ha.handles]; exact hi)
  · intro hl
    refine ⟨out, err, ?_, ?_⟩
    · have hla : h < a.handles.length := by rw [ha.handles]; exact hl
      have hbh := (congrArg (fun m => m.handle h) hb).symm.trans (handle_mapHandle_self a _ hla)
      have hnh : n.handle h = b.handle h := by rw [handle, handle, hw.handles]
      rw [handle_mapHandle_self n _ (by rw [hlen]; exact hl), hnh, hbh, hg]
      rfl
    · intro p hp
      have hp := hw.pipes p hp
      rw [hbloop] at hp
      exact ⟨Nat.lt_of_le_of_lt hle hp.1, hp.2⟩
  · obtain ⟨es, he, hp⟩ := ha.journal
    obtain ⟨es', he', hp'⟩ := hw.journal
    have hbj : b.journal = .spawned h g pid :: a.journal := by rw [← hb]; rfl
    refine ⟨es, es', ?_, hp, hp'⟩
    show n.journal = _
    rw [he', hbj, he, hg]

/-! ### Closing -/

theorem wards_removeWatches (s : Machine) (ids : List Nat) :
    (ids.foldl removeWatch s).loop.wards = s.loop.wards.filter fun k => !ids.contains k.id := by
  induction ids generalizing s with
  | nil => simp
  | cons id ids ih =>
    rw [List.foldl_cons, ih]
    show List.filter _ (s.loop.erase id).wards = _
    rw [Loop.wards_erase, List.filter_filter]
    refine List.filter_congr fun k _ => ?_
    by_cases hk : k.id = id <;> simp [hk]

/-- Forgetting watches leaves handles, tags and numbers alone. -/
theorem removeWatches_spec (s : Machine) (ids : List Nat) :
    (ids.foldl removeWatch s).handles = s.handles ∧ (ids.foldl removeWatch s).tags = s.tags ∧
      (ids.foldl removeWatch s).loop.lastId = s.loop.lastId ∧
      (s.loop.Tidy → (ids.foldl removeWatch s).loop.Tidy) ∧
      ∃ es, (ids.foldl removeWatch s).journal = es ++ s.journal ∧ ∀ e ∈ es, e.isPlain = true := by
  induction ids generalizing s with
  | nil => exact ⟨rfl, rfl, rfl, fun h => h, [], rfl, by simp⟩
  | cons id ids ih =>
    obtain ⟨hh, ht, hl, htidy, es, he, hp⟩ := ih (s.removeWatch id)
    refine ⟨hh, ht, hl, fun h => htidy (h.erase id), es ++ [.removed id (s.loop.contains id)], ?_, ?_⟩
    · rw [List.foldl_cons, he, List.append_assoc]
      rfl
    · intro e hm
      rcases List.mem_append.1 hm with hm | hm
      · exact hp e hm
      · rw [List.mem_singleton.1 hm]
        rfl

theorem closeStdin_spec (s : Machine) (h : Nat) :
    (s.closeStdin h).loop = s.loop ∧ (s.closeStdin h).tags = s.tags ∧
      (s.closeStdin h).journal = s.journal ∧
      (s.closeStdin h).handles.length = s.handles.length ∧
      (∀ i, i ≠ h → (s.closeStdin h).handle i = s.handle i) ∧
      (s.closeStdin h).handle h = { s.handle h with stdin := none } := by
  unfold closeStdin
  split
  · next hnone =>
    refine ⟨rfl, rfl, rfl, rfl, fun _ _ => rfl, ?_⟩
    rw [← hnone]
  · next pid hsome =>
    have hl : h < s.handles.length := by
      refine lt_of_ne_fresh fun hf => ?_
      rw [hf] at hsome
      cases hsome
    refine ⟨rfl, rfl, rfl, List.length_modify _ _ _, ?_, ?_⟩
    · intro i hi
      exact handle_mapHandle_of_ne s _ (.inl hi)
    · exact handle_mapHandle_self s _ hl

theorem closed_close (s : Machine) {h : Nat}
    (hlive : (s.handle h).state = .running ∨ (s.handle h).state = .reaped) :
    Closed s (s.close h) h := by
  have hl : h < s.handles.length := by
    refine lt_of_ne_fresh fun hf => ?_
    rw [hf] at hlive
    rcases hlive with hst | hst <;> cases hst
  obtain ⟨hloop, htags, hjournal, hlen, hothers, hself⟩ := closeStdin_spec s h
  unfold close
  dsimp only
  rw [if_neg (by rcases hlive with hst | hst <;> rw [hst] <;> simp)]
  generalize s.closeStdin h = a at hloop htags hjournal hlen hothers hself ⊢
  have hmap := fun i (hi : i ≠ h) => (handle_mapHandle_of_ne a (h := h) (i := i)
    (fun x => { x with state := .closed, out := none, err := none, childWatch := none })
    (.inl hi)).trans (hothers i hi)
  have hmapSelf := handle_mapHandle_self a (h := h)
    (fun x => { x with state := .closed, out := none, err := none, childWatch := none })
    (by rw [hlen]; exact hl)
  rw [hself] at hmapSelf
  generalize hb : a.mapHandle h _ = b at hmap hmapSelf ⊢
  have hbl : b.loop = s.loop := by rw [← hb, ← hloop]; rfl
  have hbt : b.tags = s.tags := by rw [← hb, ← htags]; rfl
  have hbj : b.journal = s.journal := by rw [← hb, ← hjournal]; rfl
  obtain ⟨hrh, hrt, hrl, hrtidy, es, hre, hrp⟩ := removeWatches_spec b (s.handle h).watches
  have hrw := wards_removeWatches b (s.handle h).watches
  have hwatches : (s.handle h).out.toList.map (·.watch) ++ (s.handle h).err.toList.map (·.watch) ++
      (s.handle h).childWatch.toList = (s.handle h).watches := rfl
  rw [hwatches]
  generalize (s.handle h).watches.foldl removeWatch b = d at hrh hrt hrl hrtidy hre hrw ⊢
  have hdh : ∀ i, d.handle i = b.handle i := fun i => by rw [handle, handle, hrh]
  split
  · next pid hst hpid =>
    have hleft : (s.handle h).left? = some pid := by rw [Handle.left?, if_pos hst, hpid]
    have hlast : (d.watchChild pid Loop.Priority.normal .detached).2.loop.lastId = d.loop.lastId + 1 := rfl
    refine ⟨?_, ?_, ?_, ?_, ?_, ?_, .added d.kernel.now (d.loop.lastId + 1) :: es, ?_, ?_⟩
    · intro ht
      exact (hrtidy (by rw [hbl]; exact ht)).insert _ _
    · rw [hlast, hrl, hbl, hleft]
      rfl
    · rw [wards_watchChild, hrw, hbl, hleft, hlast]
      rfl
    · exact hrt.trans hbt
    · intro i hi
      exact (hdh i).trans (hmap i hi)
    · show (d.handle h).life = _
      rw [hdh, hmapSelf]
      rfl
    · show Entry.added d.kernel.now (d.loop.lastId + 1) :: d.journal = _
      rw [hre, hbj]
      rfl
    · intro e he
      rcases List.mem_cons.1 he with rfl | he
      · rfl
      · exact hrp e he
  · next hnone =>
    have hleft : (s.handle h).left? = none := by
      unfold Handle.left?
      split
      · next hst =>
        cases hpid : (s.handle h).pid with
        | none => rfl
        | some pid => exact absurd hpid (hnone pid hst)
      · rfl
    refine ⟨?_, ?_, ?_, ?_, ?_, ?_, es, ?_, hrp⟩
    · intro ht
      exact hrtidy (by rw [hbl]; exact ht)
    · rw [hrl, hbl, hleft]
      rfl
    · rw [hrw, hbl, hleft]
      simp
    · exact hrt.trans hbt
    · intro i hi
      exact (hdh i).trans (hmap i hi)
    · rw [hdh, hmapSelf]
      rfl
    · rw [hre, hbj]

theorem close_eq_self (s : Machine) {h : Nat}
    (hlive : ¬ ((s.handle h).state = .running ∨ (s.handle h).state = .reaped)) : s.close h = s := by
  unfold close
  dsimp only
  rw [if_pos]
  cases hst : (s.handle h).state <;> simp_all

end Machine

end Overseer
