import Overseer.Proofs.HandleOwnership
import Overseer.Proofs.WatchAccounts

/-!
# Accounts of handles

The books of the registry stay in order when a child is adopted, reaped or closed, and when a stream
is finished; a deed that closes a handle leaves its child to a watch of its own.

    leaving left o t  =  children left before the step from o, or in it as far as t

Main statement: `Accounts.loud`.
-/

namespace Overseer

open Supervisor
open Kernel (Stream)

namespace Machine

/-- The step from `o` has closed the handle `h` by now, and has left its child `p` to the watch `id`. -/
def Gone (o t : Machine) (h id : Nat) (p : Int) : Prop :=
  (o.handle h).left? = some p ∧ (t.handle h).state = .closed ∧ id = o.loop.lastId + 1

/-- Children left before the step from `o` or in it. -/
def leaving (left : Nat → Nat → Int → Prop) (o t : Machine) (h id : Nat) (p : Int) : Prop :=
  left h id p ∨ Gone o t h id p

variable {o s t : Machine} {σ τ : Stage} {A B D D' : List Duty} {d d' : Option (Nat × Event)} {id : Nat}
  {given : Nat → Prop} {left : Nat → Nat → Int → Prop} {log es : List Entry}

theorem left?_eq_some {x : Handle} {p : Int} : x.left? = some p ↔ x.state = .running ∧ x.pid = some p := by
  unfold Handle.left?
  split
  · next h => simp [h]
  · next h => simp [h]

/-- Nobody is left where no handle that ran before the step is closed. -/
theorem leaving_eq (hst : ∀ h, (o.handle h).state = .running →
    ((t.handle h).state = .closed ↔ (s.handle h).state = .closed)) : leaving left o t = leaving left o s := by
  funext h id p
  refine propext (or_congr_right ⟨fun ⟨hl, hc, hid⟩ => ?_, fun ⟨hl, hc, hid⟩ => ?_⟩)
  · exact ⟨hl, (hst h (left?_eq_some.1 hl).1).1 hc, hid⟩
  · exact ⟨hl, (hst h (left?_eq_some.1 hl).1).2 hc, hid⟩

theorem leaving_of_life (hl : ∀ h, (t.handle h).life.sealed = (s.handle h).life.sealed) :
    leaving left o t = leaving left o s :=
  leaving_eq fun h _ => by
    have hstate : (t.handle h).state = (s.handle h).state := congrArg Life.state (hl h)
    rw [hstate]

theorem ends_of_isLow {e : Entry} (he : e.isLow = true) (id : Nat) : e.ends id = false := by
  cases e <;> first | rfl | cases he

theorem ends_of_isWiring {e : Entry} (he : e.isWiring = true) (id : Nat) : e.ends id = false := by
  cases e <;> first | rfl | cases he

theorem Accounts.level (ha : Accounts given left ⟨s, D, d⟩ log) (hl : Level s t)
    (he : ∀ e ∈ es, e.isLow = true) : Accounts given left ⟨t, D, d⟩ (es ++ log) := by
  have ht := hl.traffic ha.slots
  refine ⟨ht.slots, ?_, ha.marks.traffic ha.slots ht fun id hid => .inl (hl.raised id hid)⟩
  exact ha.ledger.still ha.slots ht hl.lastId hl.life hl.tags (fun _ h => h) (fun _ h => .inl h) (fun _ h => h)
    fun id => not_ended fun e hm => ends_of_isLow (he e hm) id

/-- The machine has changed in nothing that the accounts are about, but for duties on top. -/
theorem Accounts.passing (ha : Accounts given left ⟨s, A ++ D, d⟩ log)
    (hloop : t.loop = s.loop) (hlife : ∀ h, (t.handle h).life.sealed = (s.handle h).life.sealed)
    (htags : t.tags = s.tags) (hraised : t.raised = s.raised) (hA : lentOut A = []) (hB : lentOut B = [])
    (hring : ∀ id, .ring id ∉ B) (hclear : ∀ id, .clear id ∈ B ↔ .clear id ∈ A)
    (hreap : ∀ x ∈ B.flatMap Duty.reapings, x ∈ A.flatMap Duty.reapings)
    (hstack : Stacked (Poised t) none (A ++ D) → Stacked (Poised t) none (B ++ D))
    (hends : ∀ e ∈ es, ∀ id, e.ends id = false) : Accounts given left ⟨t, B ++ D, d'⟩ (es ++ log) := by
  have hlent : lentOut (B ++ D) = lentOut (A ++ D) := by
    rw [lentOut_append, lentOut_append, hA, hB]
  have ht : Traffic ⟨s, A ++ D, d⟩ ⟨t, B ++ D, d'⟩ fun _ => False :=
    traffic_erased ha.slots (by rw [hloop]) (fun _ h => h.elim) (fun id _ => by rw [hloop]) (by rw [hlent])
      fun x hx => .inr (by rwa [hlent])
  have hkept := ha.marks.traffic ha.slots ht fun id hid => .inl (by rwa [hraised] at hid)
  refine ⟨ht.slots, ?_, ?_⟩
  · refine ha.ledger.still ha.slots ht (by rw [hloop]) hlife htags (fun id hid => ?_) (fun id hid => .inl ?_)
      (fun x hx => ?_) fun id => not_ended fun e he => hends e he id
    · rcases List.mem_append.1 hid with hid | hid
      · exact List.mem_append_left _ ((hclear id).1 hid)
      · exact List.mem_append_right _ hid
    · rcases List.mem_append.1 hid with hid | hid
      · exact List.mem_append_left _ ((hclear id).2 hid)
      · exact List.mem_append_right _ hid
    · rw [List.flatMap_append] at hx ⊢
      rcases List.mem_append.1 hx with hx | hx
      · exact List.mem_append_left _ (hreap x hx)
      · exact List.mem_append_right _ hx
  · exact hkept.replace hA hB (fun id hid => absurd hid (hring id)) (fun id hid => .inl ((hclear id).1 hid))
      (hstack hkept.stack)

/-- A reaped handle does not await its child any more, whose watch is gone. -/
theorem Accounts.reaped {x : Reaping} (ha : Accounts given left ⟨s, .reap x [] :: D, none⟩ log)
    (hg : (s.handle x.h).generation = x.g) (hrun : (s.handle x.h).state = .running) :
    Accounts given left ⟨s.mapHandle x.h fun y =>
      { y with state := .reaped, status := some x.status, childWatch := none }, D, some (x.h, .reaped x.status)⟩
      ([] ++ log) := by
  have hself := handle_mapHandle_self s (h := x.h)
    (fun y => { y with state := .reaped, status := some x.status, childWatch := none }) (lt_of_running hrun)
  have hothers := fun i (hi : i ≠ x.h) => handle_mapHandle_of_ne s (h := x.h) (i := i)
    (fun y => { y with state := .reaped, status := some x.status, childWatch := none }) (.inl hi)
  have hloop : (s.mapHandle x.h fun y =>
    { y with state := .reaped, status := some x.status, childWatch := none }).loop = s.loop := rfl
  have htags : (s.mapHandle x.h fun y =>
    { y with state := .reaped, status := some x.status, childWatch := none }).tags = s.tags := rfl
  have hraised : (s.mapHandle x.h fun y =>
    { y with state := .reaped, status := some x.status, childWatch := none }).raised = s.raised := rfl
  generalize s.mapHandle x.h _ = t at hself hothers hloop htags hraised ⊢
  have ht : Traffic ⟨s, .reap x [] :: D, none⟩ ⟨t, D, some (x.h, .reaped x.status)⟩ fun _ => False :=
    traffic_erased ha.slots (by rw [hloop]) (fun _ h => h.elim) (fun id _ => by rw [hloop]) (.refl _)
      fun _ hx => .inr hx
  have hkept := ha.marks.traffic ha.slots ht fun id hid => .inl (by rwa [hraised] at hid)
  have hnone := (ha.ledger.reaping x List.mem_cons_self).2 hg.symm
  refine ⟨ht.slots, ?_, ?_⟩
  · refine ha.ledger.carry ha.slots ht (fun id hid => ?_) (fun i => ?_) htags
      (fun id hid => List.mem_cons_of_mem _ hid) (fun id hid => .inl (by simpa using hid))
      (fun y hy => .inl (List.mem_cons_of_mem _ hy)) (fun id hend => absurd hend (not_ended (by simp)))
      (fun _ _ h => h.elim) fun _ _ h => h.elim
    · show t.loop.look id = none
      rw [hloop]
      exact look_of_lt ha.slots hid
    · by_cases hi : i = x.h
      · subst hi
        show Trimmed _ t (s.handle x.h) (t.handle x.h)
        rw [hself]
        refine ⟨rfl, rfl, fun st => .inl ⟨by cases st <;> rfl, fun _ _ h => h⟩, .inr ⟨rfl, fun id hid => ?_⟩,
          fun hst => ?_⟩
        · rw [hloop]
          exact hnone id hid
        · rcases hst with hst | hst <;> cases hst
      · exact trimmed_of_handle (hothers i hi) fun _ _ _ h => h
  · exact hkept.replace (A := [.reap x []]) (B := []) rfl rfl (by simp) (by simp)
      (poised_under hkept.stack.2 (by simp) (by simp) (by simp) none)

/-- A stream that is let go of has lost its watch when its callback returns. -/
theorem Accounts.finished {h : Nat} {st : Stream} {p : Pipe} {r : Except Int Bytes} {n : Notice}
    (ha : Accounts given left ⟨s, .drain h st (s.handle h).generation :: D, none⟩ log)
    (hp : (s.handle h).pipe st = some p)
    (hj : (((s.record (.read h (s.handle h).generation st r)).note n).releaseStream h st).journal =
      es ++ s.journal) :
    Accounts given left ⟨((s.record (.read h (s.handle h).generation st r)).note n).releaseStream h st,
      .verdict false :: D, d⟩ (es ++ log) := by
  have hrel := release_releaseStream hp r n
  generalize ((s.record (.read h (s.handle h).generation st r)).note n).releaseStream h st = t at hj hrel ⊢
  have ht : Traffic ⟨s, .drain h st (s.handle h).generation :: D, none⟩ ⟨t, .verdict false :: D, d⟩
      fun id => id = p.watch :=
    traffic_erased ha.slots hrel.lastId (fun id hid => (hrel.look id).trans (if_pos hid))
      (fun id hid => (hrel.look id).trans (if_neg hid)) (.refl _) fun _ hx => .inr hx
  have hkept := ha.marks.traffic ha.slots ht fun id hid => .inl (by rwa [hrel.raised] at hid)
  have hmine := ha.ledger.pipe h st p hp
  have hpipe : ∀ i st' q, (s.handle i).pipe st' = some q → q.watch = p.watch → i = h ∧ st' = st := by
    intro i st' q hq hid
    have hb := ha.ledger.pipe i st' q hq
    rw [hid] at hb
    have hrole := (eq_of_books ha.slots hb hmine).2
    injection hrole with hi hst
    exact ⟨hi, hst⟩
  refine ⟨ht.slots, ?_, ?_⟩
  · refine ha.ledger.carry ha.slots ht (fun id hid => look_of_lt ht.slots ?_) (fun i => ?_) hrel.tags
      (fun id hid => by simpa using hid) (fun id hid => .inl (by simpa using hid)) (fun y hy => .inl hy)
      (fun id hend => ?_) (fun id f hid hb => ?_) fun id f hid hb => ?_
    · exact Nat.lt_of_le_of_lt (Nat.le_of_eq hrel.lastId) hid
    · by_cases hi : i = h
      · subst hi
        show Trimmed _ t (s.handle i) (t.handle i)
        rw [hrel.handle]
        refine ⟨by cases st <;> rfl, by cases st <;> rfl, fun st' => ?_, .inl (by cases st <;> rfl),
          fun hst => .inl (by cases st <;> exact hst)⟩
        by_cases hst : st' = st
        · subst hst
          refine .inr ⟨by cases st' <;> rfl, fun q hq => ?_⟩
          cases hp.symm.trans hq
          rfl
        · refine .inl ⟨?_, fun q hq hid => hst (hpipe i st' q hq hid).2⟩
          cases st <;> cases st' <;> first | rfl | exact absurd rfl hst
      · exact trimmed_of_handle (hrel.others i hi) fun st' q hq hid => hi (hpipe i st' q hq hid).1
    · obtain ⟨more, hmore, hmere⟩ := hrel.journal
      obtain rfl : more ++ [.read h (s.handle h).generation st r] = es :=
        List.append_cancel_right (by rw [← hj, hmore, List.append_assoc]; rfl)
      obtain ⟨e, he, hends⟩ := hend
      rcases List.mem_append.1 he with he | he
      · rcases hmere e he with hm | ⟨b, rfl⟩
        · rw [ends_of_isLow (Entry.isLow_of_isMere hm)] at hends
          cases hends
        · obtain ⟨rfl, -⟩ : p.watch = id ∧ b = true := by simpa [Entry.ends] using hends
          exact ⟨rfl, le_of_books ha.slots hmine⟩
      · rw [List.mem_singleton.1 he] at hends
        cases hends
    · subst hid
      cases (eq_of_books ha.slots hb hmine).2
    · subst hid
      cases (eq_of_books ha.slots hb hmine).2
  · refine hkept.replace (A := [.drain h st (s.handle h).generation]) (B := [.verdict false]) rfl rfl (by simp)
      (by simp) ⟨poised_of_ne (by simp), poised_drained hkept.stack.2 false fun id hid => .inl ?_⟩
    rw [hrel.look]
    split
    · rfl
    · next hne =>
      cases hw : s.loop.look id with
      | none => rfl
      | some w =>
        obtain ⟨r', hb⟩ := books_of_look ha.slots hw
        obtain ⟨rfl, -⟩ := books_of_lent ha.slots (mem_lentOut.2 (List.mem_cons_of_mem _ hid)) hb
        obtain ⟨-, q, hq, rfl⟩ := ha.ledger.owned id _ _ hb
        cases hp.symm.trans hq
        exact absurd rfl hne

theorem Accounts.adopted {h : Nat} {c : Command} {e : Execution} {pid : Int} {k : Kernel}
    (ha : Accounts given left ⟨s, D, none⟩ log) (hf : Footing ⟨s, D, none⟩ log) (hl : h < s.handles.length)
    (hstate : (s.handle h).state = .notStarted ∨ (s.handle h).state = .closed)
    (hj : (((s.record (.executed e)).withKernel k).adopt h c e pid).journal = es ++ s.journal) :
    Accounts given left ⟨((s.record (.executed e)).withKernel k).adopt h c e pid, D, none⟩ (es ++ log) := by
  have hadopt := adoption_adopt ((s.record (.executed e)).withKernel k) hf.tidy hl c e pid
  generalize ((s.record (.executed e)).withKernel k).adopt h c e pid = t at hj hadopt ⊢
  have hready : Accounts given left ⟨(s.record (.executed e)).withKernel k, D, none⟩ ([.executed e] ++ log) :=
    ha.passing (A := []) (B := []) rfl (fun _ => rfl) rfl rfl rfl rfl (by simp) (by simp) (by simp) (fun h => h)
      (by simp [Entry.ends, Entry.reports])
  have hclaimed : Claimed ⟨(s.record (.executed e)).withKernel k, D, none⟩ :=
    ⟨hf.claimed.tag, hf.claimed.clear, hf.claimed.child⟩
  obtain ⟨before, after, hnews, hb, haf⟩ := hadopt.journal
  have hends : ∀ id, ¬ Ended id (after ++ .spawned h ((s.handle h).generation + 1) pid :: before) := by
    refine fun id => not_ended fun x hx => ?_
    rcases List.mem_append.1 hx with hx | hx
    · exact ends_of_isWiring (haf x hx) id
    · rcases List.mem_cons.1 hx with rfl | hx
      · rfl
      · exact ends_of_isWiring (hb x hx) id
  obtain ⟨ht, hledger⟩ := hready.ledger.adopted hready.slots hclaimed hadopt hstate hends
  obtain rfl : after ++ .spawned h ((s.handle h).generation + 1) pid :: (before ++ [.executed e]) = es := by
    have hsplit : t.journal =
        after ++ .spawned h ((s.handle h).generation + 1) pid :: (before ++ [.executed e]) ++ s.journal := by
      rw [hnews, List.append_assoc, List.cons_append, List.append_assoc]
      rfl
    exact List.append_cancel_right (hsplit.symm.trans hj)
  refine ⟨ht.slots, ?_, hready.marks.traffic hready.slots ht fun id hid => .inl (by rwa [hadopt.raised] at hid)⟩
  have hsame : after ++ .spawned h ((s.handle h).generation + 1) pid :: (before ++ [.executed e]) ++ log =
      after ++ .spawned h ((s.handle h).generation + 1) pid :: before ++ ([.executed e] ++ log) := by simp
  rw [hsame]
  exact hledger

theorem Accounts.closed {h : Nat} (ha : Accounts given (leaving left o s) ⟨s, D, none⟩ log)
    (hf : Footing ⟨s, D, none⟩ log) (hs : SameChildren o s) (hlast : s.loop.lastId = o.loop.lastId)
    (hj : (s.close h).journal = es ++ s.journal) :
    Accounts given (leaving left o (s.close h)) ⟨s.close h, D, none⟩ (es ++ log) := by
  by_cases hlive : (s.handle h).state = .running ∨ (s.handle h).state = .reaped
  · have hcl := closure_close s hf.tidy hlive
    have hcd := closed_close s hlive
    obtain ⟨es', he, hes⟩ := hcl.journal
    obtain rfl : es' = es := List.append_cancel_right (he.symm.trans hj)
    have hends : ∀ id, Ended id es' → id ∈ (s.handle h).watches := by
      rintro id ⟨e, hm, hend⟩
      obtain ⟨hun, hrem⟩ := hes e hm
      cases e with
      | removed i found =>
        obtain ⟨rfl, rfl⟩ : i = id ∧ found = true := by simpa [Entry.ends] using hend
        exact hrem i rfl
      | added time i => cases hend
      | _ => cases hun
    have hleft : ∀ i id p, leaving left o (s.close h) i id p ↔ leaving left o s i id p ∨
        (i = h ∧ id = s.loop.lastId + 1 ∧ (s.handle h).left? = some p) := by
      intro i id p
      have hstate : ((s.close h).handle h).state = .closed := congrArg Life.state hcd.handle
      have hlife : (o.handle h).left? = (s.handle h).left? := by
        have hst : (s.handle h).state = (o.handle h).state := congrArg Life.state (hs.life h)
        have hpid : (s.handle h).pid = (o.handle h).pid := congrArg Life.pid (hs.life h)
        rw [Handle.left?, Handle.left?, hst, hpid]
      by_cases hi : i = h
      · subst hi
        have hnot : (s.handle i).state ≠ .closed := by
          intro hc
          rw [hc] at hlive
          rcases hlive with hlive | hlive <;> cases hlive
        unfold leaving Gone
        rw [hlife, hlast]
        simp only [hstate, hnot, true_and, false_and, and_false, or_false]
        exact or_congr_right and_comm
      · unfold leaving Gone
        rw [hcl.others i hi]
        simp [hi]
    obtain ⟨ht, hledger⟩ := ha.ledger.closed ha.slots hf hlive hends hleft
    exact ⟨ht.slots, hledger, ha.marks.traffic ha.slots ht fun id hid => .inl (by rwa [hcl.raised] at hid)⟩
  · rw [close_eq_self s hlive] at hj ⊢
    obtain rfl : es = [] := List.append_cancel_right (hj.symm.trans (List.nil_append _).symm)
    exact ha

/-- The accounts are kept by every deed of a step that does not register a watch of the user. -/
theorem Accounts.loud (ha : Accounts given (leaving left o σ.machine) σ log) (hf : Footing σ log)
    (hl : Loud o σ τ) (hj : τ.machine.journal = es ++ σ.machine.journal) (ho : o.registers = false) :
    Accounts given (leaving left o τ.machine) τ (es ++ log) := by
  have hes : ∀ more, τ.machine.journal = more ++ σ.machine.journal → more = es := fun _ he =>
    List.append_cancel_right (he.symm.trans hj)
  cases hl with
  | @stirred s t D D' d hs =>
    have hhandle : ∀ h, t.handle h = s.handle h := fun h => by rw [handle, handle, hs.bystanding.handles]
    have hsame : leaving left o t = leaving left o s := leaving_of_life fun h => by rw [hhandle]
    dsimp only at ha ⊢
    rw [hsame]
    exact ha.stir hf hs hj ho
  | @adopted s D h c e pid k hname hstate hsp he hk hs =>
    have hlen := hf.lt_of_named hname
    have hsame : leaving left o (((s.record (.executed e)).withKernel k).adopt h c e pid) = leaving left o s := by
      have hadopt := adoption_adopt ((s.record (.executed e)).withKernel k) hf.tidy hlen c e pid
      refine leaving_eq fun i hrun => ?_
      have hi : i ≠ h := by
        rintro rfl
        have hst : (s.handle i).state = (o.handle i).state := congrArg Life.state (hs.life i)
        rw [hst, hrun] at hstate
        rcases hstate with hstate | hstate <;> cases hstate
      rw [hadopt.others i hi]
      exact Iff.rfl
    dsimp only at ha ⊢
    rw [hsame]
    exact ha.adopted hf hlen hstate hj
  | closed h hc hs hlast hrs => exact ha.closed hf hs hlast hj
  | @reaped s D x hg hrun hs =>
    obtain rfl := hes [] rfl
    have hsame : leaving left o (s.mapHandle x.h fun y =>
        { y with state := .reaped, status := some x.status, childWatch := none }) = leaving left o s := by
      refine leaving_eq fun i _ => ?_
      rw [handle_mapHandle]
      split
      · next hi =>
        obtain ⟨rfl, -⟩ := hi
        simp [hrun]
      · exact Iff.rfl
    dsimp only at ha ⊢
    rw [hsame]
    exact ha.reaped hg hrun
  | @read s D h st p r hp hr hk hc hs =>
    obtain rfl := hes [_] rfl
    have hread : ∀ e ∈ [Entry.read h (s.handle h).generation st r], ∀ id, e.ends id = false := by
      simp [Entry.ends, Entry.reports]
    have again : Accounts given (leaving left o s) ⟨s.record (.read h (s.handle h).generation st r),
        .drain h st (s.handle h).generation :: D, (readSays st r).map (h, ·)⟩
          ([.read h (s.handle h).generation st r] ++ log) :=
      ha.passing (A := [.drain h st (s.handle h).generation]) (B := [.drain h st (s.handle h).generation]) rfl
        (fun _ => rfl) rfl rfl rfl rfl (by simp) (by simp) (by simp) (fun hst => hst) hread
    cases r with
    | ok bytes => exact again
    | error e =>
      by_cases hi : e = Os.Failure.interrupted
      · rw [readLeaves, if_pos hi]
        exact again
      · rw [readLeaves, if_neg hi]
        exact ha.passing (A := [.drain h st (s.handle h).generation]) (B := [.verdict true]) rfl
          (fun _ => rfl) rfl rfl
          rfl rfl (by simp) (by simp) (fun _ hx => absurd hx List.not_mem_nil)
          (fun hst => ⟨poised_of_ne (by simp), poised_drained hst.2 true fun _ _ => .inr rfl⟩) hread
  | @finished s D h st p r n hp hr hk hs =>
    have hrel := release_releaseStream hp r n
    have hsame : leaving left o (((s.record (.read h (s.handle h).generation st r)).note n).releaseStream h st) =
        leaving left o s := by
      refine leaving_eq fun i _ => ?_
      by_cases hi : i = h
      · subst hi
        rw [hrel.handle]
        cases st <;> exact Iff.rfl
      · rw [hrel.others i hi]
    dsimp only at ha ⊢
    rw [hsame]
    exact ha.finished hp hj
  | @emitted s D h e f hlife hf' hs =>
    obtain rfl := hes [_] rfl
    have hl : ∀ i, (((s.record (.emitted h (s.handle h).generation e)).mapHandle h f).handle i).life =
        (s.handle i).life := fun i => life_mapHandle _ h i hlife
    have hsame : leaving left o ((s.record (.emitted h (s.handle h).generation e)).mapHandle h f) =
        leaving left o s := leaving_of_life fun i => by rw [hl i]
    dsimp only at ha ⊢
    rw [hsame]
    exact ha.passing (A := []) (B := []) rfl (fun i => by rw [hl i]) rfl rfl rfl rfl (by simp) (by simp) (by simp)
      (fun h => h) (by simp [Entry.ends, Entry.reports])
  | @handed s D h e rest entry f hbox hentry hlife hf' =>
    obtain rfl := hes [entry] rfl
    have hl : ∀ i, ((s.mapHandle h f).handle i).life = (s.handle i).life := fun i => life_mapHandle s h i hlife
    have hsame : leaving left o ((s.mapHandle h f).record entry) = leaving left o s :=
      leaving_of_life fun i => congrArg Life.sealed (hl i)
    dsimp only at ha ⊢
    rw [hsame]
    refine ha.passing (A := []) (B := []) rfl (fun i => congrArg Life.sealed (hl i)) rfl rfl rfl rfl (by simp)
      (by simp) (by simp) (fun h => h) fun e' he' id => ?_
    rw [List.mem_singleton.1 he']
    rcases hentry with rfl | ⟨n, rfl⟩ <;> rfl

end Machine

end Overseer
