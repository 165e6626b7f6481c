import Overseer.Proofs.Signals

/-!
# Statuses that are handed over, parked and passed on

What waitpid tells is handed to the loop.  It is parked on the watch of the child, until the callback
of the watch is called with it.

    handed log   =  the statuses that waitpid has handed to the loop
    passed log   =  the statuses with which callbacks of child watches have been called
    parked ws    =  the statuses that stand on the wards ws
    openPids ws  =  the pids of the wards that wait for an end

A collection parks what it is handed, asks about a pid of an open ward only, and about none behind
its end (`parked_collectIn`, `openPids_collectIn`, `onceAsked_collectIn`).
-/

namespace Overseer

open Supervisor
open Kernel (Wait)

/-- The status that an answer hands over; an interrupted question and a child that runs give none. -/
def Kernel.Wait.handed? (a : Wait) : Option ExitStatus := if a.isFinal then Loop.statusOf a else none

namespace Supervisor

def handed : List Entry → List (Int × ExitStatus)
  | [] => []
  | .asked p a :: r => a.handed?.toList.map (fun st => (p, st)) ++ handed r
  | _ :: r => handed r

def passed : List Entry → List (Int × ExitStatus)
  | [] => []
  | .started _ _ (.child p st) :: r => (p, st) :: passed r
  | _ :: r => passed r

/-- No question is asked about a pid that has been collected since its last spawn. -/
def OnceAsked (log : List Entry) : Prop :=
  ∀ newer p a older, log = newer ++ .asked p a :: older → collected p older = false

def Ward.parked? (k : Ward) : Option (Int × ExitStatus) := k.status.map fun st => (k.pid, st)

def Ward.open? (k : Ward) : Option Int := if k.status.isNone then some k.pid else none

def parked (ws : List Ward) : List (Int × ExitStatus) := ws.filterMap Ward.parked?

/-- The pids of the wards that wait for an end. -/
def openPids (ws : List Ward) : List Int := ws.filterMap Ward.open?

/-- What the answers of one collection hand over. -/
def handedIn (asked : List (Int × Wait)) : List (Int × ExitStatus) :=
  asked.flatMap fun x => x.2.handed?.toList.map fun st => (x.1, st)

end Supervisor

namespace Supervisor

variable {log : List Entry}

theorem parked_cons (k : Ward) (ws : List Ward) :
    parked (k :: ws) = k.status.toList.map (fun st => (k.pid, st)) ++ parked ws := by
  unfold parked
  rw [List.filterMap_cons, Ward.parked?]
  cases k.status <;> rfl

theorem openPids_cons (k : Ward) (ws : List Ward) :
    openPids (k :: ws) = (if k.status.isNone then [k.pid] else []) ++ openPids ws := by
  unfold openPids
  rw [List.filterMap_cons, Ward.open?]
  cases k.status <;> rfl

theorem parked_append (ws ws' : List Ward) : parked (ws ++ ws') = parked ws ++ parked ws' :=
  List.filterMap_append

theorem openPids_append (ws ws' : List Ward) : openPids (ws ++ ws') = openPids ws ++ openPids ws' :=
  List.filterMap_append

theorem parked_detached (id : Nat) (ps : List Int) :
    parked (ps.map fun p => ⟨id, p, none, .detached⟩) = [] := by
  induction ps with
  | nil => rfl
  | cons p ps ih => exact ih

theorem openPids_detached (id : Nat) (ps : List Int) :
    openPids (ps.map fun p => ⟨id, p, none, .detached⟩) = ps := by
  induction ps with
  | nil => rfl
  | cons p ps ih => exact congrArg (List.cons p) ih

theorem handed_questions (asked : List (Int × Wait)) (log : List Entry) :
    (handed (questions asked ++ log)).Perm (handedIn asked ++ handed log) := by
  induction asked generalizing log with
  | nil => exact .refl _
  | cons x r ih =>
    have hsplit : questions (x :: r) ++ log = questions r ++ (.asked x.1 x.2 :: log) := by
      simp [questions]
    rw [hsplit]
    refine (ih _).trans ?_
    show (handedIn r ++ (_ ++ handed log)).Perm ((_ ++ handedIn r) ++ handed log)
    rw [← List.append_assoc]
    exact List.Perm.append_right _ List.perm_append_comm

theorem passed_questions (asked : List (Int × Wait)) (log : List Entry) :
    passed (questions asked ++ log) = passed log := by
  induction asked generalizing log with
  | nil => rfl
  | cons x r ih =>
    have hsplit : questions (x :: r) ++ log = questions r ++ (.asked x.1 x.2 :: log) := by
      simp [questions]
    rw [hsplit, ih]
    rfl

theorem handed_aside {es : List Entry} (he : ∀ e ∈ es, e.isAside = true) :
    handed (es ++ log) = handed log := by
  induction es with
  | nil => rfl
  | cons e es ih =>
    have hrest := ih fun x hx => he x (List.mem_cons_of_mem _ hx)
    have hfirst : e.isAside = true := he e List.mem_cons_self
    rw [← hrest, List.cons_append]
    cases e with
    | asked p a => cases hfirst
    | _ => rfl

theorem passed_aside {es : List Entry} (he : ∀ e ∈ es, e.isAside = true) :
    passed (es ++ log) = passed log := by
  induction es with
  | nil => rfl
  | cons e es ih =>
    have hrest := ih fun x hx => he x (List.mem_cons_of_mem _ hx)
    have hfirst : e.isAside = true := he e List.mem_cons_self
    rw [← hrest, List.cons_append]
    cases e with
    | started time id p =>
      cases p with
      | child pid st => cases hfirst
      | _ => rfl
    | _ => rfl

theorem onceAsked_nil : OnceAsked [] := by
  intro newer p a older h
  cases newer <;> cases h

theorem OnceAsked.cons (h : OnceAsked log) {e : Entry}
    (he : ∀ p a, e = .asked p a → collected p log = false) : OnceAsked (e :: log) := by
  intro newer p a older hsplit
  cases newer with
  | nil =>
    obtain ⟨rfl, rfl⟩ := List.cons.inj hsplit
    exact he p a rfl
  | cons x newer => exact h newer p a older (List.cons.inj hsplit).2

theorem OnceAsked.aside (h : OnceAsked log) {es : List Entry} (he : ∀ e ∈ es, e.isAside = true) :
    OnceAsked (es ++ log) := by
  induction es with
  | nil => exact h
  | cons e es ih =>
    refine (ih fun x hx => he x (List.mem_cons_of_mem _ hx)).cons fun p a hpa => ?_
    have hfirst := he e List.mem_cons_self
    rw [hpa] at hfirst
    cases hfirst

theorem questions_append (asked more : List (Int × Wait)) :
    questions (asked ++ more) = questions more ++ questions asked := by
  simp [questions]

/-- Questions about one pid that is not collected, of which only the last may tell its end. -/
theorem onceAsked_questions {p : Int} {a : Wait} (n : Nat) (h : OnceAsked log)
    (hp : collected p log = false) :
    OnceAsked (questions ((List.replicate n (Wait.failed 4) ++ [a]).map fun x => (p, x)) ++ log) := by
  have hint : OnceAsked (questions ((List.replicate n (Wait.failed 4)).map fun x => (p, x)) ++ log) ∧
      collected p (questions ((List.replicate n (Wait.failed 4)).map fun x => (p, x)) ++ log) = false := by
    induction n with
    | zero => exact ⟨h, hp⟩
    | succ n ih =>
      have hsplit : questions ((List.replicate (n + 1) (Wait.failed 4)).map fun x => (p, x)) ++ log =
          .asked p (.failed 4) ::
            (questions ((List.replicate n (Wait.failed 4)).map fun x => (p, x)) ++ log) := by
        rw [List.replicate_succ', List.map_append, questions_append]
        rfl
      rw [hsplit]
      refine ⟨ih.1.cons fun q b he => ?_, ?_⟩
      · cases he
        exact ih.2
      · show ((p == p && Wait.isEnd (.failed 4)) || collected p (questions
          ((List.replicate n (Wait.failed 4)).map fun x => (p, x)) ++ log)) = false
        rw [ih.2]
        simp [Wait.isEnd]
  rw [List.map_append, questions_append, List.append_assoc]
  refine hint.1.cons fun q b he => ?_
  cases he
  exact hint.2

theorem collected_questions_of_ne {p q : Int} {asked : List Wait} (hne : p ≠ q) :
    collected q (questions (asked.map fun x => (p, x)) ++ log) = collected q log := by
  rw [collected, heard_questions_append]
  have hany : ((asked.map fun x => (p, x)).any fun x => x.1 == q && x.2.isEnd) = false := by
    rw [List.any_eq_false]
    intro x hx
    obtain ⟨a, -, rfl⟩ := List.mem_map.1 hx
    simp [hne]
  rw [hany]
  rfl

end Supervisor

namespace Loop

open Supervisor

variable {log : List Entry}

theorem handed?_eq {a : Wait} (h : a ≠ .failed 4) : a.handed? = statusOf a := by
  cases a with
  | running => rfl
  | ended raw => rfl
  | failed e =>
    have he : e ≠ 4 := fun he => h (by rw [he])
    simp [Wait.handed?, Wait.isFinal, he]

/-- The questions about one child hand over what the last one of them tells. -/
theorem handedIn_asked {k k' : Kernel} {p : Int} {asked : List Wait} {a : Wait}
    (h : Asked k p asked a k') :
    handedIn (asked.map fun x => (p, x)) = (statusOf a).toList.map fun st => (p, st) := by
  obtain ⟨n, rfl⟩ := h.eq
  have hint : ∀ m, handedIn ((List.replicate m (Wait.failed 4)).map fun x => (p, x)) = [] := by
    intro m
    induction m with
    | zero => rfl
    | succ m ih =>
      rw [List.replicate_succ, List.map_cons]
      exact ih
  rw [List.map_append, handedIn, List.flatMap_append, ← handedIn, hint n, ← handed?_eq h.final]
  simp

/-- A collection parks what its answers hand over. -/
theorem parked_collectIn (ws : List (Watch Callback)) (k : Kernel) :
    (parked ((collectIn ws k).1.filterMap Watch.ward?)).Perm
      (handedIn (collectIn ws k).2.1 ++ parked (ws.filterMap Watch.ward?)) := by
  induction ws generalizing k with
  | nil => exact .refl _
  | cons w r ih =>
    rcases collectIn_cons w r k with ⟨a, asked, k', ward, hw, hn, hasked, w', -, hw', heq⟩ | ⟨hsome, heq⟩
    · rw [heq, List.filterMap_cons_some hw, List.filterMap_cons_some hw', parked_cons, parked_cons, hn,
        handedIn, List.flatMap_append, ← handedIn, handedIn_asked hasked, List.append_assoc]
      exact (ih k').append_left _
    · rw [heq]
      cases hw : w.ward? with
      | none =>
        rw [List.filterMap_cons_none hw, List.filterMap_cons_none hw]
        exact ih k
      | some ward =>
        obtain ⟨st, hst⟩ := Option.ne_none_iff_exists'.1 (hsome ward hw)
        rw [List.filterMap_cons_some hw, List.filterMap_cons_some hw, parked_cons, parked_cons, hst]
        exact ((ih k).cons _).trans List.perm_middle.symm

theorem openPids_collectIn (ws : List (Watch Callback)) (k : Kernel) :
    (openPids ((collectIn ws k).1.filterMap Watch.ward?)).Sublist
      (openPids (ws.filterMap Watch.ward?)) := by
  induction ws generalizing k with
  | nil => exact .refl _
  | cons w r ih =>
    rcases collectIn_cons w r k with ⟨a, asked, k', ward, hw, hn, hasked, w', -, hw', heq⟩ | ⟨hsome, heq⟩
    · rw [heq, List.filterMap_cons_some hw, List.filterMap_cons_some hw', openPids_cons, openPids_cons, hn]
      refine List.Sublist.append ?_ (ih k')
      cases statusOf a with
      | none => exact .refl _
      | some st => exact List.nil_sublist _
    · rw [heq]
      cases hw : w.ward? with
      | none =>
        rw [List.filterMap_cons_none hw, List.filterMap_cons_none hw]
        exact ih k
      | some ward =>
        rw [List.filterMap_cons_some hw, List.filterMap_cons_some hw, openPids_cons, openPids_cons]
        exact (ih k).append_left _

/-- A collection asks about each open pid in turn, and about no pid after its end. -/
theorem onceAsked_collectIn (ws : List (Watch Callback)) (k : Kernel) (h : OnceAsked log)
    (hn : (openPids (ws.filterMap Watch.ward?)).Nodup)
    (hu : ∀ p ∈ openPids (ws.filterMap Watch.ward?), collected p log = false) :
    OnceAsked (questions (collectIn ws k).2.1 ++ log) := by
  induction ws generalizing k log with
  | nil => exact h
  | cons w r ih =>
    rcases collectIn_cons w r k with ⟨a, asked, k', ward, hw, hnone, hasked, w', -, hw', heq⟩ | ⟨hsome, heq⟩
    · rw [List.filterMap_cons_some hw, openPids_cons, hnone] at hn hu
      obtain ⟨hnot, hn⟩ := List.nodup_cons.1 hn
      obtain ⟨n, hasks⟩ := hasked.eq
      have hfirst : OnceAsked (questions (asked.map fun x => (ward.pid, x)) ++ log) := by
        rw [hasks]
        exact onceAsked_questions n h (hu ward.pid List.mem_cons_self)
      rw [heq]
      dsimp only
      rw [questions_append, List.append_assoc]
      refine ih k' hfirst hn fun p hp => ?_
      have hne : ward.pid ≠ p := by
        rintro rfl
        exact hnot hp
      rw [collected_questions_of_ne hne]
      exact hu p (List.mem_cons_of_mem _ hp)
    · have hsub : (openPids (r.filterMap Watch.ward?)).Sublist
          (openPids ((w :: r).filterMap Watch.ward?)) := by
        cases hw : w.ward? with
        | none =>
          rw [List.filterMap_cons_none hw]
        | some ward =>
          rw [List.filterMap_cons_some hw, openPids_cons]
          exact List.sublist_append_right _ _
      rw [heq]
      exact ih k h (hn.sublist hsub) fun p hp => hu p (hsub.subset hp)

end Loop

end Overseer
