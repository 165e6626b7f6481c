import Overseer.Supervisor.Machine

/-!
# What a journal says of a child

A journal is read with its newest entry first, and a pid stands for the child of its last spawn.

    heard good p j  =  since the last spawn of p, waitpid has given a good answer about p
    collected p j   =  that answer was the end of the child
    answered p j    =  that answer was final: the end of the child, or an error
    bearer p j      =  the handle and the generation for which p was spawned last
    Patient j       =  no pid was given again before its end was collected
    Told h g st j   =  waitpid told st of a pid that generation g of handle h bore

A pid is borne by the child for which it was spawned; should the kernel not be patient, it is not
said that no other child bears it as well.
-/

namespace Overseer

namespace Kernel.Wait

/-- The child has ended, and its pid is free again. -/
def isEnd : Wait → Bool
  | ended _ => true
  | _ => false

/-- An interrupted question is asked again; every other error is an answer. -/
def isFinal : Wait → Bool
  | running => false
  | ended _ => true
  | failed e => e != 4

end Kernel.Wait

namespace Supervisor

open Kernel (Wait)

def heard (good : Wait → Bool) (pid : Int) : List Entry → Bool
  | [] => false
  | .spawned _ _ p :: r => p != pid && heard good pid r
  | .asked p a :: r => (p == pid && good a) || heard good pid r
  | _ :: r => heard good pid r

def collected (pid : Int) (log : List Entry) : Bool := heard Wait.isEnd pid log

def answered (pid : Int) (log : List Entry) : Bool := heard Wait.isFinal pid log

def bearer (pid : Int) : List Entry → Option (Nat × Nat)
  | [] => none
  | .spawned h g p :: r => if p = pid then some (h, g) else bearer pid r
  | _ :: r => bearer pid r

/-- A patient kernel gives a pid again only after its end was collected. -/
def Patient (log : List Entry) : Prop :=
  ∀ newer h g p older, log = newer ++ .spawned h g p :: older →
    (∃ h' g', .spawned h' g' p ∈ older) → collected p older = true

/-- The pid was spawned as generation `g` of handle `h`, and it still stands for that child. -/
def Bears (h g : Nat) (p : Int) (log : List Entry) : Prop :=
  .spawned h g p ∈ log ∧ (Patient log → bearer p log = some (h, g))

/-- What waitpid has told of the child that was generation `g` of handle `h`. -/
def Told (h g : Nat) (st : ExitStatus) (log : List Entry) : Prop :=
  ∃ newer older p a, log = newer ++ .asked p a :: older ∧ Bears h g p older ∧
    Loop.statusOf a = some st

/-- Entries that say nothing of the life of a child. -/
def Entry.isPlain : Entry → Bool
  | .spawned .. => false
  | .asked .. => false
  | .signalled .. => false
  | .started _ _ (.child ..) => false
  | _ => true

/-- The questions of one collection, newest first. -/
def questions (asked : List (Int × Wait)) : List Entry :=
  (asked.map fun a => Entry.asked a.1 a.2).reverse

/-! ## Lemmas -/

theorem heard_questions_append (good : Wait → Bool) (pid : Int) (asked : List (Int × Wait))
    (log : List Entry) :
    heard good pid (questions asked ++ log) =
      ((asked.any fun a => a.1 == pid && good a.2) || heard good pid log) := by
  induction asked generalizing log with
  | nil => simp [questions]
  | cons a r ih =>
    have hsplit : questions (a :: r) ++ log = questions r ++ (.asked a.1 a.2 :: log) := by
      simp [questions]
    rw [hsplit, ih]
    simp only [heard, List.any_cons]
    cases (a.1 == pid && good a.2) <;> simp

theorem bearer_append {p : Int} {es : List Entry} (he : ∀ h g q, .spawned h g q ∉ es)
    (log : List Entry) : bearer p (es ++ log) = bearer p log := by
  induction es with
  | nil => rfl
  | cons e es ih =>
    have hrest := ih fun h g q hm => he h g q (List.mem_cons_of_mem _ hm)
    rw [← hrest, List.cons_append]
    cases e with
    | spawned h g q => exact absurd List.mem_cons_self (he h g q)
    | _ => rfl

theorem Patient.of_append {es log : List Entry} (h : Patient (es ++ log)) : Patient log := by
  rintro newer i g p older rfl
  exact h (es ++ newer) i g p older (by simp)

theorem spawned_not_mem_questions {h g : Nat} {p : Int} {asked : List (Int × Wait)} :
    .spawned h g p ∉ questions asked := by
  intro hm
  obtain ⟨a, -, ha⟩ := List.mem_map.1 (List.mem_reverse.1 hm)
  cases ha

/-- A pid stands for its child until some pid is spawned. -/
theorem Bears.append {h g : Nat} {p : Int} {es log : List Entry} (hb : Bears h g p log)
    (he : ∀ i g q, .spawned i g q ∉ es) : Bears h g p (es ++ log) := by
  obtain ⟨hm, hp⟩ := hb
  refine ⟨List.mem_append_right _ hm, ?_⟩
  intro hpat
  rw [bearer_append he]
  exact hp hpat.of_append

theorem Bears.of_spawned {h g : Nat} {p : Int} {es log : List Entry}
    (he : ∀ i g q, .spawned i g q ∉ es) : Bears h g p (es ++ .spawned h g p :: log) := by
  refine ⟨List.mem_append_right _ List.mem_cons_self, ?_⟩
  intro _
  rw [bearer_append he]
  exact if_pos rfl

/-- A pid that has no end yet is not given to another child by a patient kernel. -/
theorem Bears.spawned {h g i g' : Nat} {p q : Int} {es log : List Entry} (hb : Bears h g p log)
    (hn : collected p log = false) (he : ∀ i g q, .spawned i g q ∉ es) :
    Bears h g p (es ++ .spawned i g' q :: log) := by
  obtain ⟨hm, hp⟩ := hb
  refine ⟨List.mem_append_right _ (List.mem_cons_of_mem _ hm), ?_⟩
  intro hpat
  rw [bearer_append he]
  by_cases hqp : q = p
  · subst hqp
    have hyes := hpat es i g' q log rfl ⟨h, g, hm⟩
    rw [hn] at hyes
    cases hyes
  · have hlog : Patient log := by
      refine Patient.of_append (?_ : Patient ((es ++ [.spawned i g' q]) ++ log))
      simpa using hpat
    exact (if_neg hqp).trans (hp hlog)

theorem Told.append {h g : Nat} {st : ExitStatus} {log : List Entry} (ht : Told h g st log)
    (news : List Entry) : Told h g st (news ++ log) := by
  obtain ⟨newer, older, p, a, rfl, hs, ha⟩ := ht
  exact ⟨news ++ newer, older, p, a, by simp, hs, ha⟩

/-- An answer among the questions of a collection tells of a child that bears the pid. -/
theorem Told.of_question {h g : Nat} {st : ExitStatus} {log : List Entry} {p : Int} {a : Wait}
    {asked : List (Int × Wait)} (ha : (p, a) ∈ asked) (hst : Loop.statusOf a = some st)
    (hs : Bears h g p log) : Told h g st (questions asked ++ log) := by
  obtain ⟨before, later, rfl⟩ := List.append_of_mem ha
  refine ⟨questions later, questions before ++ log, p, a, ?_, ?_, hst⟩
  · simp [questions]
  · exact hs.append fun _ _ _ => spawned_not_mem_questions

end Supervisor

end Overseer
