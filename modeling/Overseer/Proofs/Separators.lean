import Mathlib.Data.List.Infix
import Overseer.Log.Validation

/-!
# Separators

A text falls into parts at its separators, which are pairs of colons.  Each separator is the leftmost one of what the
separators before it have left over, so that of three colons the first two are taken.

    colonParts s = n  ↔  s has n parts

Main statement: `colonParts_eq_iff`.
-/

namespace Overseer.Log

def separator : List Char := [':', ':']

/-- The parts of a text.  A part may end in a colon only if nothing comes behind it. -/
inductive Parts : List Char → List (List Char) → Prop
  | last {s : List Char} (h : ¬ separator <:+: s) : Parts s [s]
  | cons {p r : List Char} {ps : List (List Char)} (h : ¬ separator <:+: p ++ [':']) (rest : Parts r ps) :
      Parts (p ++ separator ++ r) (p :: ps)

section

variable {c : Char} {s p : List Char} {ps : List (List Char)} {n : Nat}

theorem separator_infix_cons : separator <:+: c :: s ↔ (c = ':' ∧ s.head? = some ':') ∨ separator <:+: s := by
  have hprefix : separator <+: c :: s ↔ c = ':' ∧ s.head? = some ':' := by
    cases s <;> simp [separator, List.cons_prefix_cons, eq_comm]
  rw [List.infix_cons_iff, hprefix]

theorem colonParts_cons (h : ¬ (c = ':' ∧ s.head? = some ':')) : colonParts (c :: s) = colonParts s := by
  rw [colonParts]
  rintro r rfl rfl
  exact h ⟨rfl, rfl⟩

theorem colonParts_of_not_separator (h : ¬ separator <:+: s) : colonParts s = 1 := by
  induction s with
  | nil => rfl
  | cons c s ih =>
    rw [separator_infix_cons, not_or] at h
    rw [colonParts_cons h.1, ih h.2]

theorem head?_append_separator (p r : List Char) : (p ++ separator ++ r).head? = (p ++ [':']).head? := by
  cases p <;> rfl

/-- The first separator ends the first part. -/
theorem colonParts_append_separator (h : ¬ separator <:+: p ++ [':']) (r : List Char) :
    colonParts (p ++ separator ++ r) = colonParts r + 1 := by
  induction p with
  | nil => rfl
  | cons c p ih =>
    rw [List.cons_append, separator_infix_cons, not_or] at h
    rw [List.cons_append, List.cons_append, colonParts_cons (by rw [head?_append_separator]; exact h.1), ih h.2]

theorem Parts.length_eq (h : Parts s ps) : colonParts s = ps.length := by
  induction h with
  | last h => exact colonParts_of_not_separator h
  | cons h rest ih => rw [colonParts_append_separator h, ih, List.length_cons]

/-! ## Every text has its parts -/

theorem exists_first_separator (h : separator <:+: s) :
    ∃ p r, s = p ++ separator ++ r ∧ ¬ separator <:+: p ++ [':'] := by
  induction s with
  | nil => simp [separator] at h
  | cons c s ih =>
    by_cases hhere : c = ':' ∧ s.head? = some ':'
    · obtain ⟨rfl, hs⟩ := hhere
      obtain ⟨r, rfl⟩ := List.head?_eq_some_iff.1 hs
      exact ⟨[], r, rfl, by simp [separator, List.infix_cons_iff]⟩
    · obtain ⟨p, r, rfl, hp⟩ := ih ((separator_infix_cons.1 h).resolve_left hhere)
      refine ⟨c :: p, r, rfl, ?_⟩
      rw [head?_append_separator] at hhere
      rw [List.cons_append, separator_infix_cons, not_or]
      exact ⟨hhere, hp⟩

theorem exists_parts (s : List Char) : ∃ ps, Parts s ps := by
  induction hn : s.length using Nat.strong_induction_on generalizing s with
  | _ n ih =>
    by_cases h : separator <:+: s
    · obtain ⟨p, r, rfl, hp⟩ := exists_first_separator h
      obtain ⟨ps, hps⟩ := ih r.length (by simp [separator] at hn; omega) r rfl
      exact ⟨p :: ps, .cons hp hps⟩
    · exact ⟨[s], .last h⟩

theorem colonParts_eq_iff : colonParts s = n ↔ ∃ ps, Parts s ps ∧ ps.length = n := by
  constructor
  · rintro rfl
    obtain ⟨ps, hps⟩ := exists_parts s
    exact ⟨ps, hps, hps.length_eq.symm⟩
  · rintro ⟨ps, hps, rfl⟩
    exact hps.length_eq

end

end Overseer.Log
