import Mathlib.Data.List.Basic
import Mathlib.Data.Nat.Basic
import Overseer.Json.Reader
import Overseer.Text.Number

/-!
# Decimal numerals

A numeral is written with its digits, the first of which is no zero, unless it is the only one.  A reader takes the
digits up to the first character that is none, as long as their value fits a 64-bit word.

    takeDigits 0 0 (digits n ++ r) = (n, number of digits, r)        n < 2^64, r begins with no digit
    padded w n = padded w m  ↔  n = m

Main statements: `takeDigits_toDigits`, `padded_inj`.
-/

namespace Overseer

section

variable {n m : Nat} {c : Char} {r : List Char}

/-! ## Digits -/

theorem isDigit_of_mem_toDigits (h : c ∈ Nat.toDigits 10 n) : Json.isDigit c = true :=
  Nat.isDigit_of_mem_toDigits (by decide) (by decide) h

theorem isDigit_iff : Json.isDigit c = true ↔ 48 ≤ c.toNat ∧ c.toNat ≤ 57 := by
  simp [Json.isDigit, Char.le_def, UInt32.le_iff_toNat_le]

/-- A numeral begins with a digit other than zero, unless it is that of zero. -/
theorem toDigits_eq_cons (hn : 0 < n) :
    ∃ c ds, Nat.toDigits 10 n = c :: ds ∧ c ≠ '0' ∧ Json.isDigit c = true := by
  induction n using Nat.strong_induction_on with
  | _ n ih =>
    by_cases hlt : n < 10
    · have hdigits : ∀ k < 10, 0 < k → k.digitChar ≠ '0' ∧ Json.isDigit k.digitChar = true := by decide
      rw [Nat.toDigits_of_lt_base hlt]
      exact ⟨_, _, rfl, hdigits n hlt hn⟩
    · obtain ⟨c, ds, hdigits, hc⟩ := ih (n / 10) (by omega) (by omega)
      rw [Nat.toDigits_eq_if (by decide), if_neg hlt, hdigits]
      exact ⟨c, _, rfl, hc⟩

/-! ## Reading digits -/

/-- No digit stands in front. -/
def DigitFree (r : List Char) : Prop := ∀ c ∈ r.head?, Json.isDigit c = false

theorem ofDigitChars_cons_eq (ds : List Char) : Nat.ofDigitChars 10 (c :: ds) n =
    Nat.ofDigitChars 10 ds (n * 10 + Json.digitValue c) := by
  rw [Nat.ofDigitChars_cons, Nat.mul_comm]
  rfl

theorem le_ofDigitChars (ds : List Char) : n ≤ Nat.ofDigitChars 10 ds n := by
  induction ds generalizing n with
  | nil => exact Nat.le_refl n
  | cons c ds ih =>
    rw [ofDigitChars_cons_eq]
    exact Nat.le_trans (by omega) ih

/-- Digits are taken as long as their value fits. -/
theorem takeDigits_append {ds : List Char} {count : Nat} (hds : ∀ c ∈ ds, Json.isDigit c = true)
    (hfits : Nat.ofDigitChars 10 ds n < Word.size64) (hr : DigitFree r) :
    Json.takeDigits n count (ds ++ r) = (Nat.ofDigitChars 10 ds n, count + ds.length, r) := by
  induction ds generalizing n count with
  | nil =>
    cases r with
    | nil => rfl
    | cons c r => simp [Json.takeDigits, hr c (by simp)]
  | cons c ds ih =>
    rw [ofDigitChars_cons_eq] at hfits ⊢
    have hstep : n * 10 + Json.digitValue c < Word.size64 := Nat.lt_of_le_of_lt (le_ofDigitChars ds) hfits
    rw [List.cons_append, Json.takeDigits, if_pos (by simp [hds c, hstep]),
      ih (fun d hd => hds d (List.mem_cons_of_mem c hd)) hfits, List.length_cons, Nat.add_assoc, Nat.add_comm 1]

theorem takeDigits_toDigits (hn : n < Word.size64) (hr : DigitFree r) :
    Json.takeDigits 0 0 (Nat.toDigits 10 n ++ r) = (n, (Nat.toDigits 10 n).length, r) := by
  have hvalue : Nat.ofDigitChars 10 (Nat.toDigits 10 n) 0 = n := Nat.ofDigitChars_toDigits (by decide) (by decide)
  rw [takeDigits_append (fun c => isDigit_of_mem_toDigits) (by rwa [hvalue]) hr, hvalue, Nat.zero_add]

/-! ## Padded numerals -/

/-- The value of a padded numeral is its number. -/
theorem ofDigitChars_padded (w n : Nat) : Nat.ofDigitChars 10 (Text.padded w n).toList 0 = n := by
  have hzeros : ∀ k, Nat.ofDigitChars 10 (List.replicate k '0') 0 = 0 := fun k => by
    induction k with
    | zero => rfl
    | succ k ih => rw [List.replicate_succ, ofDigitChars_cons_eq]; exact ih
  rw [Text.padded, String.toList_ofList, Nat.ofDigitChars_append, hzeros]
  exact Nat.ofDigitChars_toDigits (by decide) (by decide)

theorem padded_inj {w : Nat} : Text.padded w n = Text.padded w m ↔ n = m := by
  constructor
  · intro h
    rw [← ofDigitChars_padded w n, h, ofDigitChars_padded]
  · rintro rfl
    rfl

theorem isDigit_of_mem_padded {w : Nat} (h : c ∈ (Text.padded w n).toList) : Json.isDigit c = true := by
  rw [Text.padded, String.toList_ofList, List.mem_append] at h
  rcases h with h | h
  · rw [List.eq_of_mem_replicate h]
    rfl
  · exact isDigit_of_mem_toDigits h

/-- Zeros fill a numeral up to its width, and no further. -/
theorem length_padded (w n : Nat) : (Text.padded w n).toList.length = max w (Nat.toDigits 10 n).length := by
  rw [Text.padded, String.toList_ofList, List.length_append, List.length_replicate]
  omega

end

end Overseer
