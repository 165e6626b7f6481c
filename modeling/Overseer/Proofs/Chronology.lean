import Mathlib.Data.String.Basic
import Overseer.Proofs.Calendar
import Overseer.Proofs.Numerals

/-!
# Timestamps in order

Padded numerals of one width are in the order of their numbers, and dates are in the order of their
days, so timestamps are in the order of their instants, as long as every number keeps to its width.

    padded w n ++ r < padded w m ++ s  ↔  n < m ∨ n = m ∧ r < s              n, m < 10^w
    Before (ofDays a) (ofDays b)       ↔  a < b
    timestamp s ms < timestamp s' ms'  ↔  s < s' ∨ s = s' ∧ ms < ms'         years before 10000, ms, ms' < 1000

Main statements: `padded_append_lt`, `before_iff`, `timestamps_sort`.
-/

namespace Overseer

/-! ## Numerals of one width -/

section

variable {c d : Char} {ds es r s : List Char} {n m w : Nat}

theorem digit_lt_iff (hc : Json.isDigit c = true) (hd : Json.isDigit d = true) :
    (c < d ↔ Json.digitValue c < Json.digitValue d) ∧ (c = d ↔ Json.digitValue c = Json.digitValue d) ∧
      Json.digitValue c < 10 ∧ Json.digitValue d < 10 := by
  have hc := isDigit_iff.1 hc
  have hd := isDigit_iff.1 hd
  have hlt : c < d ↔ c.toNat < d.toNat := Iff.rfl
  unfold Json.digitValue
  rw [hlt, ← Char.toNat_inj]
  omega

/-- The first place at which two numbers of as many digits differ decides about their order. -/
theorem digits_append_lt (hds : ∀ c ∈ ds, Json.isDigit c = true) (hes : ∀ c ∈ es, Json.isDigit c = true)
    (hlength : ds.length = es.length) : (n < m ∨ n = m ∧ ds ++ r < es ++ s) ↔
      Nat.ofDigitChars 10 ds n < Nat.ofDigitChars 10 es m ∨
        Nat.ofDigitChars 10 ds n = Nat.ofDigitChars 10 es m ∧ r < s := by
  induction ds generalizing es n m with
  | nil =>
    obtain rfl : es = [] := List.length_eq_zero_iff.1 hlength.symm
    rfl
  | cons c ds ih =>
    cases es with
    | nil => cases hlength
    | cons d es =>
      rw [ofDigitChars_cons_eq, ofDigitChars_cons_eq, ← ih (fun x hx => hds x (List.mem_cons_of_mem c hx))
        (fun x hx => hes x (List.mem_cons_of_mem d hx)) (Nat.succ.inj hlength), List.cons_append, List.cons_append,
        List.cons_lt_cons_iff]
      obtain ⟨hlt, heq, hc, hd⟩ := digit_lt_iff (hds c List.mem_cons_self) (hes d List.mem_cons_self)
      rw [hlt, heq]
      by_cases hrest : ds ++ r < es ++ s
      · simp only [hrest, and_true]
        omega
      · simp only [hrest, and_false, or_false]
        omega

theorem length_padded_of_lt (hw : 0 < w) (hn : n < 10 ^ w) : (Text.padded w n).toList.length = w := by
  have hdigits := (Nat.length_toDigits_le_iff (by decide) hw).2 hn
  rw [length_padded]
  omega

theorem padded_append_lt (hw : 0 < w) (hn : n < 10 ^ w) (hm : m < 10 ^ w) :
    (Text.padded w n).toList ++ r < (Text.padded w m).toList ++ s ↔ n < m ∨ n = m ∧ r < s := by
  have hlength : (Text.padded w n).toList.length = (Text.padded w m).toList.length := by
    rw [length_padded_of_lt hw hn, length_padded_of_lt hw hm]
  have hdigits := digits_append_lt (n := 0) (m := 0) (r := r) (s := s)
    (fun c => isDigit_of_mem_padded (c := c)) (fun c => isDigit_of_mem_padded (c := c)) hlength
  rw [ofDigitChars_padded, ofDigitChars_padded] at hdigits
  simpa using hdigits

/-- A numeral and the mark behind it. -/
theorem field_lt (hw : 0 < w) (hn : n < 10 ^ w) (hm : m < 10 ^ w) :
    (Text.padded w n).toList ++ c :: r < (Text.padded w m).toList ++ c :: s ↔ n < m ∨ n = m ∧ r < s := by
  rw [padded_append_lt hw hn hm, List.cons_lt_cons_self]

end

namespace Log

/-! ## Dates -/

namespace Date

variable {a b : Nat} {d e f : Date}

/-- An earlier date: of an earlier year, or of an earlier month of the year, or of an earlier day of the month. -/
def Before (d e : Date) : Prop :=
  d.year < e.year ∨ d.year = e.year ∧ (d.month < e.month ∨ d.month = e.month ∧ d.day < e.day)

theorem Before.trans (h : Before d e) (h' : Before e f) : Before d f := by
  unfold Before at *
  omega

theorem before_succ (d : Date) : Before d d.succ := by
  unfold Before succ
  split_ifs
  · exact .inr ⟨rfl, .inr ⟨rfl, Nat.lt_succ_self d.day⟩⟩
  · exact .inr ⟨rfl, .inl (Nat.lt_succ_self d.month)⟩
  · exact .inl (Nat.lt_succ_self d.year)

theorem before_of_lt (h : a < b) : Before (ofDays a) (ofDays b) := by
  induction b, h using Nat.le_induction with
  | base =>
    rw [ofDays_succ]
    exact before_succ _
  | succ b _ ih =>
    rw [ofDays_succ]
    exact ih.trans (before_succ _)

/-- Dates are in the order of their days. -/
theorem before_iff : Before (ofDays a) (ofDays b) ↔ a < b := by
  refine ⟨fun h => ?_, before_of_lt⟩
  rcases Nat.lt_trichotomy a b with hlt | rfl | hlt
  · exact hlt
  · unfold Before at h
    omega
  · have hback := before_of_lt hlt
    unfold Before at h hback
    omega

theorem not_before_self (d : Date) : ¬ Before d d := by
  unfold Before
  omega

theorem ofDays_inj : ofDays a = ofDays b ↔ a = b := by
  refine ⟨fun h => ?_, fun h => h ▸ rfl⟩
  have hnot : ¬ a < b ∧ ¬ b < a := by
    rw [← before_iff, ← before_iff, h]
    exact ⟨not_before_self _, not_before_self _⟩
  omega

end Date

/-! ## Timestamps -/

/-- The text of a date and a time of day. -/
def stamp (d : Date) (hour minute second millis : Nat) : String :=
  Text.padded 4 d.year ++ "-" ++ Text.padded 2 d.month ++ "-" ++ Text.padded 2 d.day ++ "T" ++
    Text.padded 2 hour ++ ":" ++ Text.padded 2 minute ++ ":" ++ Text.padded 2 second ++ "." ++
    Text.padded 3 millis ++ "Z"

/-- Every number keeps to the width of its field. -/
structure Fits (d : Date) (hour minute second millis : Nat) : Prop where
  year : d.year < 10000
  month : d.month < 100
  day : d.day < 100
  hour : hour < 100
  minute : minute < 100
  second : second < 100
  millis : millis < 1000

section

variable {d d' : Date} {hour minute second hour' minute' second' s s' ms ms' : Nat}

theorem timestamp_eq_stamp (s ms : Nat) : timestamp s ms =
    stamp (Date.ofDays (s / 86400)) (s % 86400 / 3600) (s % 3600 / 60) (s % 60) ms := rfl

theorem toList_stamp (d : Date) (hour minute second millis : Nat) : (stamp d hour minute second millis).toList =
    (Text.padded 4 d.year).toList ++ '-' :: ((Text.padded 2 d.month).toList ++ '-' ::
      ((Text.padded 2 d.day).toList ++ 'T' :: ((Text.padded 2 hour).toList ++ ':' ::
        ((Text.padded 2 minute).toList ++ ':' :: ((Text.padded 2 second).toList ++ '.' ::
          ((Text.padded 3 millis).toList ++ ['Z'])))))) := by
  simp [stamp]

/-- Texts of dates and times of day are in the order of their numbers, the year first. -/
theorem stamp_lt_iff (h : Fits d hour minute second ms) (h' : Fits d' hour' minute' second' ms') :
    stamp d hour minute second ms < stamp d' hour' minute' second' ms' ↔
      d.Before d' ∨ d = d' ∧ (hour < hour' ∨ hour = hour' ∧ (minute < minute' ∨ minute = minute' ∧
        (second < second' ∨ second = second' ∧ ms < ms'))) := by
  obtain ⟨year, month, day⟩ := d
  obtain ⟨year', month', day'⟩ := d'
  rw [String.lt_iff, toList_stamp, toList_stamp, field_lt (by decide) h.year h'.year,
    field_lt (by decide) h.month h'.month, field_lt (by decide) h.day h'.day, field_lt (by decide) h.hour h'.hour,
    field_lt (by decide) h.minute h'.minute, field_lt (by decide) h.second h'.second,
    padded_append_lt (by decide) h.millis h'.millis]
  simp only [Date.Before, Date.mk.injEq, List.lt_irrefl, and_false, or_false]
  tauto

theorem daysIn_le (year month : Nat) : Date.daysIn year month ≤ 31 := by
  unfold Date.daysIn
  split_ifs <;> omega

theorem fits_timestamp (hms : ms < 1000) (hyear : (Date.ofDays (s / 86400)).year < 10000) :
    Fits (Date.ofDays (s / 86400)) (s % 86400 / 3600) (s % 3600 / 60) (s % 60) ms := by
  have hvalid := Date.valid_ofDays (s / 86400)
  have hmonth := hvalid.month_le
  have hday := Nat.le_trans hvalid.day_le (daysIn_le _ _)
  exact ⟨hyear, by omega, by omega, by omega, by omega, by omega, hms⟩

/-- An instant is earlier if its day is, or on one day the hour, the minute, the second or the millisecond. -/
theorem instant_lt_iff (p : Prop) : (s / 86400 < s' / 86400 ∨ s / 86400 = s' / 86400 ∧
    (s % 86400 / 3600 < s' % 86400 / 3600 ∨ s % 86400 / 3600 = s' % 86400 / 3600 ∧
      (s % 3600 / 60 < s' % 3600 / 60 ∨ s % 3600 / 60 = s' % 3600 / 60 ∧
        (s % 60 < s' % 60 ∨ s % 60 = s' % 60 ∧ p)))) ↔ s < s' ∨ s = s' ∧ p := by
  by_cases hp : p
  · simp only [hp, and_true]
    omega
  · simp only [hp, and_false, or_false]
    omega

theorem timestamp_lt_iff (hms : ms < 1000) (hms' : ms' < 1000) (hyear : (Date.ofDays (s / 86400)).year < 10000)
    (hyear' : (Date.ofDays (s' / 86400)).year < 10000) :
    timestamp s ms < timestamp s' ms' ↔ s < s' ∨ s = s' ∧ ms < ms' := by
  rw [timestamp_eq_stamp, timestamp_eq_stamp, stamp_lt_iff (fits_timestamp hms hyear) (fits_timestamp hms' hyear'),
    Date.before_iff, Date.ofDays_inj, instant_lt_iff]

/-- **Timestamps sort as text.**  Before the year 10000, two timestamps are the same text exactly if they are
of the same instant, and the text that comes first is that of the earlier instant. -/
theorem timestamps_sort (hms : ms < 1000) (hms' : ms' < 1000) (hyear : (Date.ofDays (s / 86400)).year < 10000)
    (hyear' : (Date.ofDays (s' / 86400)).year < 10000) :
    (timestamp s ms = timestamp s' ms' ↔ s = s' ∧ ms = ms') ∧
      (timestamp s ms < timestamp s' ms' ↔ s < s' ∨ s = s' ∧ ms < ms') := by
  have hlt := timestamp_lt_iff hms hms' hyear hyear'
  have hgt := timestamp_lt_iff hms' hms hyear' hyear
  refine ⟨⟨fun heq => ?_, ?_⟩, hlt⟩
  · have hsame := String.lt_irrefl (timestamp s' ms')
    rw [heq] at hlt hgt
    have hnot : ¬ (s < s' ∨ s = s' ∧ ms < ms') ∧ ¬ (s' < s ∨ s' = s ∧ ms' < ms) :=
      ⟨fun h => hsame (hlt.2 h), fun h => hsame (hgt.2 h)⟩
    omega
  · rintro ⟨rfl, rfl⟩
    rfl

/-- The last millisecond of a leap day, and the first of the day after it. -/
theorem leap_day_sorts : (Date.ofDays (951868799 / 86400)).year < 10000 ∧
    (Date.ofDays (951868800 / 86400)).year < 10000 ∧
    timestamp 951868799 999 ≠ timestamp 951868800 0 ∧ timestamp 951868799 999 < timestamp 951868800 0 := by
  have hyear : (Date.ofDays (951868799 / 86400)).year < 10000 := by decide
  have hyear' : (Date.ofDays (951868800 / 86400)).year < 10000 := by decide
  have hms : 999 < 1000 := by decide
  have hms' : 0 < 1000 := by decide
  obtain ⟨heq, hlt⟩ := timestamps_sort hms hms' hyear hyear'
  exact ⟨hyear, hyear', fun h => absurd (heq.1 h).1 (by decide), hlt.2 (.inl (by decide))⟩

end

end Log

end Overseer
