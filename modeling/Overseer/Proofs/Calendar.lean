import Mathlib.Data.Nat.Init
import Mathlib.Tactic.IntervalCases
import Mathlib.Tactic.SplitIfs
import Overseer.Log.Timestamp
import Overseer.Word

/-!
# The calendar

A year that begins on 1 March has its leap day at its end, so a day is told by such a year and its place
in it, and the months of the year have the same places in all years.

    yearStart y = days from 1 March of the year 0 to 1 March of y
    days + epochOffset = yearStart y + t, t < yearLength y   →   ofDays days = fromMarch y t
    ofDays (days + 1)  = (ofDays days).succ

`civil?` takes the same steps on machine words, and none of them leaves its word.

Main statements: `ofDays_eq`, `ofDays_succ`, `civil?_eq`, `calendar_of_seconds`.
-/

namespace Overseer

namespace Log

namespace Date

/-! ## Years from March to March -/

/-- Days from 1 March of the year 0 to 1 March of a year. -/
def yearStart (y : Nat) : Nat := 365 * y + y / 4 - y / 100 + y / 400

/-- Days from 1 March of a year to 1 March of the next, whose February they hold. -/
def yearLength (y : Nat) : Nat := if isLeap (y + 1) then 366 else 365

section

variable {y y' t t' m doe : Nat}

theorem isLeap_iff (y : Nat) : isLeap y = true ↔ 4 ∣ y ∧ (¬ 100 ∣ y ∨ 400 ∣ y) := by
  simp [isLeap, Nat.dvd_iff_mod_eq_zero]

theorem yearLength_bounds (y : Nat) : 365 ≤ yearLength y ∧ yearLength y ≤ 366 := by
  unfold yearLength
  split_ifs <;> omega

theorem yearStart_succ (y : Nat) : yearStart (y + 1) = yearStart y + yearLength y := by
  have hcentury : 100 ∣ y + 1 → 4 ∣ y + 1 := Nat.dvd_trans (by decide)
  have hera : 400 ∣ y + 1 → 100 ∣ y + 1 := Nat.dvd_trans (by decide)
  have hle : y / 100 ≤ y := Nat.div_le_self y 100
  unfold yearStart yearLength
  rw [Nat.succ_div, Nat.succ_div, Nat.succ_div]
  simp only [isLeap_iff]
  split_ifs <;> omega

theorem yearStart_le (h : y ≤ y') : yearStart y ≤ yearStart y' := by
  induction y', h using Nat.le_induction with
  | base => exact Nat.le_refl _
  | succ y' _ ih =>
    rw [yearStart_succ]
    omega

/-- A day lies in one year only, and at one place of it. -/
theorem place_unique (h : yearStart y + t = yearStart y' + t') (ht : t < yearLength y) (ht' : t' < yearLength y') :
    y = y' ∧ t = t' := by
  have hapart : ∀ {a b}, a < b → yearStart a + yearLength a ≤ yearStart b := fun hab => by
    rw [← yearStart_succ]
    exact yearStart_le hab
  rcases Nat.lt_trichotomy y y' with hlt | rfl | hlt
  · have hover := hapart hlt
    omega
  · exact ⟨rfl, by omega⟩
  · have hover := hapart hlt
    omega

/-! ## Eras -/

/-- A day of an era lies in a century, in four years of it and in one of those; only the last year of the four may
have 366 days, and the last four years of a century have such a year only at the end of the era. -/
theorem exists_parts (h : doe < eraDays) : ∃ c q k t, doe = 36524 * c + 1461 * q + 365 * k + t ∧
    c < 4 ∧ q < 25 ∧ k < 4 ∧ (t < 365 ∨ t = 365 ∧ k = 3 ∧ (q < 24 ∨ c = 3)) := by
  have hera : doe < 146097 := h
  let c := min 3 (doe / 36524)
  let q := (doe - 36524 * c) / 1461
  let k := min 3 ((doe - 36524 * c - 1461 * q) / 365)
  have hc : c < 4 ∧ 36524 * c ≤ doe ∧ (doe < 36524 * (c + 1) ∨ c = 3) := by omega
  have hq : 1461 * q ≤ doe - 36524 * c ∧ doe - 36524 * c < 1461 * (q + 1) := by omega
  have hk : k < 4 ∧ 365 * k ≤ doe - 36524 * c - 1461 * q ∧
      (doe - 36524 * c - 1461 * q < 365 * (k + 1) ∨ k = 3) := by omega
  clear_value c q k
  exact ⟨c, q, k, doe - 36524 * c - 1461 * q - 365 * k, by omega, by omega, by omega, by omega, by omega⟩

section

variable {c q k : Nat} (hc : c < 4) (hq : q < 25) (hk : k < 4)
  (ht : t < 365 ∨ t = 365 ∧ k = 3 ∧ (q < 24 ∨ c = 3))

include hc hq hk ht

/-- The corrections take the leap days out that lie before a day, so that years of 365 days are left. -/
theorem yearOfEra_eq : yearOfEra (36524 * c + 1461 * q + 365 * k + t) = 100 * c + 4 * q + k := by
  generalize hdoe : 36524 * c + 1461 * q + 365 * k + t = doe
  have hcenturies : doe / 36524 = c + doe / 146096 := by
    by_cases hlast : doe < 146096
    · have hcentury : doe < 36524 * (c + 1) := by omega
      rw [Nat.div_eq_of_lt hlast]
      omega
    · have hend : doe = 146096 ∧ c = 3 := by omega
      rw [hend.1, hend.2]
  -- late in the last of four years one day too many is taken out, which leaves the day in its year
  have hfours : doe / 1460 = 25 * c + q + if 24 * c + q + 365 * k + t < 1460 then 0 else 1 := by
    split_ifs <;> omega
  unfold yearOfEra
  rw [hcenturies, hfours]
  split_ifs <;> omega

theorem dayOfYear_eq : dayOfYear (36524 * c + 1461 * q + 365 * k + t) = t := by
  simp only [dayOfYear, yearOfEra_eq hc hq hk ht]
  omega

theorem place_of_parts (era : Nat) :
    era * eraDays + (36524 * c + 1461 * q + 365 * k + t) = yearStart (100 * c + 4 * q + k + era * 400) + t ∧
      t < yearLength (100 * c + 4 * q + k + era * 400) := by
  constructor
  · unfold yearStart eraDays
    omega
  · unfold yearLength
    simp only [isLeap_iff]
    split_ifs <;> omega

end

/-! ## Months from March on -/

/-- Days from 1 March to the first day of the month that is `m` months later. -/
def monthStart (m : Nat) : Nat := (153 * m + 2) / 5

/-- The number of the month that is `m` months after March. -/
def monthNumber (m : Nat) : Nat := if m < 10 then m + 3 else m - 9

/-- January and February belong to the next year. -/
def civilYear (y m : Nat) : Nat := y + if monthNumber m ≤ 2 then 1 else 0

/-- The date of a day of the year that begins on 1 March of `y`. -/
def fromMarch (y t : Nat) : Date :=
  let m := (5 * t + 2) / 153
  ⟨civilYear y m, monthNumber m, t - monthStart m + 1⟩

/-- Each day has a year that begins on 1 March and a place in it, and they give its date. -/
theorem ofDays_eq (days : Nat) :
    ∃ y t, days + epochOffset = yearStart y + t ∧ t < yearLength y ∧ ofDays days = fromMarch y t := by
  have hdoe : (days + epochOffset) % eraDays < eraDays := Nat.mod_lt _ (by decide)
  obtain ⟨c, q, k, t, hparts, hc, hq, hk, ht⟩ := exists_parts hdoe
  obtain ⟨hplace, hlt⟩ := place_of_parts hc hq hk ht ((days + epochOffset) / eraDays)
  refine ⟨_, t, ?_, hlt, ?_⟩
  · rw [← hplace, ← hparts, Nat.div_add_mod']
  · simp only [ofDays, hparts, yearOfEra_eq hc hq hk ht, dayOfYear_eq hc hq hk ht]
    rfl

/-- A day is in the last month that begins no later. -/
theorem exists_month (h : t < 366) : ∃ m < 12, monthStart m ≤ t ∧ t < monthStart (m + 1) := by
  refine ⟨(5 * t + 2) / 153, by omega, ?_, ?_⟩
  · unfold monthStart
    omega
  · unfold monthStart
    omega

theorem fromMarch_of_month (hstart : monthStart m ≤ t) (hend : t < monthStart (m + 1)) :
    fromMarch y t = ⟨civilYear y m, monthNumber m, t - monthStart m + 1⟩ := by
  have hm : (5 * t + 2) / 153 = m := by
    unfold monthStart at hstart hend
    omega
  simp only [fromMarch, hm]

/-- A month ends where the next one begins, and February with the year. -/
theorem month_end (hm : m < 12) : monthStart m + daysIn (civilYear y m) (monthNumber m) =
    min (monthStart (m + 1)) (yearLength y) := by
  have hyear := yearLength_bounds y
  by_cases hfebruary : m = 11
  · subst hfebruary
    simp only [civilYear, monthNumber, monthStart, daysIn, yearLength]
    split_ifs <;> simp_all
  · have hearlier : m < 11 := by omega
    have hdays : monthStart m + daysIn (civilYear y m) (monthNumber m) = monthStart (m + 1) := by
      generalize civilYear y m = year
      interval_cases m <;> rfl
    have hle : monthStart (m + 1) ≤ 337 := by
      unfold monthStart
      omega
    omega

/-! ## The next day -/

/-- A date of the calendar. -/
structure Valid (d : Date) : Prop where
  month_pos : 1 ≤ d.month
  month_le : d.month ≤ 12
  day_pos : 1 ≤ d.day
  day_le : d.day ≤ daysIn d.year d.month

theorem valid_fromMarch (ht : t < yearLength y) : (fromMarch y t).Valid := by
  have hyear := yearLength_bounds y
  obtain ⟨m, hm, hstart, hend⟩ := exists_month (t := t) (by omega)
  have hlast := month_end (y := y) hm
  rw [fromMarch_of_month hstart hend]
  constructor
  · show 1 ≤ monthNumber m
    unfold monthNumber
    split_ifs <;> omega
  · show monthNumber m ≤ 12
    unfold monthNumber
    split_ifs <;> omega
  · exact Nat.le_add_left 1 _
  · show t - monthStart m + 1 ≤ daysIn (civilYear y m) (monthNumber m)
    omega

theorem succ_fromMarch (ht : t + 1 < yearLength y) : (fromMarch y t).succ = fromMarch y (t + 1) := by
  have hyear := yearLength_bounds y
  obtain ⟨m, hm, hstart, hend⟩ := exists_month (t := t) (by omega)
  have hlast := month_end (y := y) hm
  rw [fromMarch_of_month hstart hend, succ]
  by_cases hinside : t + 1 < monthStart (m + 1)
  · have hday : t - monthStart m + 1 < daysIn (civilYear y m) (monthNumber m) := by omega
    rw [if_pos hday, fromMarch_of_month (m := m) (by omega) hinside]
    simp only [Nat.sub_add_comm hstart]
  · have hnext : t + 1 = monthStart (m + 1) := by omega
    have hday : ¬ t - monthStart m + 1 < daysIn (civilYear y m) (monthNumber m) := by omega
    rw [if_neg hday, fromMarch_of_month (m := m + 1) (by omega) (by unfold monthStart at *; omega), hnext,
      Nat.sub_self]
    have hearlier : m < 11 := by
      unfold monthStart at hnext
      omega
    clear hlast hstart hend hinside hnext hday
    interval_cases m <;> rfl

/-- The year ends with the last day of February. -/
theorem succ_fromMarch_last (ht : t + 1 = yearLength y) : (fromMarch y t).succ = fromMarch (y + 1) 0 := by
  have hyear := yearLength_bounds y
  have hlast := month_end (y := y) (m := 11) (by decide)
  have hfebruary : monthStart 11 = 337 ∧ monthStart (11 + 1) = 367 := ⟨rfl, rfl⟩
  have hday : ¬ t - monthStart 11 + 1 < daysIn (civilYear y 11) (monthNumber 11) := by omega
  rw [fromMarch_of_month (m := 11) (by omega) (by omega), succ, if_neg hday]
  rfl

/-- The date of the next day is the next date. -/
theorem ofDays_succ (days : Nat) : ofDays (days + 1) = (ofDays days).succ := by
  obtain ⟨y, t, hplace, ht, hdate⟩ := ofDays_eq days
  obtain ⟨y', t', hplace', ht', hdate'⟩ := ofDays_eq (days + 1)
  rw [hdate, hdate']
  by_cases hinside : t + 1 < yearLength y
  · have hsame : yearStart y' + t' = yearStart y + (t + 1) := by omega
    obtain ⟨rfl, rfl⟩ := place_unique hsame ht' hinside
    exact (succ_fromMarch hinside).symm
  · have hyear := yearLength_bounds (y + 1)
    have hsame : yearStart y' + t' = yearStart (y + 1) + 0 := by
      rw [yearStart_succ]
      omega
    obtain ⟨rfl, rfl⟩ := place_unique hsame ht' (by omega)
    exact (succ_fromMarch_last (by omega)).symm

theorem valid_ofDays (days : Nat) : (ofDays days).Valid := by
  obtain ⟨y, t, -, ht, hdate⟩ := ofDays_eq days
  rw [hdate]
  exact valid_fromMarch ht

end

end Date

end Log

/-! ## Machine words -/

namespace Word

/-- A number that a word of 64 bits with a sign holds. -/
def signed64? (i : Int) : Option Int := if -(half64 : Int) ≤ i ∧ i < half64 then some i else none

/-- A number that a word of 32 bits without a sign holds. -/
def unsigned32? (i : Int) : Option Nat := if 0 ≤ i ∧ i < 4294967296 then some i.toNat else none

section

variable {m n : Nat}

theorem signed64?_natCast (h : n < half64) : signed64? n = some (n : Int) :=
  if_pos ⟨by omega, by omega⟩

theorem signed64?_add (h : m + n < half64) : signed64? ((m : Int) + n) = some ((m + n : Nat) : Int) :=
  signed64?_natCast h

theorem signed64?_mul (h : m * n < half64) : signed64? ((m : Int) * n) = some ((m * n : Nat) : Int) :=
  signed64?_natCast h

theorem signed64?_sub (hle : n ≤ m) (h : m < half64) : signed64? ((m : Int) - n) = some ((m - n : Nat) : Int) := by
  rw [← Int.natCast_sub hle]
  exact signed64?_natCast (by omega)

theorem unsigned32?_natCast (h : n < 4294967296) : unsigned32? n = some n :=
  if_pos ⟨by omega, by omega⟩

end

end Word

namespace Log.Date

open Word (signed64? unsigned32? half64)

/-! The steps of `ofDays` on words: every sum, difference and product has to fit its word, and there is no date if one
of them does not.  A quotient is rounded towards zero, that of the era downwards. -/

def yearOfEra? (doe : Int) : Option Int := do
  let short ← signed64? (doe - doe.tdiv 1460)
  let century ← signed64? (short + doe.tdiv 36524)
  let era ← signed64? (century - doe.tdiv 146096)
  return era.tdiv 365

def dayOfYear? (doe yoe : Int) : Option Int := do
  let common ← signed64? (365 * yoe)
  let leap ← signed64? (common + yoe.tdiv 4)
  let before ← signed64? (leap - yoe.tdiv 100)
  signed64? (doe - before)

def monthIndex? (doy : Int) : Option Int := do
  let fifths ← signed64? (5 * doy)
  let shifted ← signed64? (fifths + 2)
  return shifted.tdiv 153

def dayOfMonth? (doy mp : Int) : Option Nat := do
  let fifths ← signed64? (153 * mp)
  let shifted ← signed64? (fifths + 2)
  let before ← signed64? (doy - shifted.tdiv 5)
  let day ← signed64? (before + 1)
  unsigned32? day

def monthOf? (mp : Int) : Option Nat := do
  let month ← if mp < 10 then signed64? (mp + 3) else signed64? (mp - 9)
  unsigned32? month

def yearOf? (yoe era : Int) (month : Nat) : Option Int := do
  let eras ← signed64? (era * 400)
  let year ← signed64? (yoe + eras)
  signed64? (year + if month ≤ 2 then 1 else 0)

/-- Year, month and day of a number of days. -/
def civil? (days : Int) : Option (Int × Nat × Nat) := do
  let z ← signed64? (days + epochOffset)
  let doe := z % eraDays
  let yoe ← yearOfEra? doe
  let doy ← dayOfYear? doe yoe
  let mp ← monthIndex? doy
  let day ← dayOfMonth? doy mp
  let month ← monthOf? mp
  let year ← yearOf? yoe (z / eraDays) month
  return (year, month, day)

def fields (d : Date) : Int × Nat × Nat := (d.year, d.month, d.day)

section

variable {doe doy mp yoe era month days : Nat}

theorem natCast_literal (k : Nat) : (no_index (OfNat.ofNat k) : Int) = ((OfNat.ofNat k : Nat) : Int) := rfl

theorem half64_eq : half64 = 9223372036854775808 := rfl

theorem yearOfEra?_eq (h : doe < eraDays) : yearOfEra? doe = some (yearOfEra doe : Int) := by
  have hdoe : doe < 146097 := h
  have hhalf := half64_eq
  simp only [yearOfEra?, natCast_literal, ← Int.ofNat_tdiv, Option.bind_eq_bind]
  rw [Word.signed64?_sub (by omega) (by omega), Option.bind_some, Word.signed64?_add (by omega), Option.bind_some,
    Word.signed64?_sub (by omega) (by omega), Option.bind_some, ← Int.ofNat_tdiv]
  rfl

theorem dayOfYear?_eq (h : doe < eraDays) : dayOfYear? doe (yearOfEra doe) = some (dayOfYear doe : Int) := by
  have hdoe : doe < 146097 := h
  have hhalf := half64_eq
  obtain ⟨c, q, k, t, hparts, hc, hq, hk, ht⟩ := exists_parts h
  have hyoe : yearOfEra doe = 100 * c + 4 * q + k := hparts ▸ yearOfEra_eq hc hq hk ht
  have hfours : yearOfEra doe / 4 = 25 * c + q := by omega
  have hcenturies : yearOfEra doe / 100 = c := by omega
  simp only [dayOfYear?, natCast_literal, ← Int.ofNat_tdiv, Option.bind_eq_bind]
  rw [Word.signed64?_mul (by omega), Option.bind_some, Word.signed64?_add (by omega), Option.bind_some,
    Word.signed64?_sub (by omega) (by omega), Option.bind_some, Word.signed64?_sub (by omega) (by omega)]
  rfl

theorem monthIndex?_eq (h : doy < 366) : monthIndex? doy = some (((5 * doy + 2) / 153 : Nat) : Int) := by
  have hhalf := half64_eq
  simp only [monthIndex?, natCast_literal, Option.bind_eq_bind]
  rw [Word.signed64?_mul (by omega), Option.bind_some, Word.signed64?_add (by omega), Option.bind_some,
    ← Int.ofNat_tdiv]
  rfl

theorem dayOfMonth?_eq (hstart : monthStart mp ≤ doy) (h : doy < 366) :
    dayOfMonth? doy mp = some (doy - monthStart mp + 1) := by
  have hhalf := half64_eq
  unfold monthStart at *
  simp only [dayOfMonth?, natCast_literal, Option.bind_eq_bind]
  rw [Word.signed64?_mul (by omega), Option.bind_some, Word.signed64?_add (by omega), Option.bind_some,
    ← Int.ofNat_tdiv, Word.signed64?_sub (by omega) (by omega), Option.bind_some, Word.signed64?_add (by omega),
    Option.bind_some, Word.unsigned32?_natCast (by omega)]

theorem monthOf?_eq (h : mp < 12) : monthOf? mp = some (monthNumber mp) := by
  have hhalf := half64_eq
  simp only [monthOf?, monthNumber, natCast_literal, Int.ofNat_lt, Option.bind_eq_bind]
  split_ifs
  · rw [Word.signed64?_add (by omega), Option.bind_some, Word.unsigned32?_natCast (by omega)]
  · rw [Word.signed64?_sub (by omega) (by omega), Option.bind_some, Word.unsigned32?_natCast (by omega)]

theorem yearOf?_eq (h : yoe + era * 400 + 1 < half64) :
    yearOf? yoe era month = some ((yoe + era * 400 + if month ≤ 2 then 1 else 0 : Nat) : Int) := by
  simp only [yearOf?, natCast_literal, Option.bind_eq_bind]
  rw [Word.signed64?_mul (by omega), Option.bind_some, Word.signed64?_add (by omega), Option.bind_some]
  split_ifs
  · exact Word.signed64?_add h
  · exact Word.signed64?_add (by omega)

/-- No step leaves its word as long as the first one does not. -/
theorem civil?_eq (h : days + epochOffset < half64) : civil? days = some (ofDays days).fields := by
  have hhalf := half64_eq
  have hdoe : (days + epochOffset) % eraDays < eraDays := Nat.mod_lt _ (by decide)
  have hera : (days + epochOffset) / eraDays ≤ (days + epochOffset) / 146097 := Nat.le_refl _
  obtain ⟨c, q, k, t, hparts, hc, hq, hk, ht⟩ := exists_parts hdoe
  have hyoe : yearOfEra ((days + epochOffset) % eraDays) = 100 * c + 4 * q + k := hparts ▸ yearOfEra_eq hc hq hk ht
  have hdoy : dayOfYear ((days + epochOffset) % eraDays) = t := hparts ▸ dayOfYear_eq hc hq hk ht
  have hmonth : (5 * t + 2) / 153 < 12 ∧ monthStart ((5 * t + 2) / 153) ≤ t := by
    unfold monthStart
    omega
  rw [civil?, Word.signed64?_add h, Option.bind_eq_bind, Option.bind_some, ← Int.natCast_emod, ← Int.natCast_ediv]
  simp only [Option.bind_eq_bind]
  rw [yearOfEra?_eq hdoe, Option.bind_some, dayOfYear?_eq hdoe, Option.bind_some, hdoy, monthIndex?_eq (by omega),
    Option.bind_some, dayOfMonth?_eq hmonth.2 (by omega), Option.bind_some, monthOf?_eq hmonth.1, Option.bind_some,
    yearOf?_eq (by omega), Option.bind_some, fields, ofDays]
  simp only [hdoy]
  rfl

/-- **The calendar.**  For every number of seconds that a word of 64 bits holds, the date of its day is
computed without leaving a word; it is a date of the calendar, and the day after it has the next date. -/
theorem calendar_of_seconds : ofDays 0 = ⟨1970, 1, 1⟩ ∧
    (∀ year, daysIn year 2 = 29 ↔ 4 ∣ year ∧ (¬ 100 ∣ year ∨ 400 ∣ year)) ∧
    ∀ seconds : UInt64, ∃ days : Nat, days = seconds.toNat / 86400 ∧ signed64? days = some (days : Int) ∧
      civil? days = some (ofDays days).fields ∧ civil? (days + 1) = some (ofDays days).succ.fields ∧
      ofDays (days + 1) = (ofDays days).succ ∧ (ofDays days).Valid := by
  have hhalf := half64_eq
  have hoffset : epochOffset = 719468 := rfl
  refine ⟨rfl, fun year => ?_, fun seconds => ?_⟩
  · rw [← isLeap_iff, daysIn, if_pos rfl]
    split_ifs with hleap <;> simp [hleap]
  · have hdays : seconds.toNat / 86400 + 1 + epochOffset < half64 := by
      have := seconds.toNat_lt
      omega
    refine ⟨_, rfl, Word.signed64?_natCast (by omega), civil?_eq (by omega), ?_, ofDays_succ _, valid_ofDays _⟩
    rw [← ofDays_succ]
    exact civil?_eq hdays

end

end Log.Date

end Overseer
