import Overseer.Text.Number

/-!
# Calendar and timestamps

Days are counted from 1 January 1970.  The calendar date of a day comes from its place in an era of
400 years, 146097 days, that begins on 1 March; the leap day is then the last day of a year.  A
timestamp is the UTC time of a number of seconds and milliseconds.

    text s ms = YYYY-MM-DDTHH:MM:SS.mmmZ
-/

namespace Overseer.Log

structure Date where
  year : Nat
  month : Nat
  day : Nat
  deriving DecidableEq, Repr

namespace Date

/-- Days of an era of 400 years. -/
def eraDays : Nat := 146097

/-- Days from 1 March of the year 0 to 1 January 1970. -/
def epochOffset : Nat := 719468

/-- The year of an era in which a day of the era lies. -/
def yearOfEra (doe : Nat) : Nat := (doe - doe / 1460 + doe / 36524 - doe / 146096) / 365

/-- The day of a year that begins on 1 March. -/
def dayOfYear (doe : Nat) : Nat :=
  let yoe := yearOfEra doe
  doe - (365 * yoe + yoe / 4 - yoe / 100)

/-- The date that lies a number of days after 1 January 1970. -/
def ofDays (days : Nat) : Date :=
  let z := days + epochOffset
  let doe := z % eraDays
  let doy := dayOfYear doe
  let mp := (5 * doy + 2) / 153
  let day := doy - (153 * mp + 2) / 5 + 1
  let month := if mp < 10 then mp + 3 else mp - 9
  ⟨yearOfEra doe + z / eraDays * 400 + (if month ≤ 2 then 1 else 0), month, day⟩

def isLeap (year : Nat) : Bool := year % 4 == 0 && (year % 100 != 0 || year % 400 == 0)

/-- Days of a month. -/
def daysIn (year month : Nat) : Nat :=
  if month = 2 then (if isLeap year then 29 else 28)
  else if month = 4 ∨ month = 6 ∨ month = 9 ∨ month = 11 then 30
  else 31

/-- The day after a date. -/
def succ (d : Date) : Date :=
  if d.day < daysIn d.year d.month then { d with day := d.day + 1 }
  else if d.month < 12 then ⟨d.year, d.month + 1, 1⟩
  else ⟨d.year + 1, 1, 1⟩

end Date

/-- The text of an instant after the epoch. -/
def timestamp (seconds millis : Nat) : String :=
  let d := Date.ofDays (seconds / 86400)
  Text.padded 4 d.year ++ "-" ++ Text.padded 2 d.month ++ "-" ++ Text.padded 2 d.day ++ "T" ++
    Text.padded 2 (seconds % 86400 / 3600) ++ ":" ++ Text.padded 2 (seconds % 3600 / 60) ++ ":" ++
    Text.padded 2 (seconds % 60) ++ "." ++ Text.padded 3 millis ++ "Z"

/-- A wall clock that read `start` milliseconds after the epoch when the virtual clock was at 0. -/
structure Clock where
  startMs : Int
  deriving DecidableEq, Repr

/-- The wall time at a moment in nanoseconds; before the epoch it stands still at the epoch. -/
def Clock.at (c : Clock) (now : Nat) : String :=
  let ms := (c.startMs + now / 1000000).toNat
  timestamp (ms / 1000) (ms % 1000)

end Overseer.Log
