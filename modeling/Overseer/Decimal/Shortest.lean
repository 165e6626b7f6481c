import Overseer.Word

/-!
# Shortest decimals of binary64 numbers

A finite number other than zero is m · 2^q.  The reals that round to it form an interval around it,
with its ends if m is even.  Among the decimals in the interval, those with the fewest digits are
looked for, and of these the one nearest to the number, an even last digit deciding a tie.

    shortest bits = (digits, exponent)  with value  digits · 10^exponent
-/

namespace Overseer.Decimal

/-- The leading bit of a normal number, which its word does not hold. -/
def hiddenBit : Nat := 4503599627370496

/-- The parts of a binary64 word: sign, biased exponent, fraction. -/
def isNegative (bits : UInt64) : Bool := Word.half64 ≤ bits.toNat

def biased (bits : UInt64) : Nat := bits.toNat / hiddenBit % 2048

def fraction (bits : UInt64) : Nat := bits.toNat % hiddenBit

def isZero (bits : UInt64) : Bool := bits.toNat % Word.half64 == 0

/-- Neither infinite nor a NaN. -/
def isFinite (bits : UInt64) : Bool := biased bits != 2047

/-- The whole number m of a value m · 2^q. -/
def significand (bits : UInt64) : Nat :=
  if biased bits = 0 then fraction bits else hiddenBit + fraction bits

/-- The power q, moved up by 1074 so that it is not negative. -/
def power (bits : UInt64) : Nat := max (biased bits) 1 - 1

/-- A number and its interval as fractions with one denominator. -/
structure Interval where
  value : Nat
  low : Nat
  high : Nat
  denominator : Nat
  closed : Bool
  deriving DecidableEq, Repr

/-- Just above a power of two the lower gap is half the upper one. -/
def interval (bits : UInt64) : Interval :=
  let m := significand bits
  let q := power bits
  let scale := Nat.pow 2 (q - 1074)
  let below := if fraction bits = 0 ∧ 1 < biased bits then 1 else 2
  { value := 4 * m * scale
    low := (4 * m - below) * scale
    high := (4 * m + 2) * scale
    denominator := 4 * Nat.pow 2 (1074 - q)
    closed := m % 2 = 0 }

def Interval.contains (i : Interval) (n d : Nat) : Bool :=
  let x := n * i.denominator
  if i.closed then i.low * d ≤ x && x ≤ i.high * d else i.low * d < x && x < i.high * d

/-- The least `j` with value · 10^j at least 1, for a value below 1. -/
def leadingZeros (num den : Nat) : (fuel : Nat) → Nat → Nat
  | 0, j => j
  | fuel + 1, j => if den ≤ num * Nat.pow 10 j then j else leadingZeros num den fuel (j + 1)

/-- The decimal exponent of the first digit. -/
def firstPlace (i : Interval) : Int :=
  if i.denominator ≤ i.value then
    ((Nat.toDigits 10 (i.value / i.denominator)).length : Int) - 1
  else -(leadingZeros i.value i.denominator 400 0 : Int)

/-- The value on the grid of step 10^e: the point below it, and the rest over that point. -/
def onGrid (i : Interval) (e : Int) : Nat × Nat × Nat :=
  let num := i.value * Nat.pow 10 (-e).toNat
  let den := i.denominator * Nat.pow 10 e.toNat
  (num / den, num % den, den)

/-- Whether the grid point n · 10^e rounds to the value. -/
def hits (i : Interval) (n : Nat) (e : Int) : Bool :=
  i.contains (n * Nat.pow 10 e.toNat) (Nat.pow 10 (-e).toNat)

/-- The best decimal on one grid, if any point of it rounds to the value. -/
def bestOn (i : Interval) (e : Int) : Option Nat :=
  let (n, rest, den) := onGrid i e
  let down := n != 0 && hits i n e
  let up := hits i (n + 1) e
  if down && up then
    if 2 * rest < den ∨ (2 * rest = den ∧ n % 2 = 0) then some n else some (n + 1)
  else if down then some n
  else if up then some (n + 1)
  else none

/-- Try grids of more and more digits. -/
def search (i : Interval) : (digits : Nat) → Int → Nat × Int
  | 0, e => ((onGrid i e).1, e)
  | digits + 1, e =>
    match bestOn i e with
    | some n => (n, e)
    | none => search i digits (e - 1)

/-- Digits and exponent of the shortest decimal of a finite number other than zero. -/
def shortest (bits : UInt64) : Nat × Int :=
  let i := interval bits
  search i 18 (firstPlace i)

end Overseer.Decimal
