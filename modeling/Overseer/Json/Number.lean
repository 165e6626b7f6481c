import Overseer.Decimal.Shortest

/-!
# Numbers in JSON texts

A float is written with its shortest digits: positionally from 10^-5 up to 10^16, with `.0` behind a
whole number, and else with one digit in front of the point and a signed exponent.  A decimal text
is read from the digits that fit a 64-bit word, rounded once, and scaled by one multiplication or
division with a power of ten, which is repeated where the exponent is below -308.

    floatChars x = digits with a point       when -5 ≤ place of the first digit ≤ 15
-/

namespace Overseer.Json

open Decimal

def digitChars (n : Nat) : List Char := Nat.toDigits 10 n

/-- An exponent with its sign. -/
def exponentChars (e : Int) : List Char :=
  (if e < 0 then ['e', '-'] else ['e', '+']) ++ digitChars e.natAbs

/-- The decimal digits · 10^e. -/
def decimalChars (digits : Nat) (e : Int) : List Char :=
  let ds := digitChars digits
  let place := e + ds.length - 1
  if place < -5 ∨ 15 < place then
    match ds with
    | [] => []
    | [d] => d :: exponentChars place
    | d :: r => d :: '.' :: r ++ exponentChars place
  else if 0 ≤ e then ds ++ List.replicate e.toNat '0' ++ ['.', '0']
  else if 0 ≤ place then ds.take (place.toNat + 1) ++ '.' :: ds.drop (place.toNat + 1)
  else '0' :: '.' :: List.replicate (-place - 1).toNat '0' ++ ds

/-- The text of a finite float. -/
def floatChars (bits : UInt64) : List Char :=
  let sign := if isNegative bits then ['-'] else []
  if isZero bits then sign ++ ['0', '.', '0']
  else
    let (digits, e) := shortest bits
    sign ++ decimalChars digits e

/-- A power of ten that a binary64 can hold. -/
def powerOfTen (n : Nat) : Float := Float.ofScientific 1 false n

/-- Scale by a power of ten; nothing if the result is too large. -/
def scale : (fuel : Nat) → Float → Int → Option Float
  | 0, f, _ => some f
  | fuel + 1, f, e =>
    if e.natAbs ≤ 308 then
      if 0 ≤ e then
        let g := f * powerOfTen e.natAbs
        if g.isInf then none else some g
      else some (f / powerOfTen e.natAbs)
    else if f == 0 then some f
    else if 0 ≤ e then none
    else scale fuel (f / powerOfTen 308) (e + 308)

/-- The float of a significand below 2^64 and a decimal exponent. -/
def floatOfParts (negative : Bool) (significand : Nat) (e : Int) : Option UInt64 :=
  (scale (e.natAbs / 308 + 1) significand.toUInt64.toFloat e).map fun f =>
    (if negative then -f else f).toBits

end Overseer.Json
