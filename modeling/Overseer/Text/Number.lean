/-!
# Decimal numbers as text

`padded w n` fills the decimal digits of `n` with zeros up to `w` places.  `readNat?` reads digits
with an optional plus sign in front, and refuses the empty text.
-/

namespace Overseer.Text

/-- Decimal digits filled with zeros in front up to `w` places. -/
def padded (w n : Nat) : String :=
  let d := Nat.toDigits 10 n
  String.ofList (List.replicate (w - d.length) '0' ++ d)

def isDigit (c : Char) : Bool := '0' ≤ c && c ≤ '9'

def digitsValue (ds : List Char) : Nat := ds.foldl (fun n c => 10 * n + (c.toNat - 48)) 0

def readDigits? (ds : List Char) : Option Nat :=
  if ds.isEmpty || !ds.all isDigit then none else some (digitsValue ds)

/-- The value of decimal digits, which a plus sign may precede. -/
def readNat? (s : String) : Option Nat :=
  match s.toList with
  | '+' :: ds => readDigits? ds
  | ds => readDigits? ds

end Overseer.Text
