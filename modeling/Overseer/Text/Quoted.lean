import Overseer.Bytes
import Overseer.Text.Unprintable

/-!
# Quoted texts

A text in double quotes: the quote and the backslash follow a backslash, tab, line feed, carriage
return and NUL have letters of their own, and a character without a shape is written by its number
in hexadecimal.

    quoted s = '"' ++ (escape of each character) ++ '"'
-/

namespace Overseer.Text

/-- Hexadecimal digits of a number, without leading zeros; at most `fuel` digits. -/
def hexDigitsFrom : (fuel : Nat) → Nat → List Char → List Char
  | 0, _, acc => acc
  | fuel + 1, n, acc =>
    if n < 16 then Bytes.hexDigit n :: acc
    else hexDigitsFrom fuel (n / 16) (Bytes.hexDigit (n % 16) :: acc)

/-- Lower-case hexadecimal without leading zeros. -/
def hexNumber (n : Nat) : String := String.ofList (hexDigitsFrom (n.log2 / 4 + 1) n [])

def escapeChar (c : Char) : List Char :=
  if c = '"' then ['\\', '"']
  else if c = '\\' then ['\\', '\\']
  else if c = '\t' then ['\\', 't']
  else if c = '\n' then ['\\', 'n']
  else if c = '\r' then ['\\', 'r']
  else if c.toNat = 0 then ['\\', '0']
  else if isUnprintable c then
    ['\\', 'u', Char.ofNat 0x7B] ++ (hexNumber c.toNat).toList ++ [Char.ofNat 0x7D]
  else [c]

def quotedChars (s : List Char) : List Char := '"' :: s.flatMap escapeChar ++ ['"']

/-- The text between double quotes, with escapes. -/
def quoted (s : String) : String := String.ofList (quotedChars s.toList)

end Overseer.Text
