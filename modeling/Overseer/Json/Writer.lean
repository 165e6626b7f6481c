import Overseer.Bytes
import Overseer.Json.Number
import Overseer.Json.Value

/-!
# Writing JSON

The compact form has no blank between its tokens.  The pretty form puts each item and each member on
a line of its own, indented by two blanks for each level.  In texts the quote, the backslash and the
characters below U+0020 are escaped, and nothing else is.

    every character of a written value is at least U+0020, in the compact form
-/

namespace Overseer.Json

/-- Two short escapes have no name in the language: backspace and form feed. -/
def escapeChar (c : Char) : List Char :=
  if c = '"' then ['\\', '"']
  else if c = '\\' then ['\\', '\\']
  else if c = '\n' then ['\\', 'n']
  else if c = '\r' then ['\\', 'r']
  else if c = '\t' then ['\\', 't']
  else if c.toNat = 8 then ['\\', 'b']
  else if c.toNat = 12 then ['\\', 'f']
  else if c.toNat < 32 then
    ['\\', 'u', '0', '0', Bytes.hexDigit (c.toNat / 16), Bytes.hexDigit (c.toNat % 16)]
  else [c]

def textChars (s : String) : List Char := '"' :: s.toList.flatMap escapeChar ++ ['"']

def intChars (i : Int) : List Char :=
  if i < 0 then '-' :: Nat.toDigits 10 i.natAbs else Nat.toDigits 10 i.natAbs

def openBrace : Char := Char.ofNat 0x7B

def closeBrace : Char := Char.ofNat 0x7D

/-- The pieces with a separator between them. -/
def joinChars (sep : List Char) : List (List Char) → List Char
  | [] => []
  | [p] => p
  | p :: r => p ++ sep ++ joinChars sep r

mutual

/-- The compact form. -/
def Value.chars : Value → List Char
  | .null => ['n', 'u', 'l', 'l']
  | .bool true => ['t', 'r', 'u', 'e']
  | .bool false => ['f', 'a', 'l', 's', 'e']
  | .int i => intChars i
  | .float bits => floatChars bits
  | .text s => textChars s
  | .array items => '[' :: joinChars [','] (itemsChars items) ++ [']']
  | .object ms => openBrace :: joinChars [','] (membersChars ms) ++ [closeBrace]

def itemsChars : List Value → List (List Char)
  | [] => []
  | v :: r => v.chars :: itemsChars r

def membersChars : List (String × Value) → List (List Char)
  | [] => []
  | m :: r => (textChars m.1 ++ ':' :: m.2.chars) :: membersChars r

end

def Value.write (v : Value) : String := String.ofList v.chars

/-- A new line with `n` levels of indentation. -/
def newLine (n : Nat) : List Char := '\n' :: List.replicate (2 * n) ' '

/-- Pieces, each on a line of its own, between two brackets. -/
def block (opening closing : Char) (level : Nat) (pieces : List (List Char)) : List Char :=
  if pieces.isEmpty then [opening, closing]
  else
    opening :: newLine (level + 1) ++ joinChars (',' :: newLine (level + 1)) pieces ++
      newLine level ++ [closing]

mutual

/-- The pretty form inside `level` brackets. -/
def Value.prettyChars (level : Nat) : Value → List Char
  | .array items => block '[' ']' level (prettyItems (level + 1) items)
  | .object ms => block openBrace closeBrace level (prettyMembers (level + 1) ms)
  | .null => Value.null.chars
  | .bool b => (Value.bool b).chars
  | .int i => intChars i
  | .float bits => floatChars bits
  | .text s => textChars s

def prettyItems (level : Nat) : List Value → List (List Char)
  | [] => []
  | v :: r => v.prettyChars level :: prettyItems level r

def prettyMembers (level : Nat) : List (String × Value) → List (List Char)
  | [] => []
  | m :: r => (textChars m.1 ++ ':' :: ' ' :: m.2.prettyChars level) :: prettyMembers level r

end

def Value.pretty (v : Value) : String := String.ofList (v.prettyChars 0)

end Overseer.Json
