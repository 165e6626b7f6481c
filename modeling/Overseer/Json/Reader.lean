import Overseer.Json.Number
import Overseer.Json.Value

/-!
# Reading JSON

A text is one value with blanks around it, where a blank is a space, a tab, a line feed or a carriage
return.  Arrays and objects nest at most 127 deep, of two members with one key the second counts, a
number too large for a binary64 is refused, and so is half a surrogate pair.  A value is read
together with the characters behind it.

    read s = some v   only if s is blanks, a text of v, blanks
-/

namespace Overseer.Json

/-- A value or a part of one, and the rest of the text. -/
abbrev Parse (α : Type) := Option (α × List Char)

def isBlank (c : Char) : Bool := c == ' ' || c == '\n' || c == '\t' || c == '\r'

def skipBlanks (s : List Char) : List Char := s.dropWhile isBlank

def isDigit (c : Char) : Bool := '0' ≤ c && c ≤ '9'

def digitValue (c : Char) : Nat := c.toNat - 48

/-! ## Texts -/

def hexValue? (c : Char) : Option Nat :=
  if '0' ≤ c && c ≤ '9' then some (c.toNat - 48)
  else if 'a' ≤ c && c ≤ 'f' then some (c.toNat - 87)
  else if 'A' ≤ c && c ≤ 'F' then some (c.toNat - 55)
  else none

/-- The number of four hexadecimal digits. -/
def hexFour? (a b c d : Char) : Option Nat :=
  match hexValue? a, hexValue? b, hexValue? c, hexValue? d with
  | some a, some b, some c, some d => some (((a * 16 + b) * 16 + c) * 16 + d)
  | _, _, _, _ => none

/-- The character of a short escape. -/
def shortEscape? (c : Char) : Option Char :=
  if c = '"' then some '"'
  else if c = '\\' then some '\\'
  else if c = '/' then some '/'
  else if c = 'b' then some (Char.ofNat 8)
  else if c = 'f' then some (Char.ofNat 12)
  else if c = 'n' then some '\n'
  else if c = 'r' then some '\r'
  else if c = 't' then some '\t'
  else none

/-- Read up to the closing quote; the characters so far come last first. -/
def readTextFrom (acc : List Char) : List Char → Parse String
  | [] => none
  | '"' :: r => some (String.ofList acc.reverse, r)
  | '\\' :: 'u' :: a :: b :: c :: d :: r =>
    match hexFour? a b c d with
    | none => none
    | some n =>
      if n < 0xD800 || 0xE000 ≤ n then readTextFrom (Char.ofNat n :: acc) r
      else if 0xDC00 ≤ n then none
      else match r with
        | '\\' :: 'u' :: e :: f :: g :: h :: r =>
          match hexFour? e f g h with
          | none => none
          | some m =>
            if 0xDC00 ≤ m && m < 0xE000 then
              readTextFrom (Char.ofNat (0x10000 + (n - 0xD800) * 1024 + (m - 0xDC00)) :: acc) r
            else none
        | _ => none
  | '\\' :: c :: r =>
    match shortEscape? c with
    | none => none
    | some e => readTextFrom (e :: acc) r
  | c :: r => if c.toNat < 32 || c = '\\' then none else readTextFrom (c :: acc) r

/-! ## Numbers -/

/-- Take digits while the number stays below 2^64; the digits taken are counted. -/
def takeDigits : Nat → Nat → List Char → Nat × Nat × List Char
  | n, count, [] => (n, count, [])
  | n, count, c :: r =>
    if isDigit c && n * 10 + digitValue c < Word.size64 then
      takeDigits (n * 10 + digitValue c) (count + 1) r
    else (n, count, c :: r)

/-- Pass over digits, and count them. -/
def skipDigits : Nat → List Char → Nat × List Char
  | count, [] => (count, [])
  | count, c :: r => if isDigit c then skipDigits (count + 1) r else (count, c :: r)

def maxExponent : Nat := 2147483647

/-- The digits of an exponent; nothing in front of the rest when they are too many. -/
def exponentDigits : Nat → List Char → Option Nat × List Char
  | n, [] => (some n, [])
  | n, c :: r =>
    if isDigit c then
      if maxExponent < n * 10 + digitValue c then (none, (skipDigits 0 r).2)
      else exponentDigits (n * 10 + digitValue c) r
    else (some n, c :: r)

def withFloat (b : Option UInt64) (r : List Char) : Parse Value := b.map fun b => (.float b, r)

/-- An exponent behind its mark. -/
def readExponent (negative : Bool) (significand : Nat) (e : Int) (s : List Char) : Parse Value :=
  let (down, s) := match s with
    | '+' :: r => (false, r)
    | '-' :: r => (true, r)
    | s => (false, s)
  match s with
  | [] => none
  | c :: r =>
    if isDigit c then
      match exponentDigits (digitValue c) r with
      | (some x, r) =>
        let x : Int := x
        withFloat (floatOfParts negative significand (if down then e - x else e + x)) r
      | (none, r) =>
        if significand ≠ 0 ∧ down = false then none
        else withFloat (floatOfParts negative 0 0) r
    else none

/-- What may follow the digits of a float. -/
def readScaled (negative : Bool) (significand : Nat) (e : Int) : List Char → Parse Value
  | 'e' :: r => readExponent negative significand e r
  | 'E' :: r => readExponent negative significand e r
  | r => withFloat (floatOfParts negative significand e) r

/-- The digits behind a point, at least one; those that do not fit are passed over. -/
def readFraction (negative : Bool) (significand : Nat) (e : Int) (s : List Char) : Parse Value :=
  match s with
  | [] => none
  | c :: _ =>
    if isDigit c then
      let (n, count, r) := takeDigits significand 0 s
      readScaled negative n (e - count) (skipDigits 0 r).2
    else none

/-- What may follow the whole part of a number. -/
def readTail (negative : Bool) (significand : Nat) (dropped : Nat) (s : List Char) : Parse Value :=
  match s with
  | '.' :: r => readFraction negative significand dropped r
  | 'e' :: r => readExponent negative significand dropped r
  | 'E' :: r => readExponent negative significand dropped r
  | r =>
    if dropped ≠ 0 then withFloat (floatOfParts negative significand dropped) r
    else if !negative then some (.int significand, r)
    else if significand = 0 ∨ Word.half64 < significand then
      withFloat (floatOfParts true significand 0) r
    else some (.int (-(significand : Int)), r)

/-- A number without its sign; a leading zero stands alone. -/
def readUnsigned (negative : Bool) (s : List Char) : Parse Value :=
  match s with
  | [] => none
  | c :: r =>
    if c = '0' then
      match r with
      | d :: _ => if isDigit d then none else readTail negative 0 0 r
      | [] => readTail negative 0 0 []
    else if isDigit c then
      let (n, _, r) := takeDigits 0 0 s
      let (dropped, r) := skipDigits 0 r
      readTail negative n dropped r
    else none

/-! ## Values -/

/-- The rest of a text behind a word. -/
def expect : List Char → List Char → Option (List Char)
  | [], s => some s
  | c :: w, d :: s => if c = d then expect w s else none
  | _ :: _, [] => none

def readWord (word : List Char) (v : Value) (s : List Char) : Parse Value :=
  (expect word s).map fun r => (v, r)

def isOpenBrace (c : Char) : Bool := c.toNat == 0x7B

def isCloseBrace (c : Char) : Bool := c.toNat == 0x7D

mutual

/-- One value without blanks in front, inside brackets that leave room for `depth` more. -/
def readValue : (fuel : Nat) → (depth : Nat) → List Char → Parse Value
  | 0, _, _ => none
  | _ + 1, _, [] => none
  | fuel + 1, depth, c :: r =>
    if c = '"' then (readTextFrom [] r).map fun p => (.text p.1, p.2)
    else if c = '[' then
      if depth = 0 then none
      else match skipBlanks r with
        | ']' :: r => some (.array [], r)
        | r => readItems fuel (depth - 1) [] r
    else if isOpenBrace c then
      if depth = 0 then none
      else match skipBlanks r with
        | [] => none
        | d :: r =>
          if isCloseBrace d then some (.object [], r) else readMembers fuel (depth - 1) [] (d :: r)
    else if c = '-' then readUnsigned true r
    else if isDigit c then readUnsigned false (c :: r)
    else if c = 't' then readWord ['r', 'u', 'e'] (.bool true) r
    else if c = 'f' then readWord ['a', 'l', 's', 'e'] (.bool false) r
    else if c = 'n' then readWord ['u', 'l', 'l'] .null r
    else none

/-- Items up to the closing bracket; those read so far come last first. -/
def readItems : (fuel : Nat) → (depth : Nat) → List Value → List Char → Parse Value
  | 0, _, _, _ => none
  | fuel + 1, depth, acc, s =>
    match readValue fuel depth s with
    | none => none
    | some (v, r) =>
      match skipBlanks r with
      | ',' :: r => readItems fuel depth (v :: acc) (skipBlanks r)
      | ']' :: r => some (.array (v :: acc).reverse, r)
      | _ => none

/-- Members up to the closing brace, put in the order of their keys. -/
def readMembers : (fuel : Nat) → (depth : Nat) → List (String × Value) → List Char → Parse Value
  | 0, _, _, _ => none
  | fuel + 1, depth, acc, s =>
    match s with
    | '"' :: r =>
      match readTextFrom [] r with
      | none => none
      | some (k, r) =>
        match skipBlanks r with
        | ':' :: r =>
          match readValue fuel depth (skipBlanks r) with
          | none => none
          | some (v, r) =>
            match skipBlanks r with
            | ',' :: r => readMembers fuel depth (put k v acc) (skipBlanks r)
            | d :: r => if isCloseBrace d then some (.object (put k v acc), r) else none
            | [] => none
        | _ => none
    | _ => none

end

/-- How deep brackets may nest. -/
def maxDepth : Nat := 127

/-- The value that a whole text holds. -/
def readChars (s : List Char) : Option Value :=
  match readValue (s.length + 1) maxDepth (skipBlanks s) with
  | some (v, r) => if (skipBlanks r).isEmpty then some v else none
  | none => none

def read (s : String) : Option Value := readChars s.toList

end Overseer.Json
