import Overseer.Bytes

/-!
# UTF-8

`encode` writes each character in its one form of one to four bytes.  Reading goes one byte at a
time: between characters a byte either is a character, or opens one and fixes how many bytes are
owed and in which range the next one lies, so that overlong forms, surrogates and numbers past the
last character are refused at the first byte that rules them out.

    decode s = some t     only for the well-formed sequences
    decodeLossy s         one U+FFFD for each refused part, never a failure
-/

namespace Overseer.Text.Utf8

/-- The bytes of one character. -/
def encodeChar (c : Char) : Bytes :=
  let n := c.toNat
  if n < 0x80 then [n.toUInt8]
  else if n < 0x800 then [(0xC0 + n / 64).toUInt8, (0x80 + n % 64).toUInt8]
  else if n < 0x10000 then
    [(0xE0 + n / 4096).toUInt8, (0x80 + n / 64 % 64).toUInt8, (0x80 + n % 64).toUInt8]
  else
    [(0xF0 + n / 262144).toUInt8, (0x80 + n / 4096 % 64).toUInt8, (0x80 + n / 64 % 64).toUInt8,
      (0x80 + n % 64).toUInt8]

def encodeChars (s : List Char) : Bytes := s.flatMap encodeChar

def encode (s : String) : Bytes := encodeChars s.toList

/-- An unfinished character: the bytes still owed, the range of the next one, the bits read. -/
structure Pending where
  owed : Nat
  low : Nat
  high : Nat
  bits : Nat

/-- What one byte does to a reader. -/
inductive Outcome
  | char (c : Char)
  | more (p : Pending)
  | refused

/-- A byte met between two characters. -/
def opening (b : Nat) : Outcome :=
  if b < 0x80 then .char (Char.ofNat b)
  else if b < 0xC2 then .refused
  else if b < 0xE0 then .more ⟨1, 0x80, 0xBF, b - 0xC0⟩
  else if b = 0xE0 then .more ⟨2, 0xA0, 0xBF, 0⟩
  else if b = 0xED then .more ⟨2, 0x80, 0x9F, 0xD⟩
  else if b < 0xF0 then .more ⟨2, 0x80, 0xBF, b - 0xE0⟩
  else if b = 0xF0 then .more ⟨3, 0x90, 0xBF, 0⟩
  else if b < 0xF4 then .more ⟨3, 0x80, 0xBF, b - 0xF0⟩
  else if b = 0xF4 then .more ⟨3, 0x80, 0x8F, 4⟩
  else .refused

/-- A byte met inside a character. -/
def continuing (p : Pending) (b : Nat) : Outcome :=
  if p.low ≤ b ∧ b ≤ p.high then
    let bits := p.bits * 64 + b % 64
    if p.owed ≤ 1 then .char (Char.ofNat bits) else .more ⟨p.owed - 1, 0x80, 0xBF, bits⟩
  else .refused

def advance : Option Pending → Nat → Outcome
  | none, b => opening b
  | some p, b => continuing p b

/-- Read on; the characters read so far come last first. -/
def decodeFrom : Option Pending → List Char → Bytes → Option (List Char)
  | none, acc, [] => some acc.reverse
  | some _, _, [] => none
  | st, acc, b :: r =>
    match advance st b.toNat with
    | .char c => decodeFrom none (c :: acc) r
    | .more p => decodeFrom (some p) acc r
    | .refused => none

/-- The text of a well-formed sequence. -/
def decode (s : Bytes) : Option String := (decodeFrom none [] s).map String.ofList

def replacement : Char := Char.ofNat 0xFFFD

/-- A refused byte inside a character may open the next one. -/
def decodeLossyFrom : Option Pending → List Char → Bytes → List Char
  | none, acc, [] => acc.reverse
  | some _, acc, [] => (replacement :: acc).reverse
  | st, acc, b :: r =>
    match advance st b.toNat with
    | .char c => decodeLossyFrom none (c :: acc) r
    | .more p => decodeLossyFrom (some p) acc r
    | .refused =>
      match st with
      | none => decodeLossyFrom none (replacement :: acc) r
      | some _ =>
        match opening b.toNat with
        | .char c => decodeLossyFrom none (c :: replacement :: acc) r
        | .more p => decodeLossyFrom (some p) (replacement :: acc) r
        | .refused => decodeLossyFrom none (replacement :: replacement :: acc) r

/-- The text of any sequence, each refused part written as U+FFFD. -/
def decodeLossy (s : Bytes) : String := String.ofList (decodeLossyFrom none [] s)

end Overseer.Text.Utf8
