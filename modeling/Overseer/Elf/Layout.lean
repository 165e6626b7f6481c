import Overseer.Bytes
import Overseer.Text.Quoted
import Overseer.Word

/-!
# Where the fields of an object file lie

The two classes of object files differ in the width of a word and in the places of the fields, the
two encodings in the order of the bytes of a number.  Class and encoding are bytes 4 and 5 of the
file, behind the four magic bytes.  A number is read only if all of its bytes lie in the file.

    number l d o w = the w bytes of d from o on, in the order of l     when o + w ≤ |d|
-/

namespace Overseer.Elf

/-- The bytes of a file, or of a part of one. -/
abbrev Data := Array UInt8

inductive Error
  | invalidMagic
  | unsupportedClass (byte : Nat)
  | unsupportedEncoding (byte : Nat)
  | notSharedObject (code : Nat)
  | invalidOffset (what : String) (offset : Nat)
  | bufferTooSmall (needed available : Nat)
  | invalidStringIndex (index : Nat)
  | missingSection (name : String)
  deriving DecidableEq, Repr

def Error.message : Error → String
  | invalidMagic => "invalid ELF magic"
  | unsupportedClass c => "unsupported ELF class: " ++ toString c
  | unsupportedEncoding e => "unsupported data encoding: " ++ toString e
  | notSharedObject t => "not a shared object (e_type " ++ toString t ++ ")"
  | invalidOffset what o => "invalid " ++ what ++ " offset: 0x" ++ Text.hexNumber o
  | bufferTooSmall n m => "buffer too small: need " ++ toString n ++ ", have " ++ toString m
  | invalidStringIndex i => "invalid string index: " ++ toString i
  | missingSection n => "missing section: " ++ n

inductive Class
  | elf32
  | elf64
  deriving DecidableEq, Repr

inductive Encoding
  | lsb
  | msb
  deriving DecidableEq, Repr

def Class.title : Class → String
  | elf32 => "Elf32"
  | elf64 => "Elf64"

def Encoding.title : Encoding → String
  | lsb => "Lsb"
  | msb => "Msb"

/-- The title of a code that has none of its own. -/
def unknownTitle (code : Nat) : String := "Unknown(" ++ toString code ++ ")"

/-- Where to find what: everything follows from the class and the encoding. -/
structure Layout where
  cls : Class
  encoding : Encoding
  deriving DecidableEq, Repr

def magic : List UInt8 := [0x7F, 0x45, 0x4C, 0x46]

/-- Bytes that identify a file. -/
def identSize : Nat := 16

def Class.ofByte? (b : Nat) : Option Class :=
  if b = 1 then some .elf32 else if b = 2 then some .elf64 else none

def Encoding.ofByte? (b : Nat) : Option Encoding :=
  if b = 1 then some .lsb else if b = 2 then some .msb else none

/-- The title of a class byte; zero means that there is no class. -/
def Class.titleOfByte? (b : Nat) : Option String :=
  if b = 0 then some "None" else (ofByte? b).map title

def Encoding.titleOfByte? (b : Nat) : Option String :=
  if b = 0 then some "None" else (ofByte? b).map title

/-- The layout that the first bytes of a file announce. -/
def Layout.ofIdent (d : Data) : Except Error Layout :=
  if d.size < identSize then .error (.bufferTooSmall identSize d.size)
  else if (d.extract 0 4).toList ≠ magic then .error .invalidMagic
  else
    let c := (d.getD 4 0).toNat
    let e := (d.getD 5 0).toNat
    match Class.ofByte? c, Encoding.ofByte? e with
    | none, _ => .error (.unsupportedClass c)
    | _, none => .error (.unsupportedEncoding e)
    | some cls, some encoding => .ok ⟨cls, encoding⟩

namespace Layout

def wordSize (l : Layout) : Nat := match l.cls with
  | .elf32 => 4
  | .elf64 => 8

def pick (l : Layout) (a b : Nat) : Nat := match l.cls with
  | .elf32 => a
  | .elf64 => b

/-! ## Sizes and places -/

def headerSize (l : Layout) : Nat := l.pick 52 64

def sectionSize (l : Layout) : Nat := l.pick 40 64

def symbolSize (l : Layout) : Nat := l.pick 16 24

/-! ## Reading numbers -/

def limit : Nat := Word.size64

/-- The bytes from `o` on, `w` of them. -/
def fixed (d : Data) (o w : Nat) : Except Error Bytes :=
  if limit ≤ o + w then .error (.invalidOffset "field" o)
  else if d.size < o + w then .error (.bufferTooSmall (o + w) d.size)
  else .ok (d.extract o (o + w)).toList

def value (l : Layout) (b : Bytes) : Nat := match l.encoding with
  | .lsb => Bytes.little b
  | .msb => Bytes.big b

/-- A number of `w` bytes. -/
def number (l : Layout) (d : Data) (o w : Nat) : Except Error Nat := (fixed d o w).map l.value

/-- A number as wide as the class is. -/
def word (l : Layout) (d : Data) (o : Nat) : Except Error Nat := l.number d o l.wordSize

end Layout

/-- The start and the end of a range that must lie in the file. -/
def checkedRange (d : Data) (what : String) (offset size : Nat) : Except Error (Nat × Nat) :=
  if Layout.limit ≤ offset + size then .error (.invalidOffset what offset)
  else if d.size < offset + size then .error (.bufferTooSmall (offset + size) d.size)
  else .ok (offset, offset + size)

/-! ## Lemmas -/

/-- A field can be read exactly when it lies in the file and its end is a 64-bit number. -/
theorem fixed_isOk_iff (d : Data) (o w : Nat) :
    (∃ b, Layout.fixed d o w = .ok b) ↔ o + w < Layout.limit ∧ o + w ≤ d.size := by
  unfold Layout.fixed
  split
  · next h => simp; omega
  · next h =>
    split
    · next h' => simp; omega
    · next h' =>
      constructor
      · intro _; omega
      · intro _; exact ⟨_, rfl⟩

end Overseer.Elf
