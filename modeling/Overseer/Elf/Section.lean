import Overseer.Elf.Header

/-!
# Sections

A section has a name, given as an index into a table of names, a kind, and a range of bytes of the
file.  The table of sections is read as a whole or not at all: it must lie in the file, and its
entries must be as large as the class asks.
-/

namespace Overseer.Elf

inductive SectionKind
  | null
  | progbits
  | symtab
  | strtab
  | rela
  | hash
  | dynamic
  | note
  | nobits
  | rel
  | dynsym
  | gnuHash
  | unknown (code : Nat)
  deriving DecidableEq, Repr

/-- The kinds with their codes. -/
def SectionKind.codes : List (Nat × SectionKind) :=
  [(0, .null), (1, .progbits), (2, .symtab), (3, .strtab), (4, .rela), (5, .hash), (6, .dynamic),
   (7, .note), (8, .nobits), (9, .rel), (11, .dynsym), (0x6FFFFFF6, .gnuHash)]

def SectionKind.ofCode (n : Nat) : SectionKind :=
  match codes.find? fun r => r.1 == n with
  | some r => r.2
  | none => .unknown n

def SectionKind.title : SectionKind → String
  | null => "Null"
  | progbits => "Progbits"
  | symtab => "Symtab"
  | strtab => "Strtab"
  | rela => "Rela"
  | hash => "Hash"
  | dynamic => "Dynamic"
  | note => "Note"
  | nobits => "Nobits"
  | rel => "Rel"
  | dynsym => "Dynsym"
  | gnuHash => "GnuHash"
  | unknown n => unknownTitle n

structure Section where
  name : Nat
  kind : SectionKind
  offset : Nat
  size : Nat
  entrySize : Nat
  deriving DecidableEq, Repr

namespace Section

def isSymbolTable (s : Section) : Bool := s.kind == .symtab || s.kind == .dynsym

def isStringTable (s : Section) : Bool := s.kind == .strtab

/-- The place of a field of an entry. -/
def place (offset field : Nat) : Except Error Nat :=
  if Layout.limit ≤ offset + field then .error (.invalidOffset "section header" offset)
  else .ok (offset + field)

/-- Read the entry at an offset. -/
def parse (l : Layout) (d : Data) (offset : Nat) : Except Error Section := do
  let name ← l.number d (← place offset 0) 4
  let kind ← l.number d (← place offset 4) 4
  let start ← l.word d (← place offset (l.pick 16 24))
  let size ← l.word d (← place offset (l.pick 20 32))
  let entrySize ← l.word d (← place offset (l.pick 36 56))
  return ⟨name, .ofCode kind, start, size, entrySize⟩

/-- The bytes of a section. -/
def contents (s : Section) (d : Data) : Except Error Data :=
  (checkedRange d "section" s.offset s.size).map fun r => d.extract r.1 r.2

/-- Read `n` entries from an offset on. -/
def parseFrom (l : Layout) (d : Data) (entrySize : Nat) :
    (n : Nat) → (offset : Nat) → Except Error (List Section)
  | 0, _ => .ok []
  | n + 1, offset => do
    let s ← parse l d offset
    let rest ← parseFrom l d entrySize n (offset + entrySize)
    return s :: rest

/-- Read a whole table. -/
def parseTable (l : Layout) (d : Data) (t : SectionTable) : Except Error (List Section) :=
  if 0 < t.count ∧ t.entrySize < l.sectionSize then
    .error (.bufferTooSmall l.sectionSize t.entrySize)
  else do
    let r ← checkedRange d "section header table" t.offset (t.entrySize * t.count)
    parseFrom l d t.entrySize t.count r.1

end Section

end Overseer.Elf
