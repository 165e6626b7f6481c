import Overseer.Elf.Section
import Overseer.Elf.Symbol

/-!
# Test functions of a shared object

A scan lists, in the order of the dynamic symbol table, the names of the global functions that lie in
the section `.text`.  A file that is no shared object, or lacks one of the tables, has none.

    scan d = names of the symbols i of .dynsym with
               kind func, binding global, section = index of .text, a name that is not empty
-/

namespace Overseer.Elf

/-- The layout and the header of a shared object. -/
def probe (d : Data) : Except Error (Layout × Header) := do
  let l ← Layout.ofIdent d
  let h ← Header.parse l d
  if h.isShared then return (l, h)
  throw (.notSharedObject h.type.code)

def isShared (d : Data) : Bool := (probe d).toOption.isSome

/-- The sections that a scan needs, as far as they have been met. -/
structure Found where
  symbols : Option Section
  strings : Option Section
  text : Option Nat
  deriving DecidableEq, Repr

/-- Take a section into account; the first of each name counts, if it has the right kind. -/
def Found.add (f : Found) (names : Data) (index : Nat) (s : Section) : Found :=
  match stringAt names s.name with
  | .error _ => f
  | .ok name =>
    if name = ".dynsym" ∧ f.symbols.isNone ∧ s.isSymbolTable then { f with symbols := some s }
    else if name = ".dynstr" ∧ f.strings.isNone ∧ s.isStringTable then { f with strings := some s }
    else if name = ".text" ∧ f.text.isNone then { f with text := some index }
    else f

def Found.addAll (names : Data) : Nat → List Section → Found → Found
  | _, [], f => f
  | i, s :: r, f => addAll names (i + 1) r (f.add names i s)

/-- The symbol table, its strings, and the index of the code. -/
structure Tables where
  symbols : Section
  strings : Section
  text : Nat
  deriving DecidableEq, Repr

def Found.tables (f : Found) : Except Error Tables :=
  match f.text with
  | none => .error (.missingSection ".text")
  | some 0 => .error (.missingSection ".text")
  | some text =>
    match f.symbols, f.strings with
    | none, _ => .error (.missingSection ".dynsym")
    | _, none => .error (.missingSection ".dynstr")
    | some symbols, some strings => .ok ⟨symbols, strings, text⟩

/-- Find the tables of a shared object by their names. -/
def locate (d : Data) (l : Layout) (h : Header) : Except Error Tables := do
  let sections ← Section.parseTable l d h.table
  match sections[h.namesIndex]? with
  | none => throw (.missingSection ".shstrtab")
  | some s =>
    let names ← s.contents d
    (Found.addAll names 0 sections ⟨none, none, none⟩).tables

/-- The name of a symbol that a scan lists. -/
def listedName (strings : Data) (text : Nat) (s : Symbol) : Option String :=
  if s.isFunction && s.isGlobal && s.sectionIndex == text && s.name != 0 then
    match stringAt strings s.name with
    | .ok name => if name.isEmpty then none else some name
    | .error _ => none
  else none

/-- List `n` symbols from an offset on, and stop at the first that cannot be read. -/
def listFrom (l : Layout) (symbols strings : Data) (text entrySize : Nat) :
    (n : Nat) → (offset : Nat) → List String
  | 0, _ => []
  | n + 1, offset =>
    match Symbol.parse l symbols offset with
    | .error _ => []
    | .ok s =>
      let rest := listFrom l symbols strings text entrySize n (offset + entrySize)
      match listedName strings text s with
      | some name => name :: rest
      | none => rest

def scan? (d : Data) : Except Error (List String) := do
  let (l, h) ← probe d
  let t ← locate d l h
  let symbols ← t.symbols.contents d
  let strings ← t.strings.contents d
  return listFrom l symbols strings t.text t.symbols.entrySize
    (symbols.size / t.symbols.entrySize) 0

/-- The names that a scan lists. -/
def scan (d : Data) : List String := (scan? d).toOption.getD []

end Overseer.Elf
