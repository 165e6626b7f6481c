import Overseer.Elf.Layout
import Overseer.Text.Utf8

/-!
# Symbols and strings

An entry of a symbol table has a name, given as an index into a table of strings, a byte whose upper
half is the binding and whose lower half is the kind, and the index of the section it belongs to.  A
string ends at the first zero byte and is UTF-8.
-/

namespace Overseer.Elf

inductive Binding
  | localScope
  | globalScope
  | weak
  | unknown (code : Nat)
  deriving DecidableEq, Repr

def Binding.ofCode (n : Nat) : Binding :=
  if n = 0 then .localScope else if n = 1 then .globalScope else if n = 2 then .weak else .unknown n

def Binding.title : Binding → String
  | localScope => "Local"
  | globalScope => "Global"
  | weak => "Weak"
  | unknown n => unknownTitle n

inductive SymbolKind
  | noType
  | object
  | func
  | sectionMark
  | file
  | common
  | tls
  | ifunc
  | unknown (code : Nat)
  deriving DecidableEq, Repr

def SymbolKind.codes : List (Nat × SymbolKind) :=
  [(0, .noType), (1, .object), (2, .func), (3, .sectionMark), (4, .file), (5, .common), (6, .tls),
   (10, .ifunc)]

def SymbolKind.ofCode (n : Nat) : SymbolKind :=
  match codes.find? fun r => r.1 == n with
  | some r => r.2
  | none => .unknown n

def SymbolKind.title : SymbolKind → String
  | noType => "NoType"
  | object => "Object"
  | func => "Func"
  | sectionMark => "Section"
  | file => "File"
  | common => "Common"
  | tls => "Tls"
  | ifunc => "IFunc"
  | unknown n => unknownTitle n

structure Symbol where
  name : Nat
  info : Nat
  other : Nat
  sectionIndex : Nat
  value : Nat
  size : Nat
  deriving DecidableEq, Repr

namespace Symbol

def binding (s : Symbol) : Binding := .ofCode (s.info / 16)

def kind (s : Symbol) : SymbolKind := .ofCode (s.info % 16)

def isFunction (s : Symbol) : Bool := s.kind == .func

def isGlobal (s : Symbol) : Bool := s.binding == .globalScope

/-- Read the entry at an offset; it must lie in the table as a whole. -/
def parse (l : Layout) (d : Data) (offset : Nat) : Except Error Symbol :=
  if Layout.limit ≤ offset + l.symbolSize then .error (.invalidOffset "symbol" offset)
  else if d.size < offset + l.symbolSize then
    .error (.bufferTooSmall (offset + l.symbolSize) d.size)
  else do
    let name ← l.number d offset 4
    let info ← l.number d (offset + l.pick 12 4) 1
    let other ← l.number d (offset + l.pick 13 5) 1
    let index ← l.number d (offset + l.pick 14 6) 2
    let value ← l.word d (offset + l.pick 4 8)
    let size ← l.word d (offset + l.pick 8 16)
    return ⟨name, info, other, index, value, size⟩

end Symbol

/-- The index of the first zero byte among `n` bytes from `i` on. -/
def zeroFrom (d : Data) : (n : Nat) → (i : Nat) → Option Nat
  | 0, _ => none
  | n + 1, i => if d.getD i 1 = 0 then some i else zeroFrom d n (i + 1)

/-- The string at an index of a table. -/
def stringAt (table : Data) (index : Nat) : Except Error String :=
  match zeroFrom table (table.size - index) index with
  | none => .error (.invalidStringIndex index)
  | some stop =>
    match Text.Utf8.decode (table.extract index stop).toList with
    | some s => .ok s
    | none => .error (.invalidStringIndex index)

end Overseer.Elf
