import Overseer.Elf.Layout

/-!
# File headers

The header tells the type of the object and where the table of sections lies: its offset, the size
and the number of its entries, and which section holds the names of the sections.
-/

namespace Overseer.Elf

inductive FileType
  | none
  | rel
  | exec
  | dyn
  | core
  | unknown (code : Nat)
  deriving DecidableEq, Repr

def FileType.ofCode (n : Nat) : FileType :=
  if n = 0 then .none else if n = 1 then .rel else if n = 2 then .exec else if n = 3 then .dyn
  else if n = 4 then .core else .unknown n

def FileType.code : FileType → Nat
  | none => 0
  | rel => 1
  | exec => 2
  | dyn => 3
  | core => 4
  | unknown n => n

def FileType.title : FileType → String
  | none => "None"
  | rel => "Rel"
  | exec => "Exec"
  | dyn => "Dyn"
  | core => "Core"
  | unknown n => unknownTitle n

/-- The offset, the entry size and the number of entries of a table of sections. -/
structure SectionTable where
  offset : Nat
  entrySize : Nat
  count : Nat
  deriving DecidableEq, Repr

structure Header where
  type : FileType
  table : SectionTable
  namesIndex : Nat
  deriving DecidableEq, Repr

def Header.isShared (h : Header) : Bool := h.type == .dyn

/-- Read the header of a file of a known layout. -/
def Header.parse (l : Layout) (d : Data) : Except Error Header := do
  if d.size < l.headerSize then
    throw (.bufferTooSmall l.headerSize d.size)
  let type ← l.number d 16 2
  let offset ← l.word d (l.pick 32 40)
  let entrySize ← l.number d (l.pick 46 58) 2
  let count ← l.number d (l.pick 48 60) 2
  let namesIndex ← l.number d (l.pick 50 62) 2
  return ⟨.ofCode type, ⟨offset, entrySize, count⟩, namesIndex⟩

/-! ## Lemmas -/

theorem FileType.code_ofCode (n : Nat) : (FileType.ofCode n).code = n := by
  unfold ofCode
  repeat' split
  all_goals simp_all [code]

end Overseer.Elf
