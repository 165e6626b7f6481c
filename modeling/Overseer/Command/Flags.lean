import Overseer.Text.Blank

/-!
# Spawn flags

A set of six named bits in a 32-bit word; bits without a name are kept.  `read` takes names apart at
commas, bars and blanks, in any case and with `_` for `-`; `all` names the six, and unknown names
are passed over.

    read s = ⋃ (w ∈ words s), wordBits w
-/

namespace Overseer.Command

structure Flags where
  bits : UInt32
  deriving DecidableEq, Repr

namespace Flags

def empty : Flags := ⟨0⟩

/-- Look a bare program name up in the search path. -/
def searchPath : UInt32 := 0x01

/-- Standard input comes from the null device. -/
def stdinFromNull : UInt32 := 0x02

/-- Standard output goes to the null device. -/
def stdoutToNull : UInt32 := 0x04

/-- Standard error goes to the null device. -/
def stderrToNull : UInt32 := 0x08

/-- The child shares the standard input of its parent. -/
def inheritStdin : UInt32 := 0x10

/-- The child leads a process group of its own. -/
def newGroup : UInt32 := 0x20

/-- The names in the order in which they are listed. -/
def named : List (String × UInt32) :=
  [("search-path", searchPath), ("stdin-from-dev-null", stdinFromNull),
   ("stdout-to-dev-null", stdoutToNull), ("stderr-to-dev-null", stderrToNull),
   ("child-inherits-stdin", inheritStdin), ("new-process-group", newGroup)]

/-- Every bit of `bit` is set. -/
def contains (f : Flags) (bit : UInt32) : Bool := f.bits &&& bit == bit

def insert (f : Flags) (bit : UInt32) : Flags := ⟨f.bits ||| bit⟩

def erase (f : Flags) (bit : UInt32) : Flags := ⟨f.bits &&& ~~~bit⟩

/-- The names of the set flags. -/
def names (f : Flags) : List String := (named.filter fun r => f.contains r.2).map (·.1)

/-- All bits that have a name. -/
def all : UInt32 := named.foldl (fun m r => m ||| r.2) 0

def isSeparator (c : Char) : Bool := c == ',' || c == '|' || Text.isBlank c

/-- A word in the spelling of the names. -/
def spelling (w : List Char) : String :=
  String.ofList ((w.map Char.toLower).map fun c => if c == '_' then '-' else c)

/-- The bits that one word stands for; an unknown word stands for none. -/
def wordBits (w : List Char) : UInt32 :=
  if spelling w == "all" then all
  else match named.find? fun r => r.1 == spelling w with
    | some r => r.2
    | none => 0

/-- The union of the flags that the words of a text name. -/
def read (s : String) : Flags :=
  (Text.fieldsBy isSeparator s.toList).foldl (fun f w => f.insert (wordBits w)) empty

end Flags

end Overseer.Command
