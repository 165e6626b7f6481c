/-!
# File paths

A path is a text cut by slashes.  `join` puts a relative path behind a directory; an absolute path
stands for itself.  Two paths are alike when they have the same root mark and the same components,
where repeated slashes, a slash at the end and a point between components do not count.

    join d p = p            when p is absolute
    join d p = d ++ "/" ++ p   otherwise, with no second slash
-/

namespace Overseer.Command.Path

def isAbsolute (p : String) : Bool := p.toList.head? == some '/'

/-- The path `p` seen from the directory `dir`. -/
def join (dir p : String) : String :=
  if isAbsolute p then p
  else match dir.toList.getLast? with
    | none => p
    | some '/' => dir ++ p
    | some _ => dir ++ "/" ++ p

def piecesOf : List Char → List (List Char)
  | [] => [[]]
  | c :: r =>
    if c == '/' then [] :: piecesOf r
    else match piecesOf r with
      | [] => [[c]]
      | f :: fs => (c :: f) :: fs

/-- The components, without the root; a point counts only at the very start of a relative path. -/
def components (p : String) : List (List Char) :=
  match piecesOf p.toList with
  | [] => []
  | first :: rest =>
    let rest := rest.filter fun f => !f.isEmpty && f != ['.']
    if first.isEmpty then rest else first :: rest

/-- Both paths lead through the same components from the same start. -/
def alike (p q : String) : Bool :=
  isAbsolute p == isAbsolute q && components p == components q

/-- Slashes at the end, and points between them, of a path written backwards. -/
def dropEmptyTail : List Char → List Char
  | '/' :: r => dropEmptyTail r
  | '.' :: '/' :: r => dropEmptyTail r
  | r => r

/-- The last component is put aside; the parent of a bare name is the empty path. -/
def parent (p : String) : String :=
  match dropEmptyTail ((dropEmptyTail p.toList.reverse).dropWhile (· != '/')) with
  | [] => if isAbsolute p then "/" else ""
  | r => String.ofList r.reverse

end Overseer.Command.Path
