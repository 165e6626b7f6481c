import Overseer.Bytes
import Overseer.Command.Path
import Overseer.Os.Failure

/-!
# Named files

A tree of files: each place is a list of names from the working directory down, or from the root
down behind a slash.  A path is walked piece by piece, and every place that it leads through has to
be a directory.  The null device reads as empty and keeps nothing.

    read p   : the bytes at p,        no such file, is a directory, or not a directory on the way
    write p  : the bytes put at p     in a directory that is there
    makeDirs p : every directory on the way to p, and p itself
-/

namespace Overseer.Cli

open Os (Failure)

inductive Node
  | file (data : Bytes)
  | directory
  | null
  deriving DecidableEq, Repr

/-- Names from the working directory down; those under the root begin with a slash. -/
abbrev Place := List String

structure Files where
  nodes : List (Place × Node)
  deriving DecidableEq, Repr

namespace Files

/-- The working directory is empty, and the null device is there. -/
def empty : Files :=
  ⟨[([], .directory), (["/"], .directory), (["/", "dev"], .directory),
    (["/", "dev", "null"], .null)]⟩

def node? (fs : Files) (p : Place) : Option Node :=
  (fs.nodes.find? fun r => r.1 == p).map (·.2)

/-- Put a node at a place. -/
def put (fs : Files) (p : Place) (n : Node) : Files :=
  ⟨(p, n) :: fs.nodes.filter fun r => r.1 != p⟩

def isDirectory (fs : Files) (p : Place) : Bool := fs.node? p == some .directory

def noSuchFile : Failure := .code 2

def fileExists : Failure := .code 17

def notDirectory : Failure := .code 20

def isDirectoryFailure : Failure := .code 21

/-- Where a piece of a path leads. -/
def enter (p : Place) (piece : String) : Place :=
  if piece = "" ∨ piece = "." then p
  else if piece = ".." then (if p = ["/"] then p else p.dropLast)
  else p ++ [piece]

/-- Walk on from a place; what is walked through has to be a directory. -/
def walk (fs : Files) : Place → List String → Except Failure Place
  | p, [] => .ok p
  | p, piece :: r =>
    match fs.node? p with
    | none => .error noSuchFile
    | some .directory => walk fs (enter p piece) r
    | some _ => .error notDirectory

/-- The place that a path names, whether or not something is there. -/
def locate (fs : Files) (path : String) : Except Failure Place :=
  if path.toList.any fun c => c.toNat == 0 then
    .error (.refused "file name contained an unexpected NUL byte")
  else if path = "" then .error noSuchFile
  else
    fs.walk (if Command.Path.isAbsolute path then ["/"] else [])
      ((Command.Path.piecesOf path.toList).map String.ofList)

def read (fs : Files) (path : String) : Except Failure Bytes := do
  let p ← fs.locate path
  match fs.node? p with
  | none => throw noSuchFile
  | some (.file data) => return data
  | some .directory => throw isDirectoryFailure
  | some .null => return []

/-- The path without the slashes at its end. -/
def stem (path : String) : String :=
  String.ofList (path.toList.reverse.dropWhile (· == '/')).reverse

/-- Create or replace a file. -/
def write (fs : Files) (path : String) (data : Bytes) : Except Failure Files := do
  if stem path = "" then throw isDirectoryFailure
  let p ← fs.locate (stem path)
  if stem path ≠ path then throw isDirectoryFailure
  match fs.node? p with
  | some .directory => throw isDirectoryFailure
  | some .null => return fs
  | _ => return fs.put p (.file data)

/-- Write files one after the other, up to the first that is refused. -/
def writeAll (fs : Files) : List (String × Bytes) → Option Failure × Files
  | [] => (none, fs)
  | (path, data) :: r =>
    match fs.write path data with
    | .ok fs => fs.writeAll r
    | .error e => (some e, fs)

/-- Make one directory; what leads to it has to be there. -/
def makeDir (fs : Files) (path : String) : Except Failure Files := do
  let p ← fs.locate (if stem path = "" then path else stem path)
  match fs.node? p with
  | none => return fs.put p .directory
  | some _ => throw fileExists

/-- Whether a path leads to a directory. -/
def leadsToDirectory (fs : Files) (path : String) : Bool :=
  match fs.locate path with
  | .ok p => fs.isDirectory p
  | .error _ => false

/-- Make a directory, and first its parents; each round takes one component off the path. -/
def makeDirsFrom : (fuel : Nat) → Files → String → Except Failure Files
  | 0, fs, _ => .ok fs
  | fuel + 1, fs, path =>
    if path = "" then .ok fs
    else match fs.makeDir path with
      | .ok fs => .ok fs
      | .error e =>
        if e = noSuchFile then do
          let fs ← makeDirsFrom fuel fs (Command.Path.parent path)
          match fs.makeDir path with
          | .ok fs => return fs
          | .error e => if fs.leadsToDirectory path then return fs else throw e
        else if fs.leadsToDirectory path then .ok fs
        else .error e

def makeDirs (fs : Files) (path : String) : Except Failure Files :=
  makeDirsFrom (path.length + 1) fs path

/-- A tree that holds named files, with the directories that they need. -/
def ofList (named : List (String × Bytes)) : Files :=
  named.foldl (fun fs r =>
    let fs := (fs.makeDirs (Command.Path.parent r.1)).toOption.getD fs
    (fs.write r.1 r.2).toOption.getD fs) empty

/-! ## Lemmas -/

theorem node?_put (fs : Files) (p q : Place) (n : Node) :
    (fs.put p n).node? q = if p = q then some n else fs.node? q := by
  unfold put node?
  by_cases h : p = q
  · simp [h]
  · simp only [List.find?_cons, h, if_false]
    rw [show (p == q) = false by simpa using h]
    congr 1
    rw [List.find?_filter]
    dsimp only
    congr 1
    funext r
    by_cases hr : r.1 = q
    · simp [hr, Ne.symm h]
    · simp [hr]

end Files

end Overseer.Cli
