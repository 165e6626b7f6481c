import Mathlib.Data.List.Basic
import Overseer.Supervisor.Calls

/-!
# The program that is executed

A child goes into its working directory before it executes its program, so that a relative path is
followed from there. A path leads through a tree of files, from the root when it begins with a slash,
and else from where one is; what stands in a directory, links and `..` included, is for the tree to say.

    named     =  the program's text followed from the working directory
    executed  =  the path that is handed over, followed from the working directory

The path handed over has the directory in front of the program already.  An absolute directory is thus
entered once, and a relative one a second time from inside itself.

Main statement: `executed_spec`.
-/

namespace Overseer

open Supervisor
open Command (Path.isAbsolute Path.piecesOf Path.join)

/-- A tree of files.  Each directory has entries, and a bare name may be found by a search. -/
structure Tree where
  Node : Type
  root : Node
  isDirectory : Node → Bool
  entry : Node → List Char → Option Node
  searched : String → Option Node

namespace Tree

variable {t : Tree} {n here : t.Node}

/-- One piece of a path; between two slashes nothing, or a point, means the directory itself. -/
def enter (t : Tree) (n : t.Node) (piece : List Char) : Option t.Node :=
  if t.isDirectory n then
    if piece = [] ∨ piece = ['.'] then some n else t.entry n piece
  else none

def walk (t : Tree) : List (List Char) → t.Node → Option t.Node
  | [], n => some n
  | piece :: rest, n => (t.enter n piece).bind (t.walk rest)

/-- Where a path leads from a node; the empty path leads nowhere. -/
def find (t : Tree) (p : String) (n : t.Node) : Option t.Node :=
  if p = "" then none else t.walk (Path.piecesOf p.toList) (if Path.isAbsolute p then t.root else n)

def directory (t : Tree) (p : String) (n : t.Node) : Option t.Node := (t.find p n).filter t.isDirectory

/-- A directory cannot be executed. -/
def program (t : Tree) (p : String) (n : t.Node) : Option t.Node := (t.find p n).filter fun m => !t.isDirectory m

/-- Where a child is after it has gone into its working directory, if there is one. -/
def workingDirectory (t : Tree) (cwd : Option String) (here : t.Node) : Option t.Node :=
  match cwd with
  | none => some here
  | some dir => t.directory dir here

/-- The file that a program's text names, seen from a working directory. -/
def named (t : Tree) (program : String) (cwd : Option String) (here : t.Node) : Option t.Node :=
  (t.workingDirectory cwd here).bind (t.program program)

/-- The file that is executed by a child of a parent that is here; a path without a slash is searched for. -/
def executed (t : Tree) (e : Execution) (here : t.Node) : Option t.Node :=
  (t.workingDirectory e.cwd here).bind fun d =>
    if e.program.toList.contains '/' then t.program e.program d else t.searched e.program

end Tree

/-! ## Pieces of a path -/

section

variable {a b : List Char} {dir program : String}

theorem piecesOf_ne_nil (a : List Char) : Path.piecesOf a ≠ [] := by
  cases a with
  | nil => simp [Path.piecesOf]
  | cons c r =>
    unfold Path.piecesOf
    split
    · simp
    · split <;> simp

theorem piecesOf_append (a b : List Char) :
    Path.piecesOf (a ++ '/' :: b) = Path.piecesOf a ++ Path.piecesOf b := by
  induction a with
  | nil => simp [Path.piecesOf]
  | cons c r ih =>
    rw [List.cons_append, Path.piecesOf, Path.piecesOf, ih]
    split
    · rfl
    · cases hr : Path.piecesOf r with
      | nil => exact absurd hr (piecesOf_ne_nil r)
      | cons f fs => rfl

/-- A relative path is put behind a directory with one slash between them. -/
theorem join_relative (hp : Path.isAbsolute program = false) (hd : dir ≠ "") :
    ∃ front, (Path.join dir program).toList = front ++ '/' :: program.toList ∧
      (dir.toList = front ∨ dir.toList = front ++ ['/']) := by
  unfold Path.join
  rw [hp, if_neg (by simp)]
  split
  · next hlast =>
    rw [List.getLast?_eq_none_iff] at hlast
    exact absurd (String.toList_eq_nil_iff.1 hlast) hd
  · next hlast =>
    obtain ⟨front, hfront⟩ := List.getLast?_eq_some_iff.1 hlast
    exact ⟨front, by simp [hfront], .inr hfront⟩
  · exact ⟨dir.toList, by simp, .inl rfl⟩

theorem join_absolute (hp : Path.isAbsolute program = true) (dir : String) : Path.join dir program = program := by
  rw [Path.join, if_pos hp]

theorem isAbsolute_join (hp : Path.isAbsolute program = false) (hd : dir ≠ "") :
    Path.isAbsolute (Path.join dir program) = Path.isAbsolute dir := by
  obtain ⟨front, hjoin, hdir⟩ := join_relative hp hd
  have hne : dir.toList ≠ [] := fun h => hd (String.toList_eq_nil_iff.1 h)
  unfold Path.isAbsolute
  rw [hjoin]
  rcases hdir with hdir | hdir
  · rw [hdir] at hne ⊢
    rw [List.head?_append_of_ne_nil _ hne]
  · rw [hdir, ← List.singleton_append, ← List.append_assoc, List.head?_append_of_ne_nil _ (by simp)]

end

/-! ## Walks -/

namespace Tree

variable {t : Tree} {n here : t.Node} {xs ys : List (List Char)} {dir p : String}

theorem walk_append (xs ys : List (List Char)) (n : t.Node) :
    t.walk (xs ++ ys) n = (t.walk xs n).bind (t.walk ys) := by
  induction xs generalizing n with
  | nil => rfl
  | cons x xs ih =>
    rw [List.cons_append, walk, walk, Option.bind_assoc]
    congr 1
    funext m
    exact ih m

/-- Only a directory leads on. -/
theorem walk_filter (hne : ys ≠ []) (m : Option t.Node) :
    (m.filter t.isDirectory).bind (t.walk ys) = m.bind (t.walk ys) := by
  cases m with
  | none => rfl
  | some n =>
    cases hdir : t.isDirectory n with
    | true => rw [Option.filter_some, if_pos hdir]
    | false =>
      cases ys with
      | nil => exact absurd rfl hne
      | cons y ys => simp [Option.filter_some, hdir, walk, enter]

/-- An empty piece, or a point, leads to the directory itself. -/
theorem walk_here {piece : List Char} (hpiece : piece = [] ∨ piece = ['.']) (n : t.Node) :
    t.walk [piece] n = (some n).filter t.isDirectory := by
  cases hdir : t.isDirectory n <;> simp [walk, enter, Option.filter_some, hdir, hpiece]

/-- What lies behind a directory is what the program leads to from there. -/
theorem walk_join (hp : Path.isAbsolute p = false) (hd : dir ≠ "") (n : t.Node) :
    t.walk (Path.piecesOf (Path.join dir p).toList) n =
      (t.walk (Path.piecesOf dir.toList) n).bind (t.walk (Path.piecesOf p.toList)) := by
  obtain ⟨front, hjoin, hdir⟩ := join_relative hp hd
  rw [hjoin, piecesOf_append, walk_append]
  rcases hdir with hdir | hdir
  · rw [hdir]
  · rw [hdir, piecesOf_append, walk_append, Option.bind_assoc]
    congr 1
    funext m
    rw [show Path.piecesOf [] = [[]] from rfl, walk_here (.inl rfl), walk_filter (piecesOf_ne_nil _)]
    rfl

theorem filter_bind {α β : Type} (m : Option α) (f : α → Option β) (q : β → Bool) :
    (m.bind f).filter q = m.bind fun a => (f a).filter q := by
  cases m <;> rfl

/-- The start of an absolute path does not matter. -/
theorem find_absolute (ha : Path.isAbsolute p = true) (n m : t.Node) : t.find p n = t.find p m := by
  unfold find
  rw [ha]
  rfl

/-- To follow the joined path is to follow the directory, and then the program. -/
theorem program_join (hp : Path.isAbsolute p = false) (hd : dir ≠ "") (n : t.Node) :
    t.program (Path.join dir p) n = (t.directory dir n).bind (t.program p) := by
  have hjoin : Path.join dir p ≠ "" := by
    obtain ⟨front, hjoin, -⟩ := join_relative hp hd
    intro h
    rw [h] at hjoin
    simp at hjoin
  have hfind : t.find (Path.join dir p) n = (t.find dir n).bind (t.walk (Path.piecesOf p.toList)) := by
    rw [find, find, if_neg hjoin, if_neg hd, isAbsolute_join hp hd, walk_join hp hd]
  have hsame := walk_filter (t := t) (piecesOf_ne_nil p.toList) (t.find dir n)
  rw [program, hfind, directory, ← hsame, filter_bind]
  congr 1
  funext m
  unfold program find
  by_cases hempty : p = ""
  · subst hempty
    rw [if_pos rfl, show Path.piecesOf "".toList = [[]] from rfl, walk_here (.inl rfl), Option.filter_filter]
    simp
  · rw [if_neg hempty, hp]
    rfl

/-- A point in front of a program changes nothing. -/
theorem program_dot (hp : Path.isAbsolute p = false) (n : t.Node) :
    t.program (Path.join "." p) n = t.program p n := by
  have hdot : t.directory "." n = (some n).filter t.isDirectory := by
    rw [directory, find, if_neg (by decide), show Path.piecesOf ".".toList = [['.']] from by decide,
      walk_here (.inr rfl),
      Option.filter_filter]
    simp [show Path.isAbsolute "." = false from by decide]
  have hfile : t.program p n = ((some n).filter t.isDirectory).bind (t.program p) := by
    cases hdir : t.isDirectory n with
    | true => rw [Option.filter_some, if_pos hdir, Option.bind_some]
    | false =>
      have hnone : t.walk (Path.piecesOf p.toList) n = none := by
        rw [← Option.bind_some n (t.walk _), ← walk_filter (piecesOf_ne_nil _), Option.filter_some, hdir]
        rfl
      rw [Option.filter_some, hdir, program, find, hp]
      simp [hnone]
  rw [program_join hp (by decide), hdot, ← hfile]

end Tree

/-! ## What is executed -/

section

variable {c : Command} {program : String} {environ : List (String × String)} {t : Tree} {here : t.Node}

theorem slash_of_isAbsolute {p : String} (ha : Path.isAbsolute p = true) : p.toList.contains '/' = true := by
  have hhead : p.toList.head? = some '/' := beq_iff_eq.1 ha
  exact List.contains_iff_mem.2 (List.mem_of_head? hhead)

theorem slash_of_join {dir p : String} (hp : Path.isAbsolute p = false) (hd : dir ≠ "") :
    (Path.join dir p).toList.contains '/' = true := by
  obtain ⟨front, hjoin, -⟩ := join_relative hp hd
  rw [hjoin]
  simp

/-- A path with a slash is not searched for. -/
theorem executed_of_slash {path : String} (hpath : Command.resolve program c.flags c.cwd = path)
    (hslash : path.toList.contains '/' = true) :
    t.executed (Machine.execution c program environ) here = (t.workingDirectory c.cwd here).bind
    (t.program path) := by
  unfold Tree.executed Machine.execution
  rw [hpath]
  simp only [hslash, if_true]

variable (hlocal : program.toList.contains '/' = true ∨ c.flags.contains Command.Flags.searchPath = false)

include hlocal

/-- Without a working directory the program is looked for where one is. -/
theorem executed_of_no_cwd (hcwd : c.cwd = none) :
    t.executed (Machine.execution c program environ) here = t.program program here := by
  have hwhere : t.workingDirectory c.cwd here = some here := by
    rw [hcwd]
    rfl
  by_cases hslash : program.toList.contains '/' = true
  · have hpath : Command.resolve program c.flags c.cwd = program := by
      unfold Command.resolve
      rw [if_pos hslash, hcwd]
    rw [executed_of_slash hpath hslash, hwhere, Option.bind_some]
  · have hpath : Command.resolve program c.flags c.cwd = Path.join "." program := by
      unfold Command.resolve
      rw [if_neg hslash, hlocal.resolve_left hslash, hcwd]
      rfl
    have hp : Path.isAbsolute program = false := Bool.eq_false_iff.2 fun ha => hslash (slash_of_isAbsolute ha)
    rw [executed_of_slash hpath (slash_of_join hp (by decide)), hwhere, Option.bind_some, Tree.program_dot hp]

/-- In a working directory the path that has it in front is followed. -/
theorem executed_of_cwd {dir : String} (hcwd : c.cwd = some dir) :
    t.executed (Machine.execution c program environ) here =
      (t.directory dir here).bind (t.program (Path.join dir program)) := by
  have hwhere : t.workingDirectory c.cwd here = t.directory dir here := by
    rw [hcwd]
    rfl
  have hpath : Command.resolve program c.flags c.cwd = Path.join dir program := by
    unfold Command.resolve
    rw [hcwd]
    by_cases hslash : program.toList.contains '/' = true
    · rw [if_pos hslash]
    · rw [if_neg hslash, hlocal.resolve_left hslash]
      rfl
  by_cases hd : dir = ""
  -- there is no such directory, so that nothing is executed
  · subst hd
    unfold Tree.executed Machine.execution
    rw [hwhere]
    rfl
  · have hslash : (Path.join dir program).toList.contains '/' = true := by
      cases hp : Path.isAbsolute program with
      | true => exact (join_absolute hp dir).symm ▸ slash_of_isAbsolute hp
      | false => exact slash_of_join hp hd
    rw [executed_of_slash hpath hslash, hwhere]

omit hlocal in
theorem execution_of_spawn {s : Machine} {h : Nat} {plan : Kernel.Plan} {execError : Option Int} {e : Execution}
    (hs : (s.spawn h c plan execError).2.1 = some e) (hp : c.program? = some program) :
    e = Machine.execution c program s.environ := by
  unfold Machine.spawn at hs
  rw [hp] at hs
  dsimp only at hs
  split at hs
  · cases hs
  · split at hs
    · cases hs
    · split at hs <;> exact (Option.some.inj hs).symm

end

/-- **What is executed.**  Where a spawn reaches the point of executing a program that is not to be searched
for, and the program or the working directory is absolute or there is no working directory, the file that is
executed is the one that the program's text names from the working directory.  Else it is the one that it
names from the directory to which the path of the working directory leads from inside the working directory. -/
theorem executed_spec (t : Tree) (here : t.Node) {s : Machine} {h : Nat} {c : Command} {plan : Kernel.Plan}
    {execError : Option Int} {e : Execution} {program : String} (hs : (s.spawn h c plan execError).2.1 = some e)
    (hp : c.program? = some program)
    (hlocal : program.toList.contains '/' = true ∨ c.flags.contains Command.Flags.searchPath = false) :
    ((∀ dir, c.cwd = some dir → Path.isAbsolute dir = true ∨ Path.isAbsolute program = true) →
      t.executed e here = t.named program c.cwd here) ∧
    ∀ dir, c.cwd = some dir → Path.isAbsolute dir = false → Path.isAbsolute program = false →
      t.executed e here = (t.directory dir here).bind (t.named program (some dir)) := by
  rw [execution_of_spawn hs hp]
  have hjoined : ∀ dir, Path.isAbsolute program = false →
    (t.directory dir here).bind (t.program (Path.join dir program)) =
      (t.directory dir here).bind (t.named program (some dir)) := fun dir hrelative => by
    by_cases hd : dir = ""
    · subst hd
      rfl
    · congr 1
      funext inside
      exact Tree.program_join hrelative hd inside
  refine ⟨fun habsolute => ?_, fun dir hcwd _ hrelative => (executed_of_cwd hlocal hcwd).trans
    (hjoined dir hrelative)⟩
  cases hcwd : c.cwd with
  | none => exact executed_of_no_cwd hlocal hcwd
  | some dir =>
    rw [executed_of_cwd hlocal hcwd]
    cases hrelative : Path.isAbsolute program with
    | true => rw [join_absolute hrelative]; rfl
    | false =>
      have ha : Path.isAbsolute dir = true := (habsolute dir hcwd).resolve_right (by simp [hrelative])
      rw [hjoined dir hrelative]
      show _ = (t.directory dir here).bind (t.program program)
      cases hdir : t.directory dir here with
      | none => rfl
      | some inside =>
        have hagain : t.directory dir inside = some inside := by
          rw [Tree.directory, Tree.find_absolute ha inside here]
          exact hdir
        show (t.directory dir inside).bind (t.program program) = t.program program inside
        rw [hagain, Option.bind_some]

/-- Below 1, which is `/home`, lie a directory 2 called `sub` with a file 3, and in it a directory 4 of the
same name with a file 5; both files are called `prog`. -/
def nested : Tree where
  Node := Nat
  root := 0
  isDirectory n := n != 3 && n != 5
  entry n name := Command.look? (String.ofList name)
    (match n with
    | 0 => [("home", 1)]
    | 1 => [("sub", 2), ("..", 0)]
    | 2 => [("prog", 3), ("sub", 4), ("..", 1)]
    | 4 => [("prog", 5), ("..", 2)]
    | _ => [])
  searched _ := none

/-- A bare name that is not to be searched for, in some working directory. -/
def bare (cwd : String) : Command := ⟨["prog"], .empty, .empty, some cwd⟩

def spawner : Machine := ((Machine.fresh .standard 10000000 [] (.fresh true)).resolve "a").2

/-- What a spawn of it executes. -/
def launched (cwd : String) : Execution := Machine.execution (bare cwd) "prog" []

theorem executed_of_nested :
    (spawner.spawn 0 (bare "/home/sub") ⟨Kernel.Habits.standard, []⟩ none).2.1 = some (launched "/home/sub") ∧
    nested.executed (launched "/home/sub") (1 : Nat) = nested.named "prog" (some "/home/sub") (1 : Nat) ∧
    nested.named "prog" (some "/home/sub") (1 : Nat) = some (3 : Nat) := by
  have hs : (spawner.spawn 0 (bare "/home/sub") ⟨Kernel.Habits.standard, []⟩ none).2.1 =
    some (launched "/home/sub") := by
    decide +kernel
  refine ⟨hs, (executed_spec nested (1 : Nat) hs rfl (.inr rfl)).1 ?_, ?_⟩
  · rintro dir ⟨⟩
    exact .inl (by decide)
  · rfl

/-- In a relative working directory another file is executed than the one that is named. -/
theorem relative_cwd_entered_twice :
    (spawner.spawn 0 (bare "sub") ⟨Kernel.Habits.standard, []⟩ none).2.1 = some (launched "sub") ∧
    nested.named "prog" (some "sub") (1 : Nat) = some (3 : Nat) ∧
    nested.executed (launched "sub") (1 : Nat) = some (5 : Nat) :=
  ⟨by decide +kernel, rfl, rfl⟩

end Overseer
