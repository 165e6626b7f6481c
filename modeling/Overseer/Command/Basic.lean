import Overseer.Command.Environment
import Overseer.Command.Flags
import Overseer.Command.Path
import Overseer.Text.Quoted

/-!
# Commands

A command is an argument vector, overrides of the environment, spawn flags and perhaps a working
directory.  A new command looks its program up in the search path.

    display c = the arguments joined by spaces, each quoted that is empty or holds a blank or a quote

`resolve` is the path handed to the kernel: a name with a slash is seen from the working directory,
a bare name is looked up only if the flags say so, and else lies in the working directory.
-/

namespace Overseer

structure Command where
  args : List String
  env : Command.Overrides
  flags : Command.Flags
  cwd : Option String
  deriving Repr

namespace Command

def ofArgs (args : List String) : Command := ⟨args, .empty, ⟨Flags.searchPath⟩, none⟩

def addArg (c : Command) (a : String) : Command := { c with args := c.args ++ [a] }

def addArgs (c : Command) (as : List String) : Command := { c with args := c.args ++ as }

def setEnv (c : Command) (name value : String) : Command := { c with env := c.env.set name value }

def unsetEnv (c : Command) (name : String) : Command := { c with env := c.env.unset name }

/-- The first argument names the program. -/
def program? (c : Command) : Option String := c.args.head?

def environment (c : Command) (inherited : List (String × String)) : List (String × String) :=
  c.env.apply inherited

def needsQuotes (a : String) : Bool :=
  a.toList.isEmpty || a.toList.any fun ch => Text.isBlank ch || ch == '"'

def showArg (a : String) : String := if needsQuotes a then Text.quoted a else a

/-- The command on one line. -/
def display (c : Command) : String := " ".intercalate (c.args.map showArg)

/-- Same arguments, overrides and flags, and like working directories. -/
def same (c d : Command) : Bool :=
  c.args == d.args && c.env == d.env && c.flags == d.flags &&
    match c.cwd, d.cwd with
    | none, none => true
    | some p, some q => Path.alike p q
    | _, _ => false

/-- The path under which the program is executed. -/
def resolve (program : String) (flags : Flags) (cwd : Option String) : String :=
  if program.toList.contains '/' then
    match cwd with
    | some dir => Path.join dir program
    | none => program
  else if flags.contains Flags.searchPath then program
  else Path.join (cwd.getD ".") program

end Command

end Overseer
