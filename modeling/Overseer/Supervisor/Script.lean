import Overseer.Kernel.Basic
import Overseer.Run.Report

/-!
# Operations and callback scripts

Whatever a user may do to a loop, its handles and its kernel is an operation.  A callback of the
user is a script: for each call it says which operations to carry out and whether to stay
registered.  A script that has come to its end does nothing and leaves.
-/

namespace Overseer.Supervisor

/-- One command to be run on a loop of its own; the timeout is in nanoseconds. -/
structure RunSpec where
  command : Command
  plan : Kernel.Plan
  execError : Option Int
  payload : Option Bytes
  timeout : Nat
  logged : Bool
  deriving Repr

/-- Deadline of an isolated run when none is given. -/
def RunSpec.standardTimeout : Nat := 30000000000

mutual

/-- Times are in nanoseconds; handles, watches and files are called by name. -/
inductive Op
  | idle (priority : Int) (script : Script)
  | timer (interval : Nat) (priority : Int) (script : Script)
  | io (fd : String) (interest : Loop.Condition) (script : Script)
  | childWatch (pid : Int) (priority : Int) (script : Script)
  | remove (tag : String)
  | contains (tag : String)
  | idOf (tag : String)
  | size
  | inspectLoop
  | inspectSupervisor
  | iterate (block : Bool)
  | run
  | quit
  | spawn (h : String) (command : Command) (plan : Kernel.Plan) (execError : Option Int)
  | write (h : String) (data : Bytes)
  | writeTimeout (h : String) (data : Bytes) (timeout : Nat)
  | closeStdin (h : String)
  | close (h : String)
  | dispose (h : String)
  | wait (h : String) (timeout : Nat)
  | kill (h : String) (signal : Int)
  | subscribe (h : String) (script : Script)
  | drain (h : String)
  | isRunning (h : String)
  | command (h : String)
  | inspect (h : String)
  | drop (h : String)
  | event (e : Kernel.Event)
  | schedule (time : Nat) (e : Kernel.Event)
  | advance (ns : Nat)
  | consumed (pid : Int)
  | isolated (spec : RunSpec)

/-- The tag of a callback, whether each call stays registered, and what each call does. -/
inductive Script
  | mk (tag : String) (again : List Bool) (acts : List (List Op))

end

/-- The empty script does nothing and leaves. -/
instance : Inhabited Script := ⟨.mk "" [] []⟩

instance : Inhabited Op := ⟨.advance 0⟩

namespace Script

def tag : Script → String
  | mk t _ _ => t

/-- Whether the next call stays registered. -/
def again : Script → Bool
  | mk _ (b :: _) _ => b
  | mk _ [] _ => false

/-- The operations of the next call. -/
def acts : Script → List Op
  | mk _ _ (ops :: _) => ops
  | mk _ _ [] => []

/-- The script after one call. -/
def next : Script → Script
  | mk t again acts => mk t again.tail acts.tail

end Script

end Overseer.Supervisor
