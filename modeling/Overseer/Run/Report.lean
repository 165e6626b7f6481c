import Overseer.Supervisor.Event

/-!
# Reports of isolated runs

A report says how one run of a command went: its outcome, the end of its child if that was seen,
everything that the child wrote, the troubles on the way, and how many nanoseconds it took.

    outcome = timeout   iff the wait ran out of time
    outcome = error     iff the end is unknown, or a captured stream failed
    outcome = pass      iff the child ended with code 0 and no captured stream failed
-/

namespace Overseer.Run

open Kernel (Stream)
open Os (Failure)
open Supervisor (SpawnError WriteError WaitError)

inductive Outcome
  | pass
  | fail
  | timeout
  | error
  deriving DecidableEq, Repr

def Outcome.name : Outcome → String
  | pass => "pass"
  | fail => "fail"
  | timeout => "timeout"
  | error => "error"

def Outcome.all : List Outcome := [pass, fail, timeout, error]

def Outcome.ofName? (s : String) : Option Outcome := all.find? fun o => o.name == s

/-- A failed stream, or a payload that did not reach the child as a whole. -/
inductive Trouble
  | stream (s : Stream) (cause : Failure)
  | undelivered (written total : Nat)
  | brokenInput (cause : Failure)
  deriving DecidableEq, Repr

def Trouble.text : Trouble → String
  | stream s e => s.name ++ ": " ++ e.message
  | undelivered n total =>
    "stdin: " ++ toString n ++ " of " ++ toString total ++ " bytes delivered before the deadline"
  | brokenInput e => "stdin: " ++ e.message

def Trouble.isStream : Trouble → Bool
  | stream .. => true
  | _ => false

/-- Everything a run has captured so far. -/
structure Captured where
  out : Bytes
  err : Bytes
  troubles : List Trouble
  deriving DecidableEq, Repr

def Captured.empty : Captured := ⟨[], [], []⟩

/-- Add what one event carries. -/
def Captured.add (c : Captured) : Supervisor.Event → Captured
  | .chunk .out b => { c with out := c.out ++ b }
  | .chunk .err b => { c with err := c.err ++ b }
  | .ioError s e => { c with troubles := c.troubles ++ [.stream s e] }
  | .reaped _ => c

/-- How a run went, from the answer of its wait and its troubles. -/
def classify (waited : Except WaitError ExitStatus) (troubles : List Trouble) : Outcome :=
  match waited with
  | .error .timeout => .timeout
  | .error .notRunning => .error
  | .ok .unknown => .error
  | .ok st =>
    if troubles.any Trouble.isStream then .error
    else if st.success then .pass
    else .fail

structure Report where
  command : String
  outcome : Outcome
  pid : Option Int
  status : Option ExitStatus
  out : Bytes
  err : Bytes
  ioErrors : List String
  duration : Nat
  deriving Repr

/-- Why a run, or a command of the tool, was given up. -/
inductive Error
  | io (cause : Failure)
  | spawn (cause : SpawnError)
  | stdin (cause : WriteError)
  | notSharedObject (path : String)
  | invalidLog (lines invalid : Nat)
  | emptyCommand
  deriving Repr

def Error.message : Error → String
  | io e => "io: " ++ e.message
  | spawn e => "spawn: " ++ e.message
  | stdin e => "stdin: " ++ e.message
  | notSharedObject p => p ++ " is not an ELF shared object"
  | invalidLog lines n => toString n ++ " of " ++ toString lines ++ " log lines failed validation"
  | emptyCommand => "no command given"

/-- The exit code that tells a script which kind of error it was. -/
def Error.exitCode : Error → Nat
  | notSharedObject _ => 3
  | invalidLog .. => 3
  | spawn _ => 4
  | stdin _ => 4
  | emptyCommand => 4
  | io _ => 5

end Overseer.Run
