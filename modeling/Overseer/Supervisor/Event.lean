import Overseer.Command.Basic
import Overseer.ExitStatus
import Overseer.Kernel.Child
import Overseer.Os.Failure
import Overseer.Severity

/-!
# Errors, events and notices of supervision

An error is the cause of a refusal, an event is what a handle tells its subscribers, and a notice is
a line for the log.  The wording of each stands in one function, and the severity of a notice
follows from its kind.
-/

namespace Overseer.Supervisor

open Kernel (Stream)
open Os (Failure)

inductive SpawnError
  | commandMissing
  | alreadyRunning
  | failed (cause : Failure)
  deriving DecidableEq, Repr

inductive WriteError
  | notRunning
  | stdinClosed
  | timeout (written : Nat)
  | io (cause : Failure)
  deriving DecidableEq, Repr

inductive WaitError
  | notRunning
  | timeout
  deriving DecidableEq, Repr

inductive KillError
  | notRunning
  | invalidSignal (signal : Int)
  | permissionDenied (cause : Failure)
  deriving DecidableEq, Repr

def SpawnError.message : SpawnError → String
  | commandMissing => "command has no arguments"
  | alreadyRunning => "process is already running; close the handle before spawning again"
  | failed e => "spawn failed: " ++ e.message

def WriteError.message : WriteError → String
  | notRunning => "process is not running"
  | stdinClosed => "child stdin is not a pipe or was already closed"
  | timeout n => "timed out after writing " ++ toString n ++ " bytes to stdin"
  | io e => "io: " ++ e.message

def WaitError.message : WaitError → String
  | notRunning => "process is not running"
  | timeout => "timed out waiting for process exit"

def KillError.message : KillError → String
  | notRunning => "process is not running"
  | invalidSignal n => "invalid signal number " ++ toString n
  | permissionDenied e => "permission denied: " ++ e.message

/-- What happened to a supervised child. -/
inductive Event
  | chunk (stream : Stream) (bytes : Bytes)
  | reaped (status : ExitStatus)
  | ioError (stream : Stream) (cause : Failure)
  deriving DecidableEq, Repr

inductive Notice
  | spawnFailed (command : Command) (cause : Failure)
  | pipeBlocks (pid : Int) (cause : Failure)
  | spawned (pid : Int) (generation : Nat) (command : Command)
  | eof (stream : Stream)
  | readFailed (stream : Stream) (cause : Failure)
  | staleExit (pid : Int)
  | reaped (pid : Int) (status : ExitStatus)
  | detachedReaped (pid : Int) (status : ExitStatus)
  | writeFailed (cause : Failure)
  | writeTimedOut (written : Nat)
  | termNotSent (cause : KillError)
  | escalating (pid : Int) (grace : Nat)
  | killFailed (cause : KillError)
  | deadlineExceeded (command : Command) (timeout : Nat)
  deriving Repr

def Notice.severity : Notice → Severity
  | spawnFailed .. => .warn
  | pipeBlocks .. => .warn
  | spawned .. => .debug
  | eof .. => .trace
  | readFailed .. => .warn
  | staleExit .. => .debug
  | reaped .. => .debug
  | detachedReaped .. => .debug
  | writeFailed .. => .warn
  | writeTimedOut .. => .debug
  | termNotSent .. => .debug
  | escalating .. => .warn
  | killFailed .. => .warn
  | deadlineExceeded .. => .warn

def Notice.text : Notice → String
  | spawnFailed c e => "spawn " ++ "\x60" ++ c.display ++ "\x60" ++ " failed: " ++ e.message
  | pipeBlocks pid e =>
    "pid " ++ toString pid ++ ": cannot make pipe non-blocking: " ++ e.message
  | spawned pid g c =>
    "spawned pid " ++ toString pid ++ " (generation " ++ toString g ++ "): " ++ c.display
  | eof s => s.name ++ ": eof"
  | readFailed s e => s.name ++ ": read failed: " ++ e.message
  | staleExit pid => "pid " ++ toString pid ++ ": stale exit notification ignored"
  | reaped pid st => "pid " ++ toString pid ++ " reaped: " ++ st.text
  | detachedReaped pid st => "detached pid " ++ toString pid ++ " reaped: " ++ st.text
  | writeFailed e => "stdin write failed: " ++ e.message
  | writeTimedOut n => "stdin write timed out after " ++ toString n ++ " bytes"
  | termNotSent e => "dispose: SIGTERM not sent: " ++ e.message
  | escalating pid grace =>
    "pid " ++ toString pid ++ " still running " ++ toString (grace / 1000000) ++
      "ms after SIGTERM; sending SIGKILL"
  | killFailed e => "dispose: SIGKILL failed: " ++ e.message
  | deadlineExceeded c timeout =>
    c.display ++ " exceeded " ++ toString (timeout / 1000000) ++ "ms; disposing"

end Overseer.Supervisor
