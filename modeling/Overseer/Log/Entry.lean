import Overseer.Json.Writer
import Overseer.Log.Timestamp
import Overseer.Run.Report

/-!
# Log entries

An entry has a timestamp, a trace id, a severity and an event, and up to nine optional fields.  It is
written as one JSON object on one line, the fields in a fixed order and the absent ones left out.
-/

namespace Overseer.Log

open Json (Value)

/-- The stream of a child that an entry is about. -/
inductive StreamKind
  | stdin
  | stdout
  | stderr
  deriving DecidableEq, Repr

def StreamKind.name : StreamKind → String
  | stdin => "stdin"
  | stdout => "stdout"
  | stderr => "stderr"

def StreamKind.all : List StreamKind := [stdin, stdout, stderr]

def StreamKind.ofName? (s : String) : Option StreamKind := all.find? fun k => k.name == s

structure Entry where
  timestamp : String
  traceId : String
  level : Severity
  event : String
  stream : Option StreamKind
  pid : Option Int
  exitCode : Option Int
  signal : Option Int
  bytes : Option Nat
  durationMs : Option Nat
  outcome : Option Run.Outcome
  symbol : Option String
  details : Option Value

namespace Entry

/-- An entry with its required fields only. -/
def make (timestamp traceId : String) (level : Severity) (event : String) : Entry :=
  ⟨timestamp, traceId, level, event, none, none, none, none, none, none, none, none, none⟩

/-- A normal exit leaves its code, a death by signal its signal, an unknown end neither. -/
def withStatus (e : Entry) (st : ExitStatus) : Entry :=
  { e with exitCode := st.code.map Int.ofNat, signal := st.signal.map Int.ofNat }

/-- The fields in the order in which they are written. -/
def fields (e : Entry) : List (String × Value) :=
  [("timestamp", .text e.timestamp), ("trace_id", .text e.traceId), ("level", .text e.level.name),
   ("event", .text e.event)] ++
  (e.stream.map fun s => ("stream", Value.text s.name)).toList ++
  (e.pid.map fun n => ("pid", Value.int n)).toList ++
  (e.exitCode.map fun n => ("exit_code", Value.int n)).toList ++
  (e.signal.map fun n => ("signal", Value.int n)).toList ++
  (e.bytes.map fun n => ("bytes", Value.ofNat n)).toList ++
  (e.durationMs.map fun n => ("duration_ms", Value.ofNat n)).toList ++
  (e.outcome.map fun o => ("outcome", Value.text o.name)).toList ++
  (e.symbol.map fun s => ("symbol", Value.text s)).toList ++
  (e.details.map fun v => ("details", v)).toList

/-- The entry on one line. -/
def line (e : Entry) : String := (Value.object e.fields).write

end Entry

/-- The summary of a run, without a trace id. -/
def summary (timestamp : String) (r : Run.Report) : Entry :=
  let level := match r.outcome with
    | .pass => Severity.info
    | .fail => Severity.warn
    | .timeout => Severity.warn
    | .error => Severity.error
  let details := Value.ofPairs
    [("command", .text r.command), ("stdout_bytes", .ofNat r.out.length),
     ("stderr_bytes", .ofNat r.err.length), ("io_errors", .array (r.ioErrors.map Value.text))]
  let e : Entry :=
    { Entry.make timestamp "" level "run_complete" with
      outcome := some r.outcome
      bytes := some (r.out.length + r.err.length)
      durationMs := some (min (r.duration / 1000000) (Word.size64 - 1))
      details := some details
      pid := r.pid }
  match r.status with
  | some st => e.withStatus st
  | none => e

end Overseer.Log
