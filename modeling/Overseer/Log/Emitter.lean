import Overseer.Log.Entry
import Overseer.Text.Quoted
import Overseer.Text.Utf8

/-!
# Emitters

An emitter numbers the entries of one session and writes each on a line of its own.  An entry that
brings a trace id keeps it and takes no number.

    nth trace id    = run::session::n, with at least three digits
    written content = the lines of the entries, each followed by a line feed
-/

namespace Overseer.Log

open Json (Value)

/-- The lines written stand last first. -/
structure Emitter where
  seq : Nat
  runId : String
  session : String
  written : List String
  deriving DecidableEq, Repr

namespace Emitter

def fresh (runId session : String) : Emitter := ⟨0, runId, session, []⟩

def traceId (runId session : String) (n : Nat) : String :=
  runId ++ "::" ++ session ++ "::" ++ Text.padded 3 n

/-- Write one line. -/
def writeLine (m : Emitter) (line : String) : Emitter := { m with written := line :: m.written }

/-- Everything written, each line followed by a line feed. -/
def content (m : Emitter) : Bytes := m.written.reverse.flatMap fun l => Text.Utf8.encode l ++ [10]

/-- Emit an entry; an empty trace id is filled in. -/
def emitEntry (m : Emitter) (e : Entry) : Emitter :=
  if e.traceId = "" then
    let m := { m with seq := m.seq + 1 }
    m.writeLine { e with traceId := traceId m.runId m.session m.seq }.line
  else m.writeLine e.line

/-- Emit an entry with the next trace id, and give that id. -/
def emit (m : Emitter) (timestamp : String) (level : Severity) (event : String) : String × Emitter :=
  let m := { m with seq := m.seq + 1 }
  let id := traceId m.runId m.session m.seq
  (id, m.writeLine (Entry.make timestamp id level event).line)

/-- Write a message of the supervisor as an entry. -/
def log (m : Emitter) (timestamp : String) (level : Severity) (message : String) : Emitter :=
  m.emitEntry { Entry.make timestamp "" level "runtime_log" with
    details := some (.ofPairs [("message", .text message)]) }

def describe (m : Emitter) : String :=
  "LogEmitter \x7b seq: " ++ toString m.seq ++ ", run_id: " ++ Text.quoted m.runId ++
    ", session: " ++ Text.quoted m.session ++ ", .. \x7d"

end Emitter

/-- The lines of a text; each ends at a line feed, which may follow a carriage return. -/
def linesFrom : (line : List Char) → List Char → List (List Char)
  | [], [] => []
  | line, [] => [line.reverse]
  | line, c :: r =>
    if c = '\n' then
      (match line with
        | '\r' :: l => l.reverse
        | l => l.reverse) :: linesFrom [] r
    else linesFrom (c :: line) r

def linesOf (s : List Char) : List (List Char) := linesFrom [] s

/-- The lines that an emitter has written. -/
def Emitter.lines (m : Emitter) : List (List Char) :=
  linesOf (Text.Utf8.decodeLossy m.content).toList

end Overseer.Log
