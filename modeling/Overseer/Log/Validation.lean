import Overseer.Json.Reader
import Overseer.Log.Emitter

/-!
# Validation of log lines

A line is checked field by field, and every fault found is reported; only a line without a fault is
decoded into an entry.  A file is checked line by line, blank lines apart.

    validate line n = ok e        e is the entry that the line holds
    validate line n = error fs    fs is not empty, and each of fs has the number n
-/

namespace Overseer.Log

open Json (Value)

/-- What is wrong with a line. -/
inductive Defect
  | notJson
  | notObject
  | missing (field : String)
  | badLevel (text : String)
  | badOutcome (text : String)
  | badStream (text : String)
  | badSignal (n : Int)
  | codeAndSignal
  | badTraceId (text : String)
  | notEntry
  deriving DecidableEq, Repr

def Defect.field : Defect → String
  | notJson => "<json>"
  | notObject => "<root>"
  | missing f => f
  | badLevel _ => "level"
  | badOutcome _ => "outcome"
  | badStream _ => "stream"
  | badSignal _ => "signal"
  | codeAndSignal => "exit_code"
  | badTraceId _ => "trace_id"
  | notEntry => "<deserialization>"

def Defect.message : Defect → String
  | notJson => "invalid JSON"
  | notObject => "expected JSON object"
  | missing _ => "required field missing"
  | badLevel t => "invalid level: '" ++ t ++ "'"
  | badOutcome t => "invalid outcome: '" ++ t ++ "'"
  | badStream t => "invalid stream: '" ++ t ++ "'"
  | badSignal n => "signal out of range: " ++ toString n
  | codeAndSignal => "exit_code and signal are mutually exclusive"
  | badTraceId t =>
    "trace_id should follow <run_id>::<session>::<seq> format, got: '" ++ t ++ "'"
  | notEntry => "failed to deserialize"

structure Fault where
  line : Nat
  defect : Defect
  deriving DecidableEq, Repr

def Fault.text (f : Fault) : String :=
  "line " ++ toString f.line ++ ": field '" ++ f.defect.field ++ "': " ++ f.defect.message

/-! ## Checks -/

/-- The parts of a text between its separators, which are pairs of colons. -/
def colonParts : List Char → Nat
  | ':' :: ':' :: r => colonParts r + 1
  | _ :: r => colonParts r
  | [] => 1

def requiredFields : List String := ["timestamp", "trace_id", "level", "event"]

def missingFields (m : List (String × Value)) : List Defect :=
  (requiredFields.filter fun f => (Value.find? f m).isNone).map .missing

/-- A fault of a field that holds a text, if the text is not among the names. -/
def checkName (m : List (String × Value)) (field : String) (names : List String)
    (fault : String → Defect) : List Defect :=
  match (Value.find? field m).bind Value.asText? with
  | some t => if names.contains t then [] else [fault t]
  | none => []

def checkSignal (m : List (String × Value)) : List Defect :=
  match (Value.find? "signal" m).bind Value.asInt64? with
  | some n => if Signal.isValid n then [] else [.badSignal n]
  | none => []

def checkExclusive (m : List (String × Value)) : List Defect :=
  if (Value.find? "exit_code" m).isSome && (Value.find? "signal" m).isSome then [.codeAndSignal]
  else []

def checkTraceId (m : List (String × Value)) : List Defect :=
  match (Value.find? "trace_id" m).bind Value.asText? with
  | some t => if colonParts t.toList = 3 then [] else [.badTraceId t]
  | none => []

def levelNames : List String := ["trace", "debug", "info", "warn", "error"]

/-- All faults of the fields of an object. -/
def defects (m : List (String × Value)) : List Defect :=
  missingFields m ++ checkName m "level" levelNames .badLevel ++
    checkName m "outcome" (Run.Outcome.all.map Run.Outcome.name) .badOutcome ++
    checkName m "stream" (StreamKind.all.map StreamKind.name) .badStream ++
    checkSignal m ++ checkExclusive m ++ checkTraceId m

/-! ## Decoding -/

/-- A required text. -/
def textOf (m : List (String × Value)) (field : String) : Option String :=
  (Value.find? field m).bind Value.asText?

/-- A name, or an object that holds nothing but the name with `null`. -/
def nameOf : Value → Option String
  | .text s => some s
  | .object [(s, .null)] => some s
  | _ => none

/-- An optional field: absent or `null` is nothing, and what cannot be decoded is refused. -/
def optional {α : Type} (m : List (String × Value)) (field : String) (decode : Value → Option α) :
    Option (Option α) :=
  match Value.find? field m with
  | none => some none
  | some .null => some none
  | some v => (decode v).map some

def int32? : Value → Option Int
  | .int i => if Word.fitsInt32 i then some i else none
  | _ => none

def nat64? : Value → Option Nat
  | .int i => if 0 ≤ i then some i.toNat else none
  | _ => none

/-- The entry that the fields of an object make up; fields of other names do not count. -/
def decode (m : List (String × Value)) : Option Entry := do
  let timestamp ← textOf m "timestamp"
  let traceId ← textOf m "trace_id"
  let level ← ((Value.find? "level" m).bind nameOf).bind Severity.ofName?
  let event ← textOf m "event"
  let stream ← optional m "stream" fun v => (nameOf v).bind StreamKind.ofName?
  let pid ← optional m "pid" int32?
  let exitCode ← optional m "exit_code" int32?
  let signal ← optional m "signal" int32?
  let bytes ← optional m "bytes" nat64?
  let durationMs ← optional m "duration_ms" nat64?
  let outcome ← optional m "outcome" fun v => (nameOf v).bind Run.Outcome.ofName?
  let symbol ← optional m "symbol" Value.asText?
  let details ← optional m "details" some
  return ⟨timestamp, traceId, level, event, stream, pid, exitCode, signal, bytes, durationMs,
    outcome, symbol, details⟩

/-- The entry of a line, or all faults of the line. -/
def validate (line : String) (number : Nat) : Except (List Fault) Entry :=
  match Json.read line with
  | none => .error [⟨number, .notJson⟩]
  | some (.object m) =>
    match defects m with
    | [] =>
      match decode m with
      | some e => .ok e
      | none => .error [⟨number, .notEntry⟩]
    | ds => .error (ds.map fun d => ⟨number, d⟩)
  | some _ => .error [⟨number, .notObject⟩]

/-! ## Files -/

/-- Check numbered lines; the lines that are not blank are counted. -/
def validateLines : (number : Nat) → List (List Char) → Nat × List Fault
  | _, [] => (0, [])
  | number, l :: r =>
    let (count, faults) := validateLines (number + 1) r
    let t := Text.trimChars l
    if t.isEmpty then (count, faults)
    else match validate (String.ofList t) number with
      | .ok _ => (count + 1, faults)
      | .error fs => (count + 1, fs ++ faults)

/-- Check the text of a whole file. -/
def validateText (s : String) : Nat × List Fault := validateLines 1 (linesOf s.toList)

/-- Numbers without the repeats that follow one another. -/
def dedup : List Nat → List Nat
  | [] => []
  | a :: r =>
    match dedup r with
    | [] => [a]
    | b :: s => if a = b then b :: s else a :: b :: s

/-- The number of lines with a fault. -/
def invalidCount (faults : List Fault) : Nat := (dedup (faults.map (·.line))).length

end Overseer.Log
