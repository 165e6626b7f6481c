import Overseer.Command.Environment
import Overseer.Supervisor.Script
import Overseer.Text.Number
import Overseer.Word

/-!
# Arguments of the tool

The first argument names a command.  An option is two dashes and a name; its value stands behind an
equals sign or is the next argument, which then must not look like an option.  Each option is given
at most once.  Behind two lone dashes every argument is an operand.

    scan PATH [--prefix TEXT] [--json]       probe PATH       validate-log PATH
    run [--timeout-ms N] [--stdin PATH] [--log PATH] [--artifacts PATH] [--run-id TEXT] -- ARGUMENT...

    parse args = error .help    asks for the usage; every other error is a misuse
-/

namespace Overseer.Cli

/-- What an option is followed by. -/
inductive Takes
  | nothing
  | text
  | path
  | number
  deriving DecidableEq, Repr

/-- Why the arguments were not read to their end. -/
inductive Stop
  | help
  | noCommand
  | unknownCommand (name : String)
  | unknownOption (argument : String)
  | repeated (option : String)
  | noValue (option : String)
  | unwantedValue (option : String)
  | badValue (option value : String)
  | unexpected (argument : String)
  | noOperand
  deriving DecidableEq, Repr

structure RunOptions where
  timeoutMs : Nat
  stdin : Option String
  log : Option String
  artifacts : Option String
  runId : Option String
  argv : List String
  deriving DecidableEq, Repr

inductive Invocation
  | scan (path : String) (beginning : Option String) (json : Bool)
  | probe (path : String)
  | run (options : RunOptions)
  | validateLog (path : String)
  deriving DecidableEq, Repr

/-- The options of a command; its operands are one path, or a command line behind two dashes. -/
structure Grammar where
  options : List (String × Takes)
  commandLine : Bool
  deriving DecidableEq, Repr

/-- Options with their values, and operands. -/
structure Given where
  options : List (String × String)
  operands : List String
  deriving DecidableEq, Repr

namespace Given

def empty : Given := ⟨[], []⟩

def has (m : Given) (name : String) : Bool := m.options.any fun r => r.1 == name

def value? (m : Given) (name : String) : Option String := Command.look? name m.options

def add (m : Given) (name value : String) : Given :=
  { m with options := m.options ++ [(name, value)] }

end Given

/-! ## Reading -/

/-- The name of a long option and the value behind its equals sign. -/
def longOption? (a : String) : Option (String × Option String) :=
  match a.toList with
  | '-' :: '-' :: r =>
    let name := r.takeWhile (· != '=')
    match r.drop name.length with
    | [] => some (String.ofList name, none)
    | _ :: v => some (String.ofList name, some (String.ofList v))
  | _ => none

/-- One dash and a letter at least, or two dashes. -/
def looksLikeOption (a : String) : Bool :=
  match a.toList with
  | '-' :: _ :: _ => true
  | _ => false

/-- A number of 64 bits. -/
def number? (s : String) : Option Nat := (Text.readNat? s).filter Word.fits64

def accepts (t : Takes) (value : String) : Bool :=
  match t with
  | .nothing => false
  | .text => true
  | .path => value != ""
  | .number => (number? value).isSome

/-- Add an option with its value. -/
def Given.addValue (m : Given) (name : String) (t : Takes) (value : String) : Except Stop Given :=
  if accepts t value then .ok (m.add name value) else .error (.badValue name value)

def Given.addOperand (m : Given) (g : Grammar) (a : String) : Except Stop Given :=
  if g.commandLine || !m.operands.isEmpty || a = "" then .error (.unexpected a)
  else .ok { m with operands := [a] }

/-- Read the arguments of a command one by one. -/
def collect (g : Grammar) : Given → List String → Except Stop Given
  | m, [] => .ok m
  | m, a :: r =>
    if a = "--" then .ok { m with operands := m.operands ++ r }
    else match longOption? a with
      | some ("help", none) => .error .help
      | some (name, attached) =>
        match Command.look? name g.options with
        | none => .error (.unknownOption a)
        | some takes =>
          if m.has name then .error (.repeated name)
          else match takes, attached, r with
            | .nothing, none, r => collect g (m.add name "") r
            | .nothing, some _, _ => .error (.unwantedValue name)
            | t, some v, r => do collect g (← m.addValue name t v) r
            | _, none, [] => .error (.noValue name)
            | t, none, v :: r =>
              if looksLikeOption v then .error (.noValue name)
              else do collect g (← m.addValue name t v) r
      | none =>
        if looksLikeOption a then
          .error (if a.toList.take 2 = ['-', 'h'] then .help else .unknownOption a)
        else do collect g (← m.addOperand g a) r

/-! ## Commands -/

def scanGrammar : Grammar := ⟨[("prefix", .text), ("json", .nothing)], false⟩

def pathGrammar : Grammar := ⟨[], false⟩

def runGrammar : Grammar :=
  ⟨[("timeout-ms", .number), ("stdin", .path), ("log", .path), ("artifacts", .path),
    ("run-id", .text)], true⟩

/-- The one path that a command is about. -/
def Given.path (m : Given) : Except Stop String :=
  match m.operands with
  | [] => .error .noOperand
  | [p] => if p = "" then .error .noOperand else .ok p
  | _ :: q :: _ => .error (.unexpected q)

def commandNames : List String := ["scan", "probe", "run", "validate-log", "help"]

def parseRun (args : List String) : Except Stop Invocation := do
  let m ← collect runGrammar .empty args
  if m.operands.isEmpty then throw .noOperand
  return .run
    { timeoutMs := ((m.value? "timeout-ms").bind number?).getD
        (Supervisor.RunSpec.standardTimeout / 1000000)
      stdin := m.value? "stdin"
      log := m.value? "log"
      artifacts := m.value? "artifacts"
      runId := m.value? "run-id"
      argv := m.operands }

/-- Usage is shown for a known command only. -/
def parseHelp : List String → Stop
  | [] => .help
  | [name] => if commandNames.contains name then .help else .unknownCommand name
  | name :: sub :: _ => .unknownCommand (if commandNames.contains name then sub else name)

/-- What the arguments ask for. -/
def parse : List String → Except Stop Invocation
  | [] => .error .noCommand
  | "scan" :: r => do
    let m ← collect scanGrammar .empty r
    return .scan (← m.path) (m.value? "prefix") (m.has "json")
  | "probe" :: r => do return .probe (← (← collect pathGrammar .empty r).path)
  | "validate-log" :: r => do return .validateLog (← (← collect pathGrammar .empty r).path)
  | "run" :: r => parseRun r
  | "help" :: r => .error (parseHelp r)
  | a :: _ =>
    if a = "--help" ∨ a.toList.take 2 = ['-', 'h'] then .error .help
    else if looksLikeOption a then .error (.unknownOption a)
    else .error (.unknownCommand a)

/-! ## Wording -/

def usage : String :=
  "Usage: warden-harness <COMMAND>\n\n" ++
  "Commands:\n" ++
  "  scan [--prefix <PREFIX>] [--json] <PATH>\n" ++
  "  probe <PATH>\n" ++
  "  run [--timeout-ms <MS>] [--stdin <PATH>] [--log <PATH>] [--artifacts <PATH>]" ++
  " [--run-id <ID>] -- <ARGV>...\n" ++
  "  validate-log <PATH>\n"

def Stop.message : Stop → String
  | help => usage
  | noCommand => usage
  | unknownCommand n => "error: unrecognized subcommand '" ++ n ++ "'\n"
  | unknownOption a => "error: unexpected argument '" ++ a ++ "' found\n"
  | repeated o => "error: the argument '--" ++ o ++ "' cannot be used multiple times\n"
  | noValue o => "error: a value is required for '--" ++ o ++ "' but none was supplied\n"
  | unwantedValue o => "error: unexpected value for '--" ++ o ++ "' found\n"
  | badValue o v => "error: invalid value '" ++ v ++ "' for '--" ++ o ++ "'\n"
  | unexpected a => "error: unexpected argument '" ++ a ++ "' found\n"
  | noOperand => "error: a required argument was not provided\n"

/-- Help ends well; a misuse does not. -/
def Stop.exitCode : Stop → Nat
  | help => 0
  | _ => 2

/-! ## Lemmas -/

/-- A command line is read only behind two dashes, and is never empty. -/
theorem argv_ne_nil {args : List String} {o : RunOptions}
    (h : parseRun args = .ok (.run o)) : o.argv ≠ [] := by
  unfold parseRun at h
  cases hc : collect runGrammar .empty args with
  | error e => simp [hc, bind, Except.bind] at h
  | ok m =>
    simp only [hc, bind, Except.bind] at h
    by_cases hm : m.operands = []
    · simp [hm, throw, throwThe, MonadExceptOf.throw] at h
    · simp [hm, pure, Except.pure] at h
      rw [← h]
      exact hm

end Overseer.Cli
