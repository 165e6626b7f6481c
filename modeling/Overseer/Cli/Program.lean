import Overseer.Cli.Arguments
import Overseer.Cli.Files
import Overseer.Elf.Scan
import Overseer.Log.Artifacts
import Overseer.Log.Validation
import Overseer.Supervisor.Session

/-!
# Commands of the tool

Each command reads files and variables, prints on two streams, may leave files behind, and ends with
an exit code or an error.  An error is printed on one line, and its kind gives the exit code.

    scan          the test functions of a shared object, one a line or as one JSON document
    probe         whether a file is a shared object
    run           one command in isolation: exit code 0 if it passed, else 1
    validate-log  the faults of a log, one a line
-/

namespace Overseer.Cli

open Os (Failure)
open Json (Value)

/-- What the tool is started in.  `plan` is what a child will do, `execError` why it cannot start. -/
structure Surroundings where
  environ : List (String × String)
  files : Files
  clock : Log.Clock
  kernel : Kernel
  plan : Kernel.Plan
  execError : Option Int
  pid : Nat

/-- What the tool leaves behind. -/
structure Outcome where
  code : Nat
  out : Bytes
  err : Bytes
  files : Files

/-- What a command has printed so far, and the files as they are now. -/
structure Screen where
  out : Bytes
  err : Bytes
  files : Files

namespace Screen

def blank (files : Files) : Screen := ⟨[], [], files⟩

def print (s : Screen) (t : String) : Screen := { s with out := s.out ++ Text.Utf8.encode t }

def printError (s : Screen) (t : String) : Screen := { s with err := s.err ++ Text.Utf8.encode t }

/-- A command that ends with an exit code. -/
def exit (s : Screen) (code : Nat) : Outcome := ⟨code, s.out, s.err, s.files⟩

/-- A command that is given up. -/
def fail (s : Screen) (e : Run.Error) : Outcome :=
  (s.printError ("warden-harness: " ++ e.message ++ "\n")).exit e.exitCode

end Screen

/-! ## Object files -/

/-- The listing of a scan as one document. -/
def scanDocument (path : String) (beginning : Option String) (names : List String) : Value :=
  .ofPairs
    [("path", .text path),
     ("prefix", match beginning with
      | some b => .text b
      | none => .null),
     ("symbols", .array (names.map Value.text))]

def startsWith (beginning : Option String) (name : String) : Bool :=
  match beginning with
  | some b => b.toList.isPrefixOf name.toList
  | none => true

def scan (files : Files) (path : String) (beginning : Option String) (json : Bool) : Outcome :=
  let screen := Screen.blank files
  match files.read path with
  | .error _ => screen.fail (.notSharedObject path)
  | .ok bytes =>
    let data := bytes.toArray
    if Elf.isShared data then
      let names := (Elf.scan data).filter (startsWith beginning)
      let text := if json then (scanDocument path beginning names).pretty ++ "\n"
        else String.join (names.map (· ++ "\n"))
      (screen.print text).exit 0
    else screen.fail (.notSharedObject path)

def probe (files : Files) (path : String) : Outcome :=
  let screen := Screen.blank files
  match files.read path with
  | .error e => screen.fail (.io e)
  | .ok bytes =>
    let data := bytes.toArray
    match Elf.Layout.ofIdent data with
    | .error e => (screen.printError (path ++ ": " ++ e.message ++ "\n")).fail (.notSharedObject path)
    | .ok l =>
      match Elf.Header.parse l data with
      | .error e =>
        (screen.printError (path ++ ": " ++ e.message ++ "\n")).fail (.notSharedObject path)
      | .ok h =>
        if h.isShared then
          (screen.print (path ++ ": " ++ l.cls.title ++ " " ++ l.encoding.title ++
            " shared object, " ++ toString h.table.count ++ " sections\n")).exit 0
        else
          (screen.printError (path ++ ": object type " ++ h.type.title ++ "\n")).fail
            (.notSharedObject path)

/-! ## Logs -/

/-- The text of a file. -/
def readText (files : Files) (path : String) : Except Failure String := do
  match Text.Utf8.decode (← files.read path) with
  | some t => return t
  | none => throw (.refused "stream did not contain valid UTF-8")

def validateLog (files : Files) (path : String) : Outcome :=
  let screen := Screen.blank files
  match readText files path with
  | .error e => screen.fail (.io e)
  | .ok text =>
    let (lines, faults) := Log.validateText text
    let screen := screen.printError (String.join (faults.map fun f => f.text ++ "\n"))
    if faults.isEmpty then
      (screen.printError (path ++ ": " ++ toString lines ++ " lines valid\n")).exit 0
    else screen.fail (.invalidLog lines (Log.invalidCount faults))

/-! ## Runs -/

def session : String := "cli"

/-- The notices of a journal, as the lines of an emitter. -/
def logNotices (clock : Log.Clock) (runId : String) (journal : List Supervisor.Entry) :
    Log.Emitter :=
  journal.reverse.foldl
    (fun m e =>
      match e with
      | .noted time n => m.log (clock.at time) n.severity n.text
      | _ => m)
    (.fresh runId session)

/-- Where the log goes. -/
inductive LogTarget
  | nowhere
  | screen
  | file (path : String)
  deriving DecidableEq, Repr

def LogTarget.ofOption : Option String → LogTarget
  | none => nowhere
  | some p => if Command.Path.alike p "-" then screen else file p

/-- A log file is made before the run begins. -/
def LogTarget.prepare (t : LogTarget) (files : Files) : Except Failure Files :=
  match t with
  | file p => files.write p []
  | _ => .ok files

/-- Put what was logged in its place; on the screen the summary follows what the child wrote. -/
def LogTarget.deliver (t : LogTarget) (s : Screen) (before after : Bytes) (captured : Bytes) :
    Screen :=
  match t with
  | nowhere => { s with out := s.out ++ captured }
  | screen => { s with out := s.out ++ before ++ captured ++ after }
  | file p =>
    { s with out := s.out ++ captured
             files := (s.files.write p (before ++ after)).toOption.getD s.files }

/-- Both captured streams and an index of them. -/
def artifactsOf (dir generated runId : String) (r : Run.Report) : List (String × Bytes) :=
  let outPath := Command.Path.join dir "stdout.bin"
  let errPath := Command.Path.join dir "stderr.bin"
  let index := ((Log.ArtifactIndex.fresh runId session generated).addFile outPath "captured_output"
    r.out).addFile errPath "captured_output" r.err
  [(outPath, r.out), (errPath, r.err),
   (Command.Path.join dir "artifact_index.json", Text.Utf8.encode index.text)]

/-- Leave files in a directory, which is made if it is not there. -/
def storeIn (files : Files) (dir : String) (named : List (String × Bytes)) :
    Option Failure × Files :=
  match files.makeDirs dir with
  | .error e => (some e, files)
  | .ok files => files.writeAll named

def statusText (r : Run.Report) : String :=
  match r.status with
  | some st => st.text
  | none => "not reaped"

/-- The last line of a run. -/
def verdict (r : Run.Report) : String :=
  "warden-harness: " ++ r.outcome.name ++ " (" ++ statusText r ++ ") in " ++
    toString (r.duration / 1000000) ++ "ms\n"

/-- The end of a run that has a report. -/
def report (w : Surroundings) (o : RunOptions) (runId : String) (now : Nat) (screen : Screen)
    (r : Run.Report) : Outcome :=
  let (refusal, files) := match o.artifacts with
    | none => (none, screen.files)
    | some dir => storeIn screen.files dir (artifactsOf dir (w.clock.at now) runId r)
  let screen := { screen with files := files }
  match refusal with
  | some e => screen.fail (.io e)
  | none => (screen.printError (verdict r)).exit (if r.outcome = Run.Outcome.pass then 0 else 1)

/-- The command line with the spawn flags of a variable. -/
def commandOf (environ : List (String × String)) (argv : List String) : Command :=
  match Command.look? "WARDEN_SPAWN_FLAGS" environ with
  | some flags => { Command.ofArgs argv with flags := .read flags }
  | none => .ofArgs argv

/-- The isolated run that the options ask for. -/
def specOf (w : Surroundings) (o : RunOptions) (payload : Option Bytes) : Supervisor.RunSpec :=
  { command := commandOf w.environ o.argv
    plan := w.plan
    execError := w.execError
    payload := payload
    timeout := 1000000 * o.timeoutMs
    logged := o.log.isSome }

/-- Carry out a run whose payload is known and whose log is made. -/
def execute (w : Surroundings) (fuel : Nat) (o : RunOptions) (files : Files)
    (payload : Option Bytes) : Option Outcome := do
  let runId := o.runId.getD ("run-" ++ toString w.pid)
  let target := LogTarget.ofOption o.log
  let config := Config.ofLookup fun name => Command.look? name w.environ
  let start := Session.fresh (.fresh config config.tick w.environ w.kernel)
  let done ← start.perform fuel (.isolated (specOf w o payload))
  let now := done.outer.kernel.now
  let log := logNotices w.clock runId done.outer.journal
  let screen := Screen.blank files
  match done.answer with
  | .report _ (.ok r) _ =>
    let summed := log.emitEntry (Log.summary (w.clock.at now) r)
    let after := summed.content.drop log.content.length
    let screen := target.deliver screen log.content after r.out
    return report w o runId now { screen with err := screen.err ++ r.err } r
  | .report _ (.error e) _ => return (target.deliver screen log.content [] []).fail e
  | _ => none

/-- The payload of a run, if a file is named for it. -/
def payloadOf (files : Files) : Option String → Except Failure (Option Bytes)
  | none => .ok none
  | some p => (files.read p).map some

def run (w : Surroundings) (fuel : Nat) (o : RunOptions) : Option Outcome :=
  let screen := Screen.blank w.files
  if o.argv.isEmpty then some (screen.fail .emptyCommand)
  else
    match payloadOf w.files o.stdin with
    | .error e => some (screen.fail (.io e))
    | .ok payload =>
      match (LogTarget.ofOption o.log).prepare w.files with
      | .error e => some (screen.fail (.io e))
      | .ok files => execute w fuel o files payload

/-! ## The tool -/

/-- Carry out one command; there is no outcome when a run takes more than `fuel` steps. -/
def perform (w : Surroundings) (fuel : Nat) : Invocation → Option Outcome
  | .scan path beginning json => some (scan w.files path beginning json)
  | .probe path => some (probe w.files path)
  | .validateLog path => some (validateLog w.files path)
  | .run o => run w fuel o

/-- The tool as a whole: the arguments are read, and the command is carried out. -/
def dispatch (w : Surroundings) (fuel : Nat) (args : List String) : Option Outcome :=
  match parse args with
  | .ok i => perform w fuel i
  | .error stop =>
    let screen := Screen.blank w.files
    some ((if stop = .help then screen.print stop.message else screen.printError stop.message).exit
      stop.exitCode)

end Overseer.Cli
