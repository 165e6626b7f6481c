import Overseer.Cli.Program

/-!
# The tool

The files that the arguments name are read into a tree, the command is carried out on that tree, and
the files that have changed are written back.  Here a run is made on the kernel in virtual time,
which cannot execute programs of the machine: its command fails to start.
-/

namespace Overseer.Cli

/-- The paths that an invocation reads from or writes to. -/
def Invocation.paths : Invocation → List String
  | .scan p _ _ => [p]
  | .probe p => [p]
  | .validateLog p => [p]
  | .run o =>
    o.stdin.toList ++ o.log.toList ++ o.artifacts.toList.flatMap fun d =>
      d :: ["stdout.bin", "stderr.bin", "artifact_index.json"].map (Command.Path.join d)

/-- The variables that the tool looks at. -/
def variableNames : List String :=
  [Config.graceVariable, Config.chunkVariable, Config.tickVariable, "WARDEN_SPAWN_FLAGS"]

/-- Every path on the way to a place. -/
def stages (p : Place) : List Place := (List.range p.length).map fun i => p.take (i + 1)

/-- The path of a place. -/
def pathOf : Place → String
  | "/" :: r => "/" ++ "/".intercalate r
  | p => "/".intercalate p

/-- The place of a path, whatever is there. -/
def placeOf (path : String) : Place :=
  ((Command.Path.piecesOf path.toList).map String.ofList).foldl Files.enter
    (if Command.Path.isAbsolute path then ["/"] else [])

/-- What lies at a path; a directory is told by the number of the refusal to read it. -/
def nodeAt (path : String) : IO (Option Node) := do
  try
    return some (.file (← IO.FS.readBinFile path).toList)
  catch
    | .inappropriateType _ 21 _ => return some .directory
    | _ => return none

/-- Put what lies at a place into a tree. -/
def loadPlace (fs : Files) (p : Place) : IO Files := do
  if (fs.node? p).isSome then return fs
  match ← nodeAt (pathOf p) with
  | some n => return fs.put p n
  | none => return fs

def load (paths : List String) : IO Files :=
  (paths.flatMap fun p => stages (placeOf p)).foldlM loadPlace Files.empty

/-- Write what is new in a tree, the directories before what lies in them. -/
def store (before after : Files) : IO Unit := do
  for (p, n) in after.nodes.reverse do
    if before.node? p != some n then
      match n with
      | .directory => IO.FS.createDirAll (pathOf p)
      | .file data => IO.FS.writeBinFile (pathOf p) (ByteArray.mk data.toArray)
      | .null => pure ()

/-- The number of the refusal to execute anything. -/
def notImplemented : Int := 38

/-- Steps that a run may take. -/
def maxSteps : Nat := 1000000000

def runTool (args : List String) : IO UInt32 := do
  let environ ← variableNames.filterMapM fun n => do
    return (← IO.getEnv n).map fun value => (n, value)
  let files ← match parse args with
    | .ok i => load i.paths
    | .error _ => pure Files.empty
  let w : Surroundings :=
    { environ := environ
      files := files
      clock := ⟨0⟩
      kernel := .fresh true
      plan := ⟨.standard, []⟩
      execError := some notImplemented
      pid := 1 }
  match dispatch w maxSteps args with
  | none => return 1
  | some o =>
    (← IO.getStdout).write (ByteArray.mk o.out.toArray)
    (← IO.getStderr).write (ByteArray.mk o.err.toArray)
    store files o.files
    return o.code.toUInt32

end Overseer.Cli

def main (args : List String) : IO UInt32 := Overseer.Cli.runTool args
