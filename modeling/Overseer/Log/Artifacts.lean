import Overseer.Digest.Sha256
import Overseer.Json.Reader
import Overseer.Json.Writer

/-!
# Indexes of artifacts

An index names the files that a run has left behind, each with its kind and its digest, and those
that were hashed here with their size.
-/

namespace Overseer.Log

open Json (Value)

structure Artifact where
  path : String
  kind : String
  sha256 : String
  size : Option Nat
  deriving DecidableEq, Repr

structure ArtifactIndex where
  runId : String
  session : String
  generated : String
  artifacts : List Artifact
  deriving DecidableEq, Repr

def Artifact.fields (a : Artifact) : List (String × Value) :=
  [("path", .text a.path), ("kind", .text a.kind), ("sha256", .text a.sha256)] ++
    (a.size.map fun n => ("size_bytes", Value.ofNat n)).toList

namespace ArtifactIndex

def fresh (runId session generated : String) : ArtifactIndex := ⟨runId, session, generated, []⟩

/-- Add an artifact of a known digest. -/
def add (x : ArtifactIndex) (path kind sha256 : String) : ArtifactIndex :=
  { x with artifacts := x.artifacts ++ [⟨path, kind, sha256, none⟩] }

/-- Add a file by its contents. -/
def addFile (x : ArtifactIndex) (path kind : String) (data : Bytes) : ArtifactIndex :=
  { x with artifacts := x.artifacts ++ [⟨path, kind, Digest.Sha256.hex data, some data.length⟩] }

def value (x : ArtifactIndex) : Value :=
  .object
    [("index_version", .ofNat 1), ("run_id", .text x.runId), ("session", .text x.session),
     ("generated_utc", .text x.generated),
     ("artifacts", .array (x.artifacts.map fun a => .object a.fields))]

def text (x : ArtifactIndex) : String := x.value.pretty

/-! ## Reading -/

/-- A required text of an object. -/
def textField (m : List (String × Value)) (k : String) : Option String :=
  (Value.find? k m).bind Value.asText?

def artifactOf (v : Value) : Option Artifact := do
  let m ← v.asMembers?
  let size := match Value.find? "size_bytes" m with
    | some (.int n) => some n.toNat
    | _ => none
  return ⟨← textField m "path", ← textField m "kind", ← textField m "sha256", size⟩

/-- The index that a text holds. -/
def read (s : String) : Option ArtifactIndex := do
  let m ← (← Json.read s).asMembers?
  match Value.find? "artifacts" m with
  | some (.array items) =>
    return ⟨← textField m "run_id", ← textField m "session", ← textField m "generated_utc",
      ← items.mapM artifactOf⟩
  | _ => none

end ArtifactIndex

end Overseer.Log
