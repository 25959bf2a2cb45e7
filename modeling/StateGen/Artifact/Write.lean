import StateGen.Artifact
import StateGen.FileSystem
import StateGen.Log

/-!
# Writing artifacts

Every file is first written next to its destination. Once all of them are there, they are moved
into place one after the other. What was not moved is removed again when something fails.
-/

namespace StateGen.Artifact

/-- Where the bytes wait until they are moved into place. -/
def stagingPath (a : Artifact) : String := a.path ++ ".cfsm-tmp"

/-- The record of an attempt to write the bytes to their waiting place. -/
def stagingRecord (a : Artifact) : Log.Record :=
  .mk .debug .artifact ("staging " ++ a.kind.description ++ " in " ++ a.stagingPath)

/-- An artifact that could not be written, and why. -/
structure WriteFailure where
  path : String
  cause : FileError
  /-- How many artifacts were, or were to be, written to their waiting places before. -/
  attempted : Nat
deriving DecidableEq, Repr

section

variable {m : Type → Type} [Monad m] [MonadFiles m]

/-- Remove files, whether they are there or not. -/
def removeAll : List String → m Unit
  | [] => return ()
  | path :: paths => do
    let _ ← MonadFiles.remove path
    removeAll paths

/-- Write every artifact to its waiting place; `done` are the places that are filled already. -/
def stageAll (done : List String) : List Artifact → m (Except WriteFailure Unit)
  | [] => return .ok ()
  | a :: rest => do
    match ← MonadFiles.create a.stagingPath a.bytes with
    | .ok _ => stageAll (done ++ [a.stagingPath]) rest
    | .error cause =>
      let _ ← MonadFiles.remove a.stagingPath
      removeAll done
      return .error ⟨a.path, cause, done.length + 1⟩

/-- Move every artifact into place, out of as many as wait. -/
def moveAll (waiting : Nat) : List Artifact → m (Except WriteFailure Unit)
  | [] => return .ok ()
  | a :: rest => do
    match ← MonadFiles.rename a.stagingPath a.path with
    | .ok _ => moveAll waiting rest
    | .error cause =>
      removeAll ((a :: rest).map stagingPath)
      return .error ⟨a.path, cause, waiting⟩

/-- Write the artifacts that are files. -/
def writeFiles (files : List Artifact) : m (Except WriteFailure Unit) := do
  match ← stageAll [] files with
  | .ok _ => moveAll files.length files
  | .error e => return .error e

/-- Write all artifacts that do not go to standard output. -/
def writeAll (artifacts : List Artifact) : m (Except WriteFailure Unit) :=
  writeFiles (artifacts.filter (!·.isStdout))

end

/-- What the artifacts write to standard output. -/
def stdoutBytes (artifacts : List Artifact) : List UInt8 :=
  (artifacts.filter isStdout).flatMap Artifact.bytes

/-- The records of writing: one for every artifact up to the one that could not be written to its
waiting place. -/
def writeRecords (artifacts : List Artifact) (result : Except WriteFailure Unit) :
    List Log.Record :=
  let files := artifacts.filter (!·.isStdout)
  match result with
  | .ok _ => files.map stagingRecord
  | .error e => (files.take e.attempted).map stagingRecord

end StateGen.Artifact
