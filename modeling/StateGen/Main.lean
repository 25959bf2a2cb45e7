import StateGen.CommandLine

/-!
# The command line on real files
-/

namespace StateGen.CommandLine

/-- The failure that the number of a system error stands for. -/
def fileErrorOfCode (code : Nat) (text : String) : FileError :=
  match code with
  | 2 => .notFound
  | 16 => .busy
  | 20 => .notDirectory
  | 21 => .isDirectory
  | 36 => .nameTooLong
  | _ => .other (text ++ " (os error " ++ toString code ++ ")")

/-- The number of a system error, which some calls report with its sign changed. -/
def systemCode (code : UInt32) : Nat := min code.toNat (0 - code).toNat

/-- The cause of a failure of the system. -/
def fileErrorOf : IO.Error → FileError
  | .noFileOrDirectory _ code text | .inappropriateType _ code text
  | .permissionDenied _ code text | .invalidArgument _ code text
  | .alreadyExists _ code text | .resourceExhausted _ code text | .noSuchThing _ code text
  | .resourceBusy code text | .illegalOperation code text | .unsatisfiedConstraints code text
  | .unsupportedOperation code text | .hardwareFault code text | .otherError code text =>
    fileErrorOfCode (systemCode code) text
  | e => .other (toString e)

/-- Run an action on files and catch its failure. -/
def attempt {α : Type} (action : IO α) : IO (Except FileError α) := do
  try
    return .ok (← action)
  catch e =>
    return .error (fileErrorOf e)

instance : MonadFiles IO where
  read path := attempt do return (← IO.FS.readBinFile path).toList
  create path bytes := attempt (IO.FS.writeBinFile path bytes.toByteArray)
  remove path := attempt (IO.FS.removeFile path)
  rename source destination := attempt (IO.FS.rename source destination)

/-- Everything on a stream. -/
partial def readToEnd (stream : IO.FS.Stream) (read : ByteArray) : IO ByteArray := do
  let chunk ← stream.read 4096
  if chunk.isEmpty then return read else readToEnd stream (read ++ chunk)

end StateGen.CommandLine

/-- Run the program. -/
def main (arguments : List String) : IO UInt32 := do
  let stdin ←
    match StateGen.CommandLine.Order.ofArguments arguments with
    | .run a =>
      if a.input = "-" then StateGen.CommandLine.readToEnd (← IO.getStdin) .empty else pure .empty
    | _ => pure .empty
  let outcome ← StateGen.CommandLine.run arguments stdin.toList
  for r in outcome.records do
    IO.eprintln ("[" ++ r.level.name ++ " " ++ r.component.target ++ "] " ++ r.message)
  (← IO.getStdout).write outcome.stdout.toByteArray
  IO.eprint outcome.stderr
  return outcome.exitCode.toUInt32
