import StateGen.Artifact.Write
import StateGen.CommandLine.Arguments
import StateGen.Generation.Report

/-!
# The program

Reads a description, generates what the arguments ask for and writes it. Everything that the
program prints is collected in the outcome; only files are touched on the way.
-/

namespace StateGen.CommandLine

/-- The name and the version of the program. -/
def versionLine : String := "cfsm 0.1.1\n"

/-- How the program is called. -/
def usage : String :=
  "Usage: cfsm [-d] [-D] [-g] [-v]... [-m TEMPLATE] [-o PATH] [-t DIR] [--dump-namespace] [--json]"
    ++ " INPUT\n"

/-- What the program leaves behind, apart from files. -/
structure Outcome where
  exitCode : Nat
  stdout : List UInt8
  stderr : String
  records : List Log.Record

/-! ## Failures -/

/-- A failure of the program: what it could not do, and why. -/
structure Failure where
  message : String
  causes : List String := []

/-- Indent every line but the first. -/
def indentLines (indent : String) (text : String) : String :=
  String.join (text.toList.map fun c ↦ if c = '\n' then "\n" ++ indent else String.singleton c)

/-- Causes on lines of their own, numbered if there are several. -/
def showCauses : List String → String
  | [] => ""
  | [cause] => "\n    " ++ indentLines "    " cause
  | causes =>
    String.join (causes.zipIdx.map fun (cause, i) ↦
      "\n    " ++ toString i ++ ": " ++ indentLines "       " cause)

/-- The report of a failure. -/
def Failure.display (f : Failure) : String :=
  "Error: " ++ f.message
    ++ (if f.causes.isEmpty then "" else "\n\nCaused by:" ++ showCauses f.causes) ++ "\n"

/-- The outcome of a failure. -/
def Failure.outcome (f : Failure) (records : List Log.Record) : Outcome :=
  { exitCode := 1, stdout := [], stderr := f.display, records }

/-- A description that cannot be used. -/
def inputErrors (file : String) (causes : List String) : Failure :=
  { message := "input file \"" ++ file ++ "\" had errors", causes }

/-- The chain of causes that a failed run amounts to. -/
def causesOf (e : Generation.Error) : List String := e.message :: e.cause?.toList

/-! ## Steps -/

/-- The description and the name that diagnostics use for it. -/
def sourceOf (input : String) (contents : Except FileError (List UInt8)) :
    Except Failure SourceFile :=
  match contents >>= textOfBytes with
  | .ok text => .ok ⟨if input = "-" then "(stdin)" else input, text⟩
  | .error e =>
    .error
      { message :=
          if input = "-" then "cannot read description from standard input"
          else "could not open \"" ++ input ++ "\" for reading"
        causes := [e.message] }

/-- A value as indented text on lines of its own. -/
def prettyLines (j : Json) : List UInt8 := Utf8.encode (j.pretty 0 ++ "\n")

/-- Print the namespace of a description. -/
def dump (file : SourceFile) (o : Generation.Options) : Outcome :=
  let analysis := Generation.analysisFor file o
  match analysis.toExcept with
  | .ok ns =>
    { exitCode := 0, stdout := prettyLines ns.root.toJson, stderr := ""
      records := analysis.records }
  | .error ds => (inputErrors file.name [ds.display]).outcome analysis.records

/-- The records that announce where artifacts go. -/
def writingRecords (artifacts : List Artifact) : List Log.Record :=
  artifacts.flatMap fun a ↦
    let destination := if a.isStdout then "(stdout)" else a.path
    [.mk .info .commandLine ("Writing " ++ a.kind.description ++ " to \"" ++ destination ++ "\""),
      .mk .debug .commandLine (destination ++ ": sha256 " ++ a.sha256)]

section

variable {m : Type → Type} [Monad m] [MonadFiles m]

/-- Read files and remember what came of it. -/
def readFiles : List String → m (List (String × Except FileError (List UInt8)))
  | [] => return []
  | path :: paths => do
    let contents ← MonadFiles.read path
    return (path, contents) :: (← readFiles paths)

/-- A reader that knows the files that were read before. -/
def readerOf (files : List (String × Except FileError (List UInt8))) : Generation.Reader :=
  fun path ↦ (files.lookup path).getD (.error .notFound)

/-- Write what was generated. -/
def writeGenerated (g : Generation.Generated) (json : Bool) (records : List Log.Record) :
    m Outcome := do
  let result ← Artifact.writeAll g.artifacts
  let records := records ++ writingRecords g.artifacts ++ Artifact.writeRecords g.artifacts result
  match result with
  | .error e =>
    let cause := Generation.Error.write e.path e.cause
    return Failure.outcome ⟨"no output was written", causesOf cause⟩ records
  | .ok _ =>
    let report := if json then prettyLines (Generation.Report.ofGenerated g).toJson else []
    return { exitCode := 0, stdout := Artifact.stdoutBytes g.artifacts ++ report, stderr := ""
             records }

/-- Generate and write. -/
def generateAndWrite (file : SourceFile) (o : Generation.Options) (json : Bool) : m Outcome := do
  let files ← readFiles o.templatePaths
  match (Generation.generate (readerOf files) file o).run with
  | (.ok g, records) => writeGenerated g json records
  | (.error e, records) =>
    if json then
      return { exitCode := 1
               stdout := prettyLines (Generation.Report.ofError file.name e).toJson
               stderr := "", records }
    else return (inputErrors file.name (causesOf e)).outcome records

/-- Do what complete arguments ask for. -/
def runArguments (a : Arguments) (stdin : List UInt8) : m Outcome := do
  let contents ← if a.input = "-" then pure (.ok stdin) else MonadFiles.read a.input
  match sourceOf a.input contents with
  | .error f => return f.outcome []
  | .ok file =>
    if a.has .dumpNamespace then return dump file a.options
    else if a.has .json && a.setting? .output == some "-" then
      return Failure.outcome
        { message := "--json cannot share standard output with generated code" } []
    else generateAndWrite file a.options (a.has .json)

/-- Do what the arguments ask for; only the records that the arguments ask for are kept. -/
def run (arguments : List String) (stdin : List UInt8) : m Outcome := do
  match Order.ofArguments arguments with
  | .misuse => return { exitCode := 2, stdout := [], stderr := usage, records := [] }
  | .version =>
    return { exitCode := 0, stdout := Utf8.encode versionLine, stderr := "", records := [] }
  | .help => return { exitCode := 0, stdout := Utf8.encode usage, stderr := "", records := [] }
  | .run a =>
    let outcome ← runArguments a stdin
    return { outcome with records := Log.atLeast a.logLevel outcome.records }

end

end StateGen.CommandLine
