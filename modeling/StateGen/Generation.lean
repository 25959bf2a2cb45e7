import StateGen.Analysis
import StateGen.FileSystem
import StateGen.Generation.Options
import StateGen.Template.Builtin
import StateGen.Template.Render

/-!
# Generating artifacts

A run analyses a description and renders every planned artifact against its namespace. Nothing is
written. Templates that are not built in come from a function that reads files.
-/

namespace StateGen.Generation

/-- What can stop a run. -/
inductive Error where
  /-- The description has no namespace. -/
  | description (diagnostics : Diagnostics)
  /-- A template cannot be read or rendered; the line of the directive at fault is kept. -/
  | template (name sourceLine : String) (cause : Template.Error)
  | templateRead (path : String) (cause : FileError)
  | write (path : String) (cause : FileError)
  | options (cause : OptionsError)
deriving DecidableEq

namespace Error

/-- The text of a failure. -/
def message : Error → String
  | .description ds => ds.display
  | .template name _ cause => "template '" ++ name ++ "': " ++ cause.message
  | .templateRead path cause => "cannot read template '" ++ path ++ "': " ++ cause.message
  | .write path cause => "cannot write '" ++ path ++ "': " ++ cause.message
  | .options cause => "invalid options: " ++ cause.message

/-- The text of what caused a failure, if something else did. -/
def cause? : Error → Option String
  | .description _ | .options _ => none
  | .template _ _ cause => some cause.message
  | .templateRead _ cause | .write _ cause => some cause.message

/-- The diagnostic code, for failures that have one. -/
def code? : Error → Option Diagnostic.Code
  | .description ds => ds.first?.map Diagnostic.code
  | .template _ _ cause => some cause.code
  | _ => none

/-- The failure as diagnostics about a file. -/
def toDiagnostics (file : String) : Error → Diagnostics
  | .description ds => ds
  | .template name sourceLine cause =>
    Diagnostics.empty.pushError
      { file := name, code := cause.code, message := cause.message,
        span := cause.span?.getD .none, sourceLine }
  | e =>
    Diagnostics.empty.pushError
      { file, code := .templateSyntax, message := e.message, span := .none, sourceLine := "" }

/-- A failure of a template, with the line of the directive at fault. -/
def ofTemplate (name text : String) (cause : Template.Error) : Error :=
  let line := cause.span?.bind fun span ↦ (Text.lines text.toList)[span.startLine - 1]?
  .template name (String.ofList (line.getD [])) cause

end Error

/-- A step of a run; the records are kept when it fails. -/
abbrev Generate := EStateM Error (Array Log.Record)

/-- Write a record. -/
def note (r : Log.Record) : Generate Unit := modify (·.push r)

/-- Write several records. -/
def noteAll (rs : List Log.Record) : Generate Unit := modify fun log ↦ log ++ rs.toArray

/-- Use the result of a step that writes no records. -/
def ofExcept {ε α : Type} (cause : ε → Error) : Except ε α → Generate α
  | .ok a => return a
  | .error e => throw (cause e)

/-- A function that reads files. -/
abbrev Reader := String → Except FileError (List UInt8)

/-! ## Templates -/

/-- A template together with its text, which failures quote. -/
structure SourcedTemplate where
  template : Template
  text : String

/-- Read the text of a template. -/
def parseTemplate (name text : String) : Generate SourcedTemplate := do
  let template ← ofExcept (.ofTemplate name text) (Template.parse name text)
  note template.parsedRecord
  return ⟨template, text⟩

/-- Load a template from a file. -/
def loadFile (read : Reader) (path : String) : Generate SourcedTemplate := do
  let text ← ofExcept (.templateRead path) (read path >>= textOfBytes)
  note (.mk .debug .templateStore
    ("read template " ++ path ++ " (" ++ toString text.utf8ByteSize ++ " bytes)"))
  parseTemplate path text

/-- Load a built-in template. -/
def loadBuiltin (name : String) : Generate SourcedTemplate :=
  match Template.Builtin.text? name with
  | some text => parseTemplate name text
  | none => throw (.options (.noBuiltin name))

/-- A name below a directory. -/
def joinPath (directory name : String) : String :=
  if directory.isEmpty || directory.toList.getLast? = some '/' then directory ++ name
  else directory ++ "/" ++ name

/-- Load a named template. -/
def TemplateSource.load (read : Reader) (name : String) : TemplateSource → Generate SourcedTemplate
  | .builtin => loadBuiltin name
  | .directory path => loadFile read (joinPath path name)

/-- Load the template of an output. -/
def Options.load (read : Reader) (o : Options) (kind : OutputKind) : Generate SourcedTemplate :=
  match o.outputs, kind.templateName with
  | .manual path, none => loadFile read path
  | _, some name => o.templates.load read name
  | _, none => throw (.options .noTemplate)

/-- The files that a run may read as templates. -/
def Options.templatePaths (o : Options) : List String :=
  let directoryPaths :=
    match o.templates with
    | .builtin => []
    | .directory path => OutputKind.all.filterMap fun k ↦ k.templateName.map (joinPath path)
  match o.outputs with
  | .manual path => path :: directoryPaths
  | _ => directoryPaths

/-! ## Artifacts -/

/-- Render a template. -/
def SourcedTemplate.render (t : SourcedTemplate) (root : Value) : Generate (List UInt8) := do
  let r := t.template.render root {}
  noteAll r.records
  ofExcept (.ofTemplate t.template.name t.text) r.result

/-- The record of a rendered artifact. -/
def renderedRecord (a : Artifact) : Log.Record :=
  .mk .info .pipeline ("rendered " ++ a.kind.description ++ " for \"" ++ a.path ++ "\": "
    ++ toString a.bytes.length ++ " bytes, sha256 " ++ a.sha256)

/-- Render one planned artifact. -/
def renderArtifact (read : Reader) (ns : Namespace) (o : Options) (kind : OutputKind)
    (path : String) : Generate Artifact := do
  let template ← o.load read kind
  let bytes ← template.render ns.root
  let artifact : Artifact := { kind, path, bytes }
  note (renderedRecord artifact)
  return artifact

/-- Render planned artifacts. -/
def renderAll (read : Reader) (ns : Namespace) (o : Options) :
    List (OutputKind × String) → Generate (List Artifact)
  | [] => return []
  | (kind, path) :: rest => do
    let artifact ← renderArtifact read ns o kind path
    return artifact :: (← renderAll read ns o rest)

/-! ## The whole run -/

/-- What a successful run yields. -/
structure Generated where
  published : Namespace
  artifacts : List Artifact
  /-- Warnings only. -/
  diagnostics : Diagnostics

/-- The namespace of a description under some choices. -/
def analysisFor (file : SourceFile) (o : Options) : Analysis :=
  analyze file o.presetDeclarations

/-- Analyse a description and render its artifacts. -/
def generate (read : Reader) (file : SourceFile) (o : Options) : Generate Generated := do
  let plan ← ofExcept .options o.plan
  let analysis := analysisFor file o
  noteAll analysis.records
  match analysis.result with
  | none => throw (.description analysis.diagnostics)
  | some ns =>
    note (.mk .info .pipeline (file.name ++ ": " ++ toString ns.stateNames.length ++ " states, "
      ++ toString ns.eventNames.length ++ " events"))
    let artifacts ← renderAll read ns o plan
    return ⟨ns, artifacts, analysis.diagnostics⟩

/-- The result and the records of a run. -/
def Generate.run {α : Type} (g : Generate α) : Except Error α × List Log.Record :=
  match g #[] with
  | .ok a records => (.ok a, records.toList)
  | .error e records => (.error e, records.toList)

end StateGen.Generation
