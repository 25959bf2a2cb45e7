import StateGen.Artifact
import StateGen.Declaration

/-!
# What to generate, and where it goes
-/

namespace StateGen.Generation

/-- Which artifacts a run produces. -/
inductive Outputs where
  | source
  | sourceAndHeader
  | header
  | graphviz
  /-- The template at a path; the output path has to be given. -/
  | manual (template : String)
deriving DecidableEq, Repr

/-- Where the named templates come from. -/
inductive TemplateSource where
  | builtin
  | directory (path : String)
deriving DecidableEq, Repr

/-- The choices of a run. -/
structure Options where
  outputs : Outputs := .source
  /-- The output path; the defaults of the kinds if absent. -/
  output : Option String := none
  templates : TemplateSource := .builtin
deriving DecidableEq, Repr

/-- Choices that do not go together. -/
inductive OptionsError where
  | bothToStdout
  | samePath (path : String)
  | outputRequired (template : String)
  | noBuiltin (name : String)
  | noTemplate
deriving DecidableEq, Repr

/-- The text of a wrong choice. -/
def OptionsError.message : OptionsError → String
  | .bothToStdout => "cannot write both C source and header to stdout"
  | .samePath path =>
    "C source and header would both be written to '" ++ path ++ "'; use a path ending in .c"
  | .outputRequired template => "an output path is required to render '" ++ template ++ "'"
  | .noBuiltin name => "no built-in template '" ++ name ++ "'"
  | .noTemplate => "manual output without a template"

/-- The text without a suffix, if it ends with it. -/
def stripSuffix? (suffix text : List Char) : Option (List Char) :=
  if suffix.isSuffixOf text then some (text.take (text.length - suffix.length)) else none

/-- The last name of a path. -/
def fileName (path : String) : String :=
  String.ofList (path.toList.reverse.takeWhile (· != '/')).reverse

/-- The include guard of a header: an underscore and the name in capitals, with underscores for
everything that is no letter or digit. -/
def headerGuard (headerName : String) : String :=
  String.ofList ('_' :: headerName.toList.map fun c ↦ if c.isAlphanum then c.toUpper else '_')

namespace Options

/-- Whether a C source is among the outputs. -/
def writesSource (o : Options) : Bool :=
  match o.outputs with
  | .source | .sourceAndHeader => true
  | _ => false

/-- The header that belongs to a C source whose path ends with `.c`. -/
def companionHeader (o : Options) : Option String :=
  match o.output with
  | none => none
  | some out =>
    match stripSuffix? ['.', 'c'] out.toList with
    | none => none
    | some stem =>
      if o.writesSource then some (String.ofList (stem ++ ['.', 'h'])) else none

/-- Declarations ahead of those of the description: name and guard of the header. -/
def presetDeclarations (o : Options) : List Declaration :=
  match o.companionHeader with
  | none => []
  | some header =>
    let name := fileName header
    [{ kind := .config "header_guard" (headerGuard name) },
      { kind := .config "header_name" name }]

/-- An output of a kind at the chosen or the default path. -/
def single (o : Options) (kind : OutputKind) : OutputKind × String :=
  (kind, (o.output.or kind.defaultPath).getD "")

/-- Where the header of a source goes. -/
def headerPath (o : Options) : Except OptionsError String :=
  match o.output, o.companionHeader with
  | none, _ => .ok "fsm.h"
  | some out, header =>
    if out = Artifact.stdout then .error .bothToStdout
    else
      match header with
      | some header => .ok header
      | none => .error (.samePath out)

/-- Every artifact with its destination. -/
def plan (o : Options) : Except OptionsError (List (OutputKind × String)) :=
  match o.outputs with
  | .source => .ok [o.single .source]
  | .header => .ok [o.single .header]
  | .graphviz => .ok [o.single .graphviz]
  | .sourceAndHeader => do return [o.single .source, (.header, ← o.headerPath)]
  | .manual template =>
    match o.output with
    | none => .error (.outputRequired template)
    | some path => .ok [(.manual, path)]

end Options

end StateGen.Generation
