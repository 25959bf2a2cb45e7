import StateGen.Description.Declarations
import StateGen.Description.Parser
import StateGen.Model.Namespace
import StateGen.Token.Lexer

/-!
# From the text of a description to its namespace

Text, tokens, description, declarations, model: a fault of the text or a mistake in the order of
tokens keeps the declarations from being judged at all, and a rejected declaration keeps the
machine from being judged as a whole.
-/

namespace StateGen

/-- What became of a description. -/
structure Analysis where
  /-- Present if and only if nothing was wrong. -/
  result : Option Namespace
  diagnostics : Diagnostics
  records : List Log.Record

namespace Analysis

/-- A rejection as a diagnostic. -/
def rejection (file : SourceFile) (span : Span) (e : Model.Error) : Diagnostic :=
  { Diagnostic.located file e.code e.message span with suggestion := e.suggestion }

/-- A model, the rejections on the way to it, and the records of what was accepted. -/
structure Progress where
  model : Model
  diagnostics : Diagnostics
  records : List Log.Record := []

/-- Apply declarations and report those that are rejected, until the store is full. -/
def applyAll (file : SourceFile) : List Declaration → Model → Diagnostics → Progress
  | [], m, ds => { model := m, diagnostics := ds }
  | d :: rest, m, ds =>
    match Model.apply d m with
    | .ok _ m' =>
      let p := applyAll file rest m' ds
      { p with records := m.acceptedRecord d :: p.records }
    | .error e m' =>
      let ds := ds.pushError (rejection file d.span e)
      if ds.isFull then { model := m', diagnostics := ds } else applyAll file rest m' ds

/-- Where a state is declared. -/
def stateSpan (decls : List Declaration) (name : String) : Span :=
  match decls.find? fun d ↦ d.kind == .state name with
  | some d => d.span
  | none => .none

/-- A warning for a state that nothing can enter. -/
def unreachableWarning (file : SourceFile) (decls : List Declaration) (name : String) :
    Diagnostic :=
  .located file .unreachableState ("state '" ++ name ++ "' is unreachable") (stateSpan decls name)

/-- Judge the machine as a whole. -/
def conclude (file : SourceFile) (m : Model) (ds : Diagnostics) : Analysis :=
  match m.finalize with
  | .ok ns => ⟨some ns, ds, m.finalizeRecords⟩
  | .error e => ⟨none, ds.pushError (rejection file file.endSpan e), []⟩

/-- Judge declarations; `preset` declarations come first and may be overridden. -/
def ofDeclarations (file : SourceFile) (preset decls : List Declaration) (ds : Diagnostics) :
    Analysis :=
  let p := applyAll file (preset ++ decls) (.initial file.name) ds
  if p.diagnostics.hasErrors then ⟨none, p.diagnostics, p.records⟩
  else
    let warned := p.model.unreachableStates.foldl
      (fun ds name ↦ ds.pushWarning (unreachableWarning file decls name)) p.diagnostics
    let a := conclude file p.model warned
    { a with records := p.records ++ a.records }

end Analysis

/-- Analyse a description; `preset` declarations are applied ahead of its own. -/
def analyze (file : SourceFile) (preset : List Declaration) : Analysis :=
  let (tokens, faults) := Token.lex file
  let (description, mistakes) := Description.ofTokens file tokens
  let ds := faults.extend mistakes
  if ds.hasErrors then ⟨none, ds, []⟩
  else
    let decls := description.declarations
    let a := Analysis.ofDeclarations file preset decls ds
    { a with
      records := .mk .debug .pipeline
        (file.name ++ ": " ++ toString decls.length ++ " declarations") :: a.records }

/-- The namespace of a description, or everything that is wrong with it. -/
def Analysis.toExcept (a : Analysis) : Except Diagnostics Namespace :=
  match a.result with
  | some ns => .ok ns
  | none => .error a.diagnostics

/-- The diagnostics of a description. -/
def check (file : SourceFile) : Diagnostics := (analyze file []).diagnostics

end StateGen
