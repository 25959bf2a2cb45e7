import StateGen.Source

/-!
# Diagnostics

Located messages about a description, and the bounded collection that every stage reports into:
the first twenty errors are stored, the rest are only counted.
-/

namespace StateGen

namespace Diagnostic

/-- The number of a diagnostic; its hundreds tell the category. -/
structure Code where
  number : Nat
deriving DecidableEq, Repr

/-- What part of the work a diagnostic belongs to. -/
inductive Category where
  | syntactic
  | declaration
  | structural
  | template
deriving DecidableEq, Repr

/-- Whether a diagnostic stops the work. -/
inductive Severity where
  | error
  | warning
deriving DecidableEq, Repr

namespace Code

/-! ### Reading the text of a description -/

/-- A token where the grammar wants another one. -/
def unexpectedToken : Code := ⟨100⟩
/-- A string without its closing quote. -/
def unterminatedString : Code := ⟨101⟩
/-- A character that starts no token, or that a backslash does not escape. -/
def invalidCharacter : Code := ⟨102⟩
/-- A word that is no C identifier where one is needed. -/
def invalidIdentifier : Code := ⟨103⟩

/-! ### Single declarations -/

/-- A state that exists already. -/
def duplicateState : Code := ⟨200⟩
/-- An event that exists already. -/
def duplicateEvent : Code := ⟨201⟩
/-- A state that is not declared. -/
def unknownState : Code := ⟨202⟩
/-- An event that is not declared. -/
def unknownEvent : Code := ⟨203⟩
/-- A second edge of a state under the same key. -/
def duplicateTransition : Code := ⟨204⟩
/-- Events in a machine with direct edges, or the other way round. -/
def mixedTransitions : Code := ⟨205⟩
/-- An option that does not exist. -/
def unknownOption : Code := ⟨206⟩
/-- A value that does not fit its option. -/
def invalidOptionValue : Code := ⟨207⟩
/-- A callback on a single edge. -/
def unsupportedHook : Code := ⟨208⟩
/-- A state that is initial already. -/
def duplicateInitial : Code := ⟨209⟩
/-- A hook on an edge that is not declared. -/
def unknownTransition : Code := ⟨210⟩
/-- Only ever a warning: a state that nothing can enter. -/
def unreachableState : Code := ⟨211⟩
/-- A name that denotes something else already. -/
def nameConflict : Code := ⟨212⟩
/-- A name for both a guard and a callback. -/
def hookKindConflict : Code := ⟨213⟩
/-- A name that the generated code needs for itself. -/
def reservedName : Code := ⟨214⟩

/-! ### The machine as a whole -/

/-- A machine without states. -/
def noStates : Code := ⟨300⟩
/-- A machine with one state only. -/
def singleState : Code := ⟨301⟩
/-- A machine that can start nowhere. -/
def noInitialState : Code := ⟨302⟩

/-! ### Templates -/

/-- A template that cannot be read, or output that cannot be written. -/
def templateSyntax : Code := ⟨400⟩
/-- A path without a value. -/
def unresolvedReference : Code := ⟨401⟩
/-- A loop over something that is no container. -/
def notIterable : Code := ⟨402⟩
/-- A container in the place of a text. -/
def notScalar : Code := ⟨403⟩

/-- The category of a code, by its hundreds; whatever is in no other range counts as template. -/
def category (c : Code) : Category :=
  match c.number / 100 with
  | 1 => .syntactic
  | 2 => .declaration
  | 3 => .structural
  | _ => .template

/-- The letter E and the number. -/
def display (c : Code) : String := "E" ++ toString c.number

end Code

/-- The word for a category. -/
def Category.name : Category → String
  | .syntactic => "syntax"
  | .declaration => "declaration"
  | .structural => "structure"
  | .template => "template"

/-- The word for a severity. -/
def Severity.name : Severity → String
  | .error => "error"
  | .warning => "warning"

end Diagnostic

/-- A message about a place in a file. -/
structure Diagnostic where
  file : String
  code : Diagnostic.Code
  severity : Diagnostic.Severity := .error
  category : Diagnostic.Category := code.category
  message : String
  span : Span
  /-- The line on which the span starts. -/
  sourceLine : String
  /-- A hint, where one helps. -/
  suggestion : Option String := none
deriving DecidableEq, Repr

namespace Diagnostic

/-- A message about a place in a source file, quoting the line. -/
def located (file : SourceFile) (code : Code) (message : String) (span : Span) : Diagnostic :=
  { file := file.name, code, message, span, sourceLine := file.lineOf span }

/-- The same message as a warning. -/
def asWarning (d : Diagnostic) : Diagnostic := { d with severity := .warning }

/-- File, place, code, category and message on one line. -/
def display (d : Diagnostic) : String :=
  d.file ++ ":" ++ d.span.display ++ ": " ++ d.code.display ++ " [" ++ d.category.name ++ "] "
    ++ d.message

/-- The diagnostic as a flat JSON object. -/
def toJson (d : Diagnostic) : Json :=
  .obj <|
    [("file", .str d.file), ("code", .ofNat d.code.number), ("severity", .str d.severity.name),
      ("category", .str d.category.name), ("message", .str d.message)]
      ++ d.span.members ++ [("source_line", .str d.sourceLine)]
      ++ (match d.suggestion with
          | some hint => [("suggestion", .str hint)]
          | none => [])

end Diagnostic

/-- Every diagnostic of one run: the stored ones and how many there were. The totals have no bound;
kept in 64 bits they are the same up to 2⁶⁴ - 1 errors and as many warnings. -/
structure Diagnostics where
  errors : List Diagnostic := []
  warnings : List Diagnostic := []
  totalErrors : Nat := 0
  totalWarnings : Nat := 0
deriving DecidableEq, Repr

namespace Diagnostics

/-- How many errors are stored. -/
def capacity : Nat := 20

/-- The collection without diagnostics. -/
def empty : Diagnostics := {}

instance : Inhabited Diagnostics := ⟨empty⟩

/-- Whether an error was reported. -/
def hasErrors (ds : Diagnostics) : Bool := 0 < ds.totalErrors

/-- Whether the store is full, which is when reading should stop. -/
def isFull (ds : Diagnostics) : Bool := capacity ≤ ds.totalErrors

/-- Report an error: it is stored while there is room and counted in any case. -/
def pushError (ds : Diagnostics) (d : Diagnostic) : Diagnostics :=
  { ds with
    errors := if ds.errors.length < capacity then ds.errors ++ [d] else ds.errors
    totalErrors := ds.totalErrors + 1 }

/-- Report a warning; warnings are always stored. -/
def pushWarning (ds : Diagnostics) (d : Diagnostic) : Diagnostics :=
  { ds with
    warnings := ds.warnings ++ [d.asWarning]
    totalWarnings := ds.totalWarnings + 1 }

/-- How many errors were counted without being stored. -/
def overflow (ds : Diagnostics) : Nat := ds.totalErrors - ds.errors.length

/-- Report everything that another collection holds, its uncounted errors included. -/
def extend (ds other : Diagnostics) : Diagnostics :=
  let withErrors := other.errors.foldl pushError ds
  let counted := { withErrors with totalErrors := withErrors.totalErrors + other.overflow }
  other.warnings.foldl pushWarning counted

/-- The first stored error. -/
def first? (ds : Diagnostics) : Option Diagnostic := ds.errors.head?

/-- One line for every stored error and one for those that were only counted. -/
def display (ds : Diagnostics) : String :=
  String.join (ds.errors.map fun d ↦ d.display ++ "\n")
    ++ (if ds.errors.length < ds.totalErrors then
          "... and " ++ toString ds.overflow ++ " more errors\n"
        else "")

/-- The collection as a JSON object. -/
def toJson (ds : Diagnostics) : Json :=
  .obj
    [("errors", .arr (ds.errors.map Diagnostic.toJson)),
      ("warnings", .arr (ds.warnings.map Diagnostic.toJson)),
      ("total_errors", .ofNat ds.totalErrors), ("total_warnings", .ofNat ds.totalWarnings)]

end Diagnostics

end StateGen
