import StateGen.Generation
import StateGen.Json.Reader

/-!
# Reports

The outcome of a run as data: whether it succeeded, what it produced and what was wrong. Reports
are written as JSON and can be read back.
-/

namespace StateGen.Generation

/-- The outcome of a run. -/
structure Report where
  success : Bool
  artifacts : List Artifact.Summary
  errors : Diagnostics
deriving DecidableEq

namespace Report

/-- The report of a successful run. -/
def ofGenerated (g : Generated) : Report :=
  ⟨true, g.artifacts.map Artifact.summary, g.diagnostics⟩

/-- The report of a failed run on a file. -/
def ofError (file : String) (e : Error) : Report := ⟨false, [], e.toDiagnostics file⟩

/-- The report of a run on a file. -/
def ofResult (file : String) : Except Error Generated → Report
  | .ok g => ofGenerated g
  | .error e => ofError file e

/-- The report as a JSON object. -/
def toJson (r : Report) : Json :=
  .obj [("success", .bool r.success), ("artifacts", .arr (r.artifacts.map Artifact.Summary.toJson)),
    ("errors", r.errors.toJson)]

end Report

/-! ## Reading reports

Records may also be written as arrays of their fields; a member must not be given twice. Unknown
members of objects are left unread, apart from those of a diagnostic, which have to be storable.
-/

namespace Decode

open Json (Raw unescape?)

/-- A natural number below a bound, written without sign, fraction and exponent. -/
def natBelow (bound : Nat) : Raw → Option Nat
  | .number literal => do
    let cs := literal.toList
    if !cs.all Char.isDigit then none
    else
      let n := Text.decimal cs
      if n < bound then some n else none
  | _ => none

/-- A string. -/
def string : Raw → Option String
  | .str literal => unescape? literal
  | _ => none

/-- A truth value. -/
def bool : Raw → Option Bool
  | .bool b => some b
  | _ => none

/-- An array of values that are read alike. -/
def array {α : Type} (item : Raw → Option α) : Raw → Option (List α)
  | .arr items => items.mapM item
  | _ => none

/-- Members with their keys resolved. -/
def resolveKeys (members : List (String × Raw)) : Option (List (String × Raw)) :=
  members.mapM fun (key, v) ↦ (unescape? key).map (·, v)

/-- The value of a member that stands exactly once. -/
def member (members : List (String × Raw)) (name : String) : Option Raw :=
  match members.filter (·.1 == name) with
  | [(_, v)] => some v
  | _ => none

/-- The values of the fields of a record: by name, or by position if it is an array. -/
def fields (names : List String) : Raw → Option (List Raw)
  | .obj members => do names.mapM (member (← resolveKeys members))
  | .arr items => if items.length = names.length then some items else none
  | _ => none

/-- A name out of a list: a string, or an object whose only member has that name and no value. -/
def choice {α : Type} (options : List (String × α)) : Raw → Option α
  | .str literal => do options.lookup (← unescape? literal)
  | .obj [(key, .null)] => do options.lookup (← unescape? key)
  | _ => none

/-- The kind of an artifact. -/
def kind : Raw → Option OutputKind := choice (OutputKind.all.map fun k ↦ (k.name, k))

/-- A severity. -/
def severity : Raw → Option Diagnostic.Severity :=
  choice ([.error, .warning].map fun s ↦ (s.name, s))

/-- A category. -/
def category : Raw → Option Diagnostic.Category :=
  choice ([.syntactic, .declaration, .structural, .template].map fun c ↦ (c.name, c))

/-- A summary of an artifact. -/
def summary (j : Raw) : Option Artifact.Summary := do
  match ← fields ["kind", "path", "size", "sha256"] j with
  | [k, p, n, d] => return ⟨← kind k, ← string p, ← natBelow UInt64.size n, ← string d⟩
  | _ => none

/-- A hint: absent, null or a string, and not given twice. -/
def suggestion (members : List (String × Raw)) : Option (Option String) :=
  match members.filter (·.1 == "suggestion") with
  | [] => some none
  | [(_, .null)] => some none
  | [(_, .str literal)] => (unescape? literal).map some
  | _ => none

/-- How deep the containers inside of a diagnostic may be nested. A document has room for 127
levels; the report, its collection of diagnostics, their list and the diagnostic take four. -/
def diagnosticRoom : Nat := 127 - 4

/-- A diagnostic, which is always an object. -/
def diagnostic : Raw → Option Diagnostic
  | .obj members => do
    guard (Raw.membersStorable diagnosticRoom members)
    let ms ← resolveKeys members
    let column := natBelow UInt32.size
    return {
      file := ← string (← member ms "file")
      code := ⟨← natBelow UInt16.size (← member ms "code")⟩
      severity := ← severity (← member ms "severity")
      category := ← category (← member ms "category")
      message := ← string (← member ms "message")
      span := ⟨← column (← member ms "line"), ← column (← member ms "column"),
        ← column (← member ms "end_line"), ← column (← member ms "end_column")⟩
      sourceLine := ← string (← member ms "source_line")
      suggestion := ← suggestion ms }
  | _ => none

/-- A collection of diagnostics. -/
def diagnostics (j : Raw) : Option Diagnostics := do
  match ← fields ["errors", "warnings", "total_errors", "total_warnings"] j with
  | [es, ws, te, tw] =>
    return ⟨← array diagnostic es, ← array diagnostic ws, ← natBelow UInt64.size te,
      ← natBelow UInt64.size tw⟩
  | _ => none

end Decode

namespace Report

/-- Read a report. -/
def ofRaw? (j : Json.Raw) : Option Report := do
  match ← Decode.fields ["success", "artifacts", "errors"] j with
  | [s, as, es] =>
    return ⟨← Decode.bool s, ← Decode.array Decode.summary as, ← Decode.diagnostics es⟩
  | _ => none

/-- Read the text of a report. -/
def parse? (text : String) : Option Report := do ofRaw? (← Json.Raw.parse? text)

end Report

end StateGen.Generation
