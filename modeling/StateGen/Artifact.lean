import StateGen.Json
import StateGen.Sha256
import StateGen.Text.Utf8

/-!
# Artifacts

Rendered outputs that are not written yet, and the kinds of outputs there are.
-/

namespace StateGen

/-- The kinds of outputs. -/
inductive OutputKind where
  | source
  | header
  | graphviz
  /-- The output of a template that the caller supplies. -/
  | manual
deriving DecidableEq, Repr

namespace OutputKind

/-- Every kind. -/
def all : List OutputKind := [.source, .header, .graphviz, .manual]

/-- The name of a kind in reports. -/
def name : OutputKind → String
  | .source => "source"
  | .header => "header"
  | .graphviz => "graphviz"
  | .manual => "manual"

/-- The words for a kind in messages. -/
def description : OutputKind → String
  | .source => "C source"
  | .header => "C header"
  | .graphviz => "Graphviz dot"
  | .manual => "template output"

/-- The template of a kind. -/
def templateName : OutputKind → Option String
  | .source => some "source.m"
  | .header => some "header.m"
  | .graphviz => some "graphviz.m"
  | .manual => none

/-- Where an output goes unless the caller says otherwise. -/
def defaultPath : OutputKind → Option String
  | .source => some "fsm.c"
  | .header => some "fsm.h"
  | .graphviz => some "fsm.dot"
  | .manual => none

end OutputKind

/-- A rendered output and where it goes. -/
structure Artifact where
  kind : OutputKind
  path : String
  bytes : List UInt8
deriving DecidableEq, Repr

namespace Artifact

/-- The path that stands for standard output. -/
def stdout : String := "-"

/-- Whether the artifact goes to standard output. -/
def isStdout (a : Artifact) : Bool := a.path == stdout

/-- The artifact as text. -/
def text (a : Artifact) : String := Utf8.decodeLossy a.bytes

/-- The digest of the artifact. -/
def sha256 (a : Artifact) : String := Sha256.hex a.bytes

/-- What a report tells about an artifact. -/
structure Summary where
  kind : OutputKind
  path : String
  size : Nat
  sha256 : String
deriving DecidableEq, Repr

/-- The summary of an artifact. -/
def summary (a : Artifact) : Summary := ⟨a.kind, a.path, a.bytes.length, a.sha256⟩

/-- A summary as a JSON object. -/
def Summary.toJson (s : Summary) : Json :=
  .obj [("kind", .str s.kind.name), ("path", .str s.path), ("size", .ofNat s.size),
    ("sha256", .str s.sha256)]

end Artifact

end StateGen
