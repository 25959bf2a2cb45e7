import StateGen.Json

/-!
# Places in a text

Lines and columns count from one, columns in characters. A span covers the characters from its
start to its end, both included.
-/

namespace StateGen

/-- A place in a text. Its line and its column have no bound: kept in 32 bits they are the same in
texts with fewer than 2³² lines and fewer than 2³² - 1 characters on each of them. -/
structure Position where
  line : Nat
  column : Nat
deriving DecidableEq, Repr, Inhabited

namespace Position

/-- Where a text starts. -/
def start : Position := ⟨1, 1⟩

/-- The place after a character. -/
def next (p : Position) (c : Char) : Position :=
  if c = '\n' then ⟨p.line + 1, 1⟩ else ⟨p.line, p.column + 1⟩

/-- The place after a text. -/
def advance (p : Position) (cs : List Char) : Position := cs.foldl next p

/-- Earlier in the text: by line, then by column. -/
def before (p q : Position) : Bool :=
  p.line < q.line || (p.line == q.line && p.column < q.column)

end Position

/-- A region of a text. As with places, lines and columns have no bound, and 32 bits hold them up to
2³² - 1. -/
structure Span where
  startLine : Nat
  startColumn : Nat
  endLine : Nat
  endColumn : Nat
deriving DecidableEq, Repr, Inhabited

namespace Span

/-- The span of something that has no place in a text. -/
def none : Span := ⟨0, 0, 0, 0⟩

/-- Where the span begins. -/
def start (s : Span) : Position := ⟨s.startLine, s.startColumn⟩

/-- Where the span ends. -/
def stop (s : Span) : Position := ⟨s.endLine, s.endColumn⟩

/-- The span between two places. -/
def between (p q : Position) : Span := ⟨p.line, p.column, q.line, q.column⟩

/-- The span of a single place. -/
def point (p : Position) : Span := between p p

/-- The smallest span that covers both. -/
def cover (a b : Span) : Span :=
  between (if b.start.before a.start then b.start else a.start)
    (if b.stop.before a.stop then a.stop else b.stop)

/-- Line and column of the start. -/
def display (s : Span) : String := toString s.startLine ++ ":" ++ toString s.startColumn

/-- The members of the span in a JSON object. -/
def members (s : Span) : List (String × Json) :=
  [("line", .ofNat s.startLine), ("column", .ofNat s.startColumn),
    ("end_line", .ofNat s.endLine), ("end_column", .ofNat s.endColumn)]

/-- The span as a JSON object. -/
def toJson (s : Span) : Json := .obj s.members

end Span

/-- A named text. -/
structure SourceFile where
  /-- The name that messages quote. -/
  name : String
  text : String

namespace SourceFile

/-- The lines of the text without their line feeds and without carriage returns at their ends. -/
def lines (f : SourceFile) : List String :=
  (Text.splitLines f.text.toList).map fun cs ↦ String.ofList (Text.dropTrailing (· == '\r') cs)

/-- A line by its number, if it exists. -/
def line? (f : SourceFile) (number : Nat) : Option String :=
  if number = 0 then none else f.lines[number - 1]?

/-- The line on which a span starts; empty where there is no such line. -/
def lineOf (f : SourceFile) (span : Span) : String := (f.line? span.startLine).getD ""

/-- Number of lines; the empty text has one. -/
def lineCount (f : SourceFile) : Nat := f.lines.length

/-- The place just past the last line, for messages about the whole text. -/
def endSpan (f : SourceFile) : Span :=
  .point ⟨f.lineCount, ((f.line? f.lineCount).getD "").length + 1⟩

end SourceFile

end StateGen
