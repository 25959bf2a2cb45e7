import StateGen.Template.Error

/-!
# Cutting a template into text and tags

A tag opens at two opening braces and closes at the first two closing braces behind them. A hyphen
just inside the braces trims the line of the tag: at the opening it drops spaces and tabs before
the tag, at the closing it drops spaces and tabs behind it and one line break. All other text is
kept as it is.
-/

namespace StateGen.Template

/-- A tag without its braces, trim marks and outer blanks. -/
structure Tag where
  body : String
  span : Span
deriving DecidableEq, Repr

/-- A piece of a template. -/
inductive Segment where
  | text (s : String)
  | tag (t : Tag)
deriving DecidableEq, Repr

/-- Drop one line break at the start. -/
def dropLineBreak : List Char → List Char
  | '\r' :: '\n' :: cs => cs
  | '\n' :: cs => cs
  | cs => cs

/-- Drop spaces and tabs and then at most one line break at the start. -/
def trimAfterTag (cs : List Char) : List Char := dropLineBreak (cs.dropWhile Text.isSpaceOrTab)

/-- Drop spaces and tabs at the end. -/
def trimBeforeTag (cs : List Char) : List Char := Text.dropTrailing Text.isSpaceOrTab cs

/-- A text segment, unless the text is empty. -/
def textSegment (cs : List Char) : List Segment :=
  if cs.isEmpty then [] else [.text (String.ofList cs)]

/-- Whether the text starts with a trim mark, and the text without it. -/
def openingMark : List Char → Bool × List Char
  | '-' :: cs => (true, cs)
  | cs => (false, cs)

/-- Whether the text ends with a trim mark, and the text without it. -/
def closingMark (cs : List Char) : Bool × List Char :=
  if cs.getLast? = some '-' then (true, cs.dropLast) else (false, cs)

/-- Cut the text from a place on; `trim` tells whether the last tag trims what follows it. -/
def scanFrom (trim : Bool) (p : Position) (cs : List Char) : Except Error (List Segment) :=
  let trimStart (literal : List Char) := if trim then trimAfterTag literal else literal
  match _hopen : Text.cutAtPair '\x7b' '\x7b' cs with
  | none => .ok (textSegment (trimStart cs))
  | some (literal, inside) =>
    let start := p.advance literal
    match _hclose : Text.cutAtPair '\x7d' '\x7d' inside with
    | none => .error (.malformed .unterminated (.point start))
    | some (whole, rest) =>
      let stop := start.advance ('\x7b' :: '\x7b' :: whole ++ ['\x7d', '\x7d'])
      let (trimsBefore, body) := openingMark whole
      let (trimsBehind, body) := closingMark body
      let literal := trimStart literal
      let literal := if trimsBefore then trimBeforeTag literal else literal
      let tag : Tag :=
        { body := String.ofList (Text.trimBlank body)
          span := ⟨start.line, start.column, stop.line, stop.column - 1⟩ }
      match scanFrom trimsBehind stop rest with
      | .error e => .error e
      | .ok segments => .ok (textSegment literal ++ .tag tag :: segments)
termination_by cs.length
decreasing_by
  exact Nat.lt_trans (Text.length_lt_of_cutAtPair _hclose) (Text.length_lt_of_cutAtPair _hopen)

/-- The pieces of a template. -/
def scan (text : String) : Except Error (List Segment) := scanFrom false .start text.toList

end StateGen.Template
