import StateGen.Diagnostic
import StateGen.Text.Utf8
import StateGen.Token

/-!
# From text to tokens

Blanks and line comments (from `#` or `//` to the end of the line) separate tokens. A fault does
not stop the reading: it is reported and the reading goes on behind it, until the store of
diagnostics is full. The result always ends with the `eof` token.
-/

namespace StateGen.Token

/-- What can be wrong with the characters of a description. -/
inductive Fault where
  /-- A byte that starts no token. -/
  | unexpectedByte (byte : UInt8)
  /-- A string without a closing quote on its line. -/
  | unterminatedString
  /-- A backslash before a byte that it does not escape. -/
  | unknownEscape (byte : UInt8)
deriving DecidableEq, Repr

namespace Fault

/-- How a byte appears in a message: as itself if it is a visible ASCII character. -/
def showByte (b : UInt8) : String :=
  if 0x21 ≤ b && b ≤ 0x7e then "'" ++ String.singleton (Char.ofNat b.toNat) ++ "'"
  else "byte 0x" ++ Text.hexByte b

/-- The text of a fault. -/
def message : Fault → String
  | .unexpectedByte b => "unexpected character " ++ showByte b
  | .unterminatedString => "unterminated string literal"
  | .unknownEscape b => "unknown escape '\\" ++ String.singleton (Char.ofNat b.toNat) ++ "'"

/-- The code of a fault. -/
def code : Fault → Diagnostic.Code
  | .unexpectedByte _ => .invalidCharacter
  | .unterminatedString => .unterminatedString
  | .unknownEscape _ => .invalidCharacter

end Fault

/-- The span from a place to the character before another; on a fresh line it ends at the first
column. -/
def spanTo (start stop : Position) : Span :=
  ⟨start.line, start.column, stop.line, max (stop.column - 1) 1⟩

/-! ## Between tokens -/

/-- A blank between tokens. -/
def isSeparator (c : Char) : Bool := c == ' ' || c == '\t' || c == '\r' || c == '\n'

/-- Whether a comment starts here. -/
def startsComment (c : Char) (rest : List Char) : Bool :=
  c == '#' || (c == '/' && rest.head? == some '/')

/-- Skip blanks and comments; `inComment` tells whether a comment is open. -/
def skipTrivia : Bool → Position → List Char → Position × List Char
  | _, p, [] => (p, [])
  | inComment, p, c :: cs =>
    if inComment then skipTrivia (c != '\n') (p.next c) cs
    else if isSeparator c then skipTrivia false (p.next c) cs
    else if startsComment c cs then skipTrivia true (p.next c) cs
    else (p, c :: cs)

/-! ## Words -/

/-- Whether a character continues a word: a hyphen does only before another word character. -/
def continuesWord (c : Char) (rest : List Char) : Bool :=
  Text.isWordChar c || (c == '-' && rest.head?.any Text.isWordChar)

/-- The longest word at the start of the text, and what follows it. -/
def takeWord : List Char → List Char × List Char
  | [] => ([], [])
  | c :: cs =>
    if continuesWord c cs then
      let (word, rest) := takeWord cs
      (c :: word, rest)
    else ([], c :: cs)

/-! ## Strings -/

/-- A string that was read from its opening quote on. -/
structure Quoted where
  value : List Char
  faults : List (Fault × Span) := []
  /-- The place behind the string. -/
  position : Position
  rest : List Char

namespace Quoted

/-- Put a character in front. -/
def push (c : Char) (q : Quoted) : Quoted := { q with value := c :: q.value }

/-- Put a fault in front. -/
def fault (f : Fault) (span : Span) (q : Quoted) : Quoted :=
  { q with faults := (f, span) :: q.faults }

/-- A string that ends without a quote. -/
def unterminated (start stop : Position) (rest : List Char) : Quoted :=
  { value := [], faults := [(.unterminatedString, spanTo start stop)], position := stop, rest }

end Quoted

/-- The character that a backslash and a character stand for. -/
def escaped? : Char → Option Char
  | 'n' => some '\n'
  | 't' => some '\t'
  | '"' => some '"'
  | '\\' => some '\\'
  | _ => none

/-- What is left of a character whose first byte was refused: each of its other bytes reads as
the replacement character. -/
def remnant (c : Char) : List Char :=
  (String.utf8EncodeChar c).tail.map fun _ ↦ '\ufffd'

/-- Read a string behind its opening quote, which stood at `start`. -/
def takeString (start : Position) : Position → List Char → Quoted
  | p, [] => .unterminated start p []
  | p, ['\\'] => .unterminated start (p.next '\\') []
  | p, '\\' :: c :: cs =>
    let q := (p.next '\\').next c
    match escaped? c with
    | some e => (takeString start q cs).push e
    | none =>
      ((remnant c).foldr Quoted.push (takeString start q cs)).fault
        (.unknownEscape (Utf8.firstByte c)) (spanTo start q)
  | p, c :: cs =>
    if c = '\n' then .unterminated start (p.next c) cs
    else if c = '"' then { value := [], position := p.next c, rest := cs }
    else (takeString start (p.next c) cs).push c

/-! ## One token -/

/-- What was read at a place: a token unless the character starts none. -/
structure Lexeme where
  token : Option Token
  faults : List (Fault × Span) := []
  position : Position
  rest : List Char

/-- The faults of a character that starts no token, one for each of its bytes. The first byte
stands at the character, the others behind it. -/
def byteFaults (p : Position) (c : Char) : List (Fault × Span) :=
  match String.utf8EncodeChar c with
  | [] => []
  | b :: bs =>
    (.unexpectedByte b, spanTo p (p.next c))
      :: bs.map fun b ↦ (.unexpectedByte b, spanTo (p.next c) (p.next c))

/-- Read what starts with a character that is no trivia. -/
def scan (p : Position) (c : Char) (cs : List Char) : Lexeme :=
  match Kind.ofMark? c with
  | some mark =>
    { token := some ⟨mark, spanTo p (p.next c)⟩, position := p.next c, rest := cs }
  | none =>
    if c = '-' ∧ cs.head? = some '>' then
      let q := (p.next '-').next '>'
      { token := some ⟨.arrow, spanTo p q⟩, position := q, rest := cs.tail }
    else if c = '"' then
      let s := takeString p (p.next c) cs
      { token := some ⟨.string (String.ofList s.value), spanTo p s.position⟩
        faults := s.faults
        position := s.position
        rest := s.rest }
    else if Text.isWordChar c then
      let (word, rest) := takeWord cs
      let q := p.advance (c :: word)
      { token := some ⟨.ofWord (String.ofList (c :: word)), spanTo p q⟩, position := q, rest }
    else
      { token := none, faults := byteFaults p c, position := p.next c, rest := cs }

namespace Lexeme

/-- Report the faults: those of a token all together, those of a refused character one by one
while there is room. -/
def report (x : Lexeme) (file : SourceFile) (ds : Diagnostics) : Diagnostics :=
  x.faults.foldl
    (fun ds (fault, span) ↦
      if x.token.isNone && ds.isFull then ds
      else ds.pushError (.located file fault.code fault.message span))
    ds

end Lexeme

/-! ## The whole text -/

/-- Skipping never adds characters. -/
theorem length_skipTrivia_le (inComment : Bool) (p : Position) (cs : List Char) :
    (skipTrivia inComment p cs).2.length ≤ cs.length := by
  fun_induction skipTrivia inComment p cs with
  | case1 => simp
  | case2 | case3 | case4 => simp only [List.length_cons]; omega
  | case5 => simp

/-- What follows a word is no longer than the text. -/
theorem length_takeWord_le (cs : List Char) : (takeWord cs).2.length ≤ cs.length := by
  fun_induction takeWord cs with
  | case1 => simp
  | case2 c cs _ word rest h ih =>
    simp only [h] at ih
    simp only [List.length_cons]
    omega
  | case3 => simp

/-- Putting characters in front of a string leaves what follows it. -/
theorem rest_foldr_push (cs : List Char) (q : Quoted) :
    (cs.foldr Quoted.push q).rest = q.rest := by
  induction cs <;> simp_all [Quoted.push]

/-- What follows a string is no longer than the text. -/
theorem length_takeString_le (start p : Position) (cs : List Char) :
    (takeString start p cs).rest.length ≤ cs.length := by
  fun_induction takeString start p cs with
  | case1 => simp [Quoted.unterminated]
  | case2 => simp [Quoted.unterminated]
  | case3 => simp_all [Quoted.push]; omega
  | case4 => simp_all [Quoted.fault, rest_foldr_push]; omega
  | case5 => simp [Quoted.unterminated]
  | case6 => simp
  | case7 => simp_all [Quoted.push]; omega

/-- Reading a token never adds characters behind its first one. -/
theorem length_scan_le (p : Position) (c : Char) (cs : List Char) :
    (scan p c cs).rest.length ≤ cs.length := by
  unfold scan
  split
  · simp
  · split
    · simp
    · split
      · exact length_takeString_le ..
      · split
        · exact length_takeWord_le cs
        · simp

/-- The tokens from a place on. -/
def lexFrom (file : SourceFile) (p : Position) (cs : List Char) (ds : Diagnostics) :
    List Token × Diagnostics :=
  if ds.isFull then ([⟨.eof, .point p⟩], ds)
  else
    match _h : skipTrivia false p cs with
    | (q, []) => ([⟨.eof, .point q⟩], ds)
    | (q, c :: rest) =>
      let x := scan q c rest
      let (tokens, ds) := lexFrom file x.position x.rest (x.report file ds)
      (x.token.toList ++ tokens, ds)
termination_by cs.length
decreasing_by
  have hskip := length_skipTrivia_le false p cs
  have hscan := length_scan_le q c rest
  rw [_h] at hskip
  simp only [List.length_cons] at hskip
  omega

/-- The tokens of a description and the faults of its text. -/
def lex (file : SourceFile) : List Token × Diagnostics :=
  lexFrom file .start file.text.toList .empty

end StateGen.Token
