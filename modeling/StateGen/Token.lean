import StateGen.Source

/-!
# Tokens of a machine description

Words, quoted strings, keywords and five punctuation marks. A keyword may hold hyphens, which is
why it can never be mistaken for a C identifier.
-/

namespace StateGen

/-- The reserved words of a description. -/
inductive Keyword where
  | option
  | initialState
  | initial
  | event
  | state
  | precondition
  | callback
  | entryPrecondition
  | exitPrecondition
  | onEnter
  | onExit
  | nextState
  | on
deriving DecidableEq, Repr

namespace Keyword

/-- Every keyword. -/
def all : List Keyword :=
  [.option, .initialState, .initial, .event, .state, .precondition, .callback,
    .entryPrecondition, .exitPrecondition, .onEnter, .onExit, .nextState, .on]

/-- How a keyword is written. -/
def text : Keyword → String
  | .option => "option"
  | .initialState => "initial-state"
  | .initial => "initial"
  | .event => "event"
  | .state => "state"
  | .precondition => "precondition"
  | .callback => "callback"
  | .entryPrecondition => "entry-precondition"
  | .exitPrecondition => "exit-precondition"
  | .onEnter => "on-enter"
  | .onExit => "on-exit"
  | .nextState => "next-state"
  | .on => "on"

/-- The keyword that a word is, if it is one. -/
def ofText? (word : String) : Option Keyword := all.find? (·.text == word)

end Keyword

namespace Token

/-- What a token is. -/
inductive Kind where
  /-- A word that is no keyword; it may hold hyphens. -/
  | word (name : String)
  /-- A quoted string with its escapes resolved. -/
  | string (value : String)
  | keyword (word : Keyword)
  | leftBrace
  | rightBrace
  | semicolon
  | comma
  | arrow
  /-- The end of the description. -/
  | eof
deriving DecidableEq, Repr

namespace Kind

/-- The text of a token in messages. -/
def display : Kind → String
  | .word name => name
  | .string value => "\"" ++ value ++ "\""
  | .keyword k => k.text
  | .leftBrace => "\x7b"
  | .rightBrace => "\x7d"
  | .semicolon => ";"
  | .comma => ","
  | .arrow => "->"
  | .eof => "end of file"

/-- Whether the token is a keyword. -/
def isKeyword : Kind → Bool
  | .keyword _ => true
  | _ => false

/-- Whether the token is a word that is no keyword. -/
def isWord : Kind → Bool
  | .word _ => true
  | _ => false

/-- A word or the keyword that it spells. -/
def ofWord (word : String) : Kind :=
  match Keyword.ofText? word with
  | some k => .keyword k
  | none => .word word

/-- The mark that a character is on its own. -/
def ofMark? : Char → Option Kind
  | '\x7b' => some .leftBrace
  | '\x7d' => some .rightBrace
  | ';' => some .semicolon
  | ',' => some .comma
  | _ => none

end Kind

end Token

/-- A token and the characters that it covers. -/
structure Token where
  kind : Token.Kind
  span : Span
deriving DecidableEq, Repr

end StateGen
