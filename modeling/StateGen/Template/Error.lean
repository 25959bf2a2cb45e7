import StateGen.Diagnostic
import StateGen.Template.Path

/-!
# Why a template cannot be read or rendered

Every failure but that of the output carries the place of the directive at fault.
-/

namespace StateGen.Template

/-- The blocks of a template. -/
inductive Block where
  | loop
  | branch
  | otherwise
deriving DecidableEq, Repr

/-- The word that opens a block. -/
def Block.word : Block → String
  | .loop => "for"
  | .branch => "if"
  | .otherwise => "else"

/-- What can end a block. -/
inductive Closer where
  | endOfTemplate
  | endfor
  | elif
  | otherwise
  | endif
deriving DecidableEq, Repr

/-- How the end of a block appears in messages. -/
def Closer.display : Closer → String
  | .endOfTemplate => "end of template"
  | .endfor => "\x7b\x7bendfor\x7d\x7d"
  | .elif => "\x7b\x7belif\x7d\x7d"
  | .otherwise => "\x7b\x7belse\x7d\x7d"
  | .endif => "\x7b\x7bendif\x7d\x7d"

/-- What has to end a block in the end. -/
def Block.closer : Block → Closer
  | .loop => .endfor
  | .branch | .otherwise => .endif

/-- What is wrong with the form of a directive or of a block. -/
inductive Malformed where
  | unterminated
  | emptyDirective
  | missingCondition
  | forLoop (text : String)
  | loopVariable (name : String)
  | takesNoArguments (word : String)
  | unopened (found : Closer)
  | unclosed (block : Block) (opened : Span) (found : Closer)
deriving DecidableEq, Repr

/-- The text of a malformed directive or block. -/
def Malformed.message : Malformed → String
  | .unterminated => "unterminated '\x7b\x7b' directive"
  | .emptyDirective => "empty directive"
  | .missingCondition => "missing condition"
  | .forLoop text =>
    "malformed for loop 'for " ++ text ++ "', expected 'for [key,] value in path'"
  | .loopVariable name => "'" ++ name ++ "' is not a valid loop variable"
  | .takesNoArguments word => "'" ++ word ++ "' takes no arguments"
  | .unopened found => found.display ++ " without a matching opening directive"
  | .unclosed block opened found =>
    "'" ++ block.word ++ "' opened at " ++ opened.display ++ " expects " ++ block.closer.display
      ++ ", found " ++ found.display

/-- Failures of reading and rendering a template. -/
inductive Error where
  | malformed (cause : Malformed) (span : Span)
  | invalidPath (path : String) (fault : Path.Fault) (span : Span)
  | unresolvedReference (path : String) (span : Span)
  | notIterable (path : String) (kind : Value.Kind) (span : Span)
  | notScalar (path : String) (kind : Value.Kind) (span : Span)
  | writeFailed (reason : String)
deriving DecidableEq, Repr

namespace Error

/-- The place of the directive at fault. -/
def span? : Error → Option Span
  | .malformed _ span | .invalidPath _ _ span | .unresolvedReference _ span
  | .notIterable _ _ span | .notScalar _ _ span => some span
  | .writeFailed _ => none

/-- What is wrong, without the place. -/
def reason : Error → String
  | .malformed cause _ => cause.message
  | .invalidPath path fault _ => "invalid path '" ++ path ++ "': " ++ fault.message
  | .unresolvedReference path _ => "unresolved reference '" ++ path ++ "'"
  | .notIterable path kind _ => "cannot iterate over '" ++ path ++ "', a " ++ kind.name
  | .notScalar path kind _ => "cannot substitute '" ++ path ++ "', a " ++ kind.name
  | .writeFailed reason => "write failed: " ++ reason

/-- The text of a failure: the place and what is wrong. -/
def message (e : Error) : String :=
  match e.span? with
  | some span => span.display ++ ": " ++ e.reason
  | none => e.reason

/-- The diagnostic code of a failure. -/
def code : Error → Diagnostic.Code
  | .malformed .. | .invalidPath .. | .writeFailed _ => .templateSyntax
  | .unresolvedReference .. => .unresolvedReference
  | .notIterable .. => .notIterable
  | .notScalar .. => .notScalar

end Error

end StateGen.Template
