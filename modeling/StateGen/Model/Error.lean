import StateGen.Config
import StateGen.Diagnostic

/-!
# Why a machine is rejected
-/

namespace StateGen.Model

/-- What a name can denote in a machine. -/
inductive NameKind where
  | state
  | event
  | precondition
  | callback
deriving DecidableEq, Repr

/-- The word for a kind of name. -/
def NameKind.word : NameKind → String
  | .state => "state"
  | .event => "event"
  | .precondition => "precondition"
  | .callback => "callback"

/-- What a new name collides with. -/
inductive Clash where
  | declared (kind : NameKind)
  /-- A function, macro or table that the generated code defines. -/
  | generated
deriving DecidableEq, Repr

/-- The words for a collision. -/
def Clash.words : Clash → String
  | .declared kind => kind.word
  | .generated => "generated identifier"

/-- Rejections of single declarations and of whole machines. -/
inductive Error where
  | duplicateState (name : String)
  | duplicateEvent (name : String)
  | unknownState (name : String)
  | unknownEvent (name : String)
  | duplicateTransition (source via : String)
  /-- An event in a machine that has direct edges. -/
  | eventAmongDirect (name : String)
  /-- A direct edge in a machine that has events. -/
  | directAmongEvents (source target : String)
  | unknownOption (key : String)
  | invalidOptionValue (key value : String)
  | unsupportedHook (source via : String)
  | duplicateInitial (name : String)
  | unknownTransition (source via hook : String)
  | nameConflict (name : String) (kind : NameKind) (existing : Clash)
  | hookKindConflict (name : String)
  | reservedName (name : String) (kind : NameKind)
  | noStates
  | singleState
  | noInitialState
deriving DecidableEq, Repr

namespace Error

/-- The text of a rejection of mixed machines. -/
def mixed (detail : String) : String :=
  "cannot mix event-driven and direct transitions (" ++ detail ++ ")"

/-- The text of a rejection. -/
def message : Error → String
  | .duplicateState name => "state '" ++ name ++ "' is already declared"
  | .duplicateEvent name => "event '" ++ name ++ "' is already declared"
  | .unknownState name => "unknown state '" ++ name ++ "'"
  | .unknownEvent name => "unknown event '" ++ name ++ "'"
  | .duplicateTransition source via =>
    "duplicate transition '" ++ source ++ "' -> '" ++ via ++ "'"
  | .eventAmongDirect name =>
    mixed ("event '" ++ name ++ "' declared in a machine with direct transitions")
  | .directAmongEvents source target =>
    mixed ("direct transition '" ++ source ++ "' -> '" ++ target
      ++ "' in an event-driven machine")
  | .unknownOption key => "unknown option '" ++ key ++ "'"
  | .invalidOptionValue key value =>
    "invalid value '" ++ value ++ "' for option '" ++ key ++ "'"
  | .unsupportedHook source via =>
    "callbacks cannot be attached to transition '" ++ source ++ "' -> '" ++ via ++ "'"
  | .duplicateInitial name => "state '" ++ name ++ "' is already an initial state"
  | .unknownTransition source via hook =>
    "no transition '" ++ source ++ "' -> '" ++ via ++ "' to attach '" ++ hook ++ "' to"
  | .nameConflict name kind existing =>
    kind.word ++ " '" ++ name ++ "' clashes with the " ++ existing.words ++ " of the same name"
  | .hookKindConflict name => "'" ++ name ++ "' is used both as a precondition and as a callback"
  | .reservedName name kind =>
    kind.word ++ " name '" ++ name ++ "' is reserved in generated code"
  | .noStates => "no states declared"
  | .singleState => "only one state declared; a machine needs at least two"
  | .noInitialState => "no initial state declared"

/-- The diagnostic code of a rejection. -/
def code : Error → Diagnostic.Code
  | .duplicateState _ => .duplicateState
  | .duplicateEvent _ => .duplicateEvent
  | .unknownState _ => .unknownState
  | .unknownEvent _ => .unknownEvent
  | .duplicateTransition .. => .duplicateTransition
  | .eventAmongDirect _ => .mixedTransitions
  | .directAmongEvents .. => .mixedTransitions
  | .unknownOption _ => .unknownOption
  | .invalidOptionValue .. => .invalidOptionValue
  | .unsupportedHook .. => .unsupportedHook
  | .duplicateInitial _ => .duplicateInitial
  | .unknownTransition .. => .unknownTransition
  | .nameConflict .. => .nameConflict
  | .hookKindConflict _ => .hookKindConflict
  | .reservedName .. => .reservedName
  | .noStates => .noStates
  | .singleState => .singleState
  | .noInitialState => .noInitialState

/-- A hint, where one helps. -/
def suggestion : Error → Option String
  | .unknownOption _ => some ("valid options: " ++ ", ".intercalate Config.keys)
  | .invalidOptionValue key _ =>
    some <|
      if key = "callback_order" then "use 'exit-event-entry' or 'exit-entry-event'"
      else if Config.isIdentifierKey key then "the value must be a C identifier"
      else "quotes, backslashes, '*/' and control characters are not allowed"
  | .noInitialState => some "mark a state with 'initial' or add an 'initial-state' line"
  | .hookKindConflict _ =>
    some "guards return int and callbacks return void; give them distinct names"
  | .eventAmongDirect _ | .directAmongEvents .. =>
    some "use either 'on EVENT -> STATE' or 'next-state' throughout"
  | _ => none

end Error

end StateGen.Model
