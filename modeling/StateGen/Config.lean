import StateGen.Status
import StateGen.Text

/-!
# Options and reserved names

The options of a machine name the functions, types and files of the generated code. Their values
are checked so that they cannot break out of the places where templates put them.
-/

namespace StateGen.Config

/-- Every option with its default. -/
def defaults : List (String × String) :=
  [("header_name", "fsm.h"),
    ("header_guard", "_FSM_H"),
    ("state_enum", "fsm_state"),
    ("event_enum", "fsm_event"),
    ("fsm_struct", "fsm"),
    ("init_func", "fsm_init"),
    ("free_func", "fsm_free"),
    ("advance_func", "fsm_advance"),
    ("current_state_func", "fsm_current_state"),
    ("state_ntop_func", "fsm_state_ntop"),
    ("state_ntop_safe_func", "fsm_state_ntop_safe"),
    ("event_ntop_func", "fsm_event_ntop"),
    ("event_ntop_safe_func", "fsm_event_ntop_safe"),
    ("invalid_name", "[INVALID]"),
    ("callback_order", "exit-event-entry")]

/-- The options whose value becomes a C identifier. -/
def identifierKeys : List String :=
  ["header_guard", "state_enum", "event_enum", "fsm_struct", "init_func", "free_func",
    "advance_func", "current_state_func", "state_ntop_func", "state_ntop_safe_func",
    "event_ntop_func", "event_ntop_safe_func"]

/-- The identifier options that name tags of enumerations and structures, which have a name space
of their own in C. -/
def tagKeys : List String := ["state_enum", "event_enum", "fsm_struct"]

/-- The identifier options that name functions and macros. -/
def functionKeys : List String := identifierKeys.filter (!tagKeys.contains ·)

/-- Names that the generated code binds already: parameters and locals of the functions into which
state, event and hook names are put, macros, library calls and C keywords. -/
def reservedNames : List String :=
  ["current", "next", "ev", "ctx", "fsm", "fsmp", "initial_state",
    "HOOK_PARAMS", "HOOK_ARGS", "CFSM_OK", "CFSM_ERR_INVALID_STATE",
    "CFSM_ERR_INVALID_TRANSITION", "CFSM_ERR_PRECONDITION", "NULL", "calloc", "free",
    "auto", "break", "case", "char", "const", "continue", "default", "do", "double",
    "else", "enum", "extern", "float", "for", "goto", "if", "inline", "int", "long",
    "register", "restrict", "return", "short", "signed", "sizeof", "static", "struct",
    "switch", "typedef", "union", "unsigned", "void", "volatile", "while", "_Bool",
    "_Complex", "_Imaginary"]

/-- The keys of all options. -/
def keys : List String := defaults.map (·.1)

/-- Whether a key is one of an option. -/
def isKey (key : String) : Bool := keys.contains key

/-- Whether the value of an option becomes a C identifier. -/
def isIdentifierKey (key : String) : Bool := identifierKeys.contains key

/-- Whether a name is bound by the generated code itself. -/
def isReserved (name : String) : Bool := reservedNames.contains name

/-- Text that can stand in a C string and in a block comment. -/
def isPlainText (value : String) : Bool :=
  !Text.contains ['*', '/'] value.toList
    && !value.toList.any fun c ↦ c == '"' || c == '\\' || Text.isControl c

/-- Put a backslash into every end of a comment. -/
def breakCommentEnds : List Char → List Char
  | '*' :: '/' :: cs => '*' :: '\\' :: '/' :: breakCommentEnds cs
  | c :: cs => c :: breakCommentEnds cs
  | [] => []

/-- A path that can stand in a block comment: ends of comments are broken up and control
characters replaced. -/
def forComment (path : String) : String :=
  String.ofList ((breakCommentEnds path.toList).map fun c ↦ if Text.isControl c then '?' else c)

/-- Whether a value is fit for an option that exists. -/
def isValid (key value : String) : Bool :=
  if key = "callback_order" then (CallbackOrder.ofName value).isOk
  else if isIdentifierKey key then Text.isIdentifier value
  else !value.isEmpty && isPlainText value

end StateGen.Config
