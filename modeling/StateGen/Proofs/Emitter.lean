import StateGen.Machine.Spec
import StateGen.Proofs.Template.Layout

/-!
# Writing generated code directly

The C source, the C header and the diagram of a machine, written from the machine that runs. The
emitter knows no templates and no namespace: it reads the machine, the values of the options, the
path of the description, and the lists of hooks that exist.
-/

namespace StateGen

/-- What generated code depends on besides the machine. -/
structure Settings where
  /-- The path of the description, fit for a comment. -/
  inputPath : String
  option : String → String
  /-- The guards in the order of their first use. -/
  guardNames : List String
  /-- The callbacks in the order of their first use. -/
  callbackNames : List String

namespace Settings

/-- The text under a key of a namespace. -/
def textAt (root : Value) (key : String) : String :=
  match root.get? key with
  | some (.str s) => s
  | _ => ""

/-- The names under a key of a namespace. -/
def namesAt (root : Value) (key : String) : List String :=
  match root.get? key with
  | some v => (Machine.names v).toOption.getD []
  | none => []

/-- The settings that a namespace holds. -/
def ofNamespace (root : Value) : Settings where
  inputPath := textAt root "input_path"
  option := textAt root
  guardNames := namesAt root "precondition_names"
  callbackNames := namesAt root "callback_names"

end Settings

namespace Emitter

open Machine
open Template (lines)

/-- One text for every element. -/
abbrev each {α : Type} (xs : List α) (f : α → String) : String := String.join (xs.map f)

/-- The names of the initial states. -/
def initialNames (spec : Spec) : List String := spec.initial.map fun i : Nat ↦ spec.stateNameD i

variable (cfg : Settings) (spec : Spec)

/-! ## The C source -/

/-- The comment at the top and the includes. -/
def sourceBanner : String :=
  lines
    ["/*",
      " * State machine generated by cfsm from " ++ cfg.inputPath ++ ".",
      " * Do not edit; regenerate from the description instead.",
      " */",
      "",
      "#include <stdlib.h>",
      "",
      "#include \"" ++ cfg.option "header_name" ++ "\"",
      ""]

/-- What hooks are given: the event only in machines that have events. -/
def hookMacros : String :=
  (if spec.eventDriven then
    lines
      ["#define HOOK_PARAMS\tenum " ++ cfg.option "state_enum" ++ " current, enum "
          ++ cfg.option "state_enum" ++ " next, \\",
        "\t\t\tenum " ++ cfg.option "event_enum" ++ " ev, void *ctx",
        "#define HOOK_ARGS\tcurrent, next, ev, ctx"]
  else
    lines
      ["#define HOOK_PARAMS\tenum " ++ cfg.option "state_enum" ++ " current, enum "
          ++ cfg.option "state_enum" ++ " next, \\",
        "\t\t\tvoid *ctx",
        "#define HOOK_ARGS\tcurrent, next, ctx"])
  ++ lines [""]

/-- The prototypes of hooks, if there are any. -/
def prototypes (head : List String) (type : String) (names : List String) : String :=
  if names.isEmpty then ""
  else
    lines head ++ each names (fun name ↦ lines [type ++ name ++ "(HOOK_PARAMS);"]) ++ lines [""]

/-- The structure of a machine. -/
def struct : String :=
  lines
    ["struct " ++ cfg.option "fsm_struct" ++ " \x7b",
      "\tenum " ++ cfg.option "state_enum" ++ " current;",
      "\tvoid *init_ctx;",
      "\x7d;"]

/-- A table of names in the order of their numbers. -/
def nameTable (enum : String) (names : List String) : String :=
  lines ["", "static const char *" ++ enum ++ "_names[] = \x7b"]
  ++ each names (fun name ↦ lines ["\t\"" ++ name ++ "\","])
  ++ lines ["\x7d;"]

/-- The functions that look a name up among `count` names. -/
def nameLookups (func safeFunc enum arg : String) (count : Nat) : String :=
  lines
    ["",
      "const char *",
      func ++ "(enum " ++ enum ++ (" " ++ arg ++ ")"),
      "\x7b",
      "\tif ((int)" ++ arg ++ " < " ++ "0" ++ (" || (int)" ++ arg ++ " > ")
        ++ toString (count - 1) ++ ")",
      "\t\treturn NULL;",
      "\treturn " ++ enum ++ ("_names[" ++ arg ++ "];"),
      "\x7d",
      "",
      "const char *",
      safeFunc ++ "(enum " ++ enum ++ (" " ++ arg ++ ")"),
      "\x7b",
      "\tconst char *name = " ++ func ++ ("(" ++ arg ++ ");"),
      "",
      "\treturn name == NULL ? \"" ++ spec.invalidName ++ "\" : name;",
      "\x7d"]

/-- The function that makes a machine in one of the initial states. -/
def init : String :=
  lines
    ["",
      "int",
      cfg.option "init_func" ++ "(struct " ++ cfg.option "fsm_struct" ++ " **fsmp, enum "
        ++ cfg.option "state_enum" ++ " initial_state,",
      "    void *ctx)",
      "\x7b",
      "\tstruct " ++ cfg.option "fsm_struct" ++ " *fsm;",
      "",
      "\t*fsmp = NULL;",
      "\tswitch (initial_state) \x7b"]
  ++ each (initialNames spec) (fun name ↦ lines ["\tcase " ++ name ++ ":"])
  ++ lines
    ["\t\tbreak;",
      "\tdefault:",
      "\t\treturn CFSM_ERR_INVALID_STATE;",
      "\t\x7d",
      "\t/* No status code distinguishes allocation failure. */",
      "\tif ((fsm = calloc(1, sizeof(*fsm))) == NULL)",
      "\t\treturn CFSM_ERR_INVALID_STATE;",
      "\tfsm->current = initial_state;",
      "\tfsm->init_ctx = ctx;",
      "\t*fsmp = fsm;",
      "\treturn CFSM_OK;",
      "\x7d"]

/-- The functions that free a machine and tell its state. -/
def accessors : String :=
  lines
    ["",
      "void",
      cfg.option "free_func" ++ "(struct " ++ cfg.option "fsm_struct" ++ " *fsm)",
      "\x7b",
      "\tfree(fsm);",
      "\x7d",
      "",
      "enum " ++ cfg.option "state_enum",
      cfg.option "current_state_func" ++ "(const struct " ++ cfg.option "fsm_struct" ++ " *fsm)",
      "\x7b",
      "\treturn fsm->current;",
      "\x7d",
      "",
      "/* Guard chains: 0 when every precondition passes. */"]

/-- The arm of a state or an event that asks its guards in order; without guards there is none. -/
def guardArm (name : String) (guards : List String) : String :=
  if guards.isEmpty then ""
  else
    lines ["\tcase " ++ name ++ ":"]
    ++ each guards (fun guard ↦
      lines ["\t\tif (" ++ guard ++ "(HOOK_ARGS) != 0)", "\t\t\treturn -1;"])
    ++ lines ["\t\tbreak;"]

/-- A function that asks the guards of a state or an event. -/
def guardFunction {α : Type} (hook subject : String) (xs : List α) (name : α → String)
    (guards : α → List String) : String :=
  lines
    ["",
      "static int",
      cfg.option "fsm_struct" ++ ("_" ++ hook ++ "_preconds(HOOK_PARAMS)"),
      "\x7b",
      "\tswitch (" ++ subject ++ ") \x7b"]
  ++ each xs (fun x ↦ guardArm (name x) (guards x))
  ++ lines
    ["\tdefault:",
      "\t\tbreak;",
      "\t\x7d",
      "\treturn 0;",
      "\x7d"]

/-- The arm of an edge that asks its guards in order; without guards there is none. -/
def edgeGuardArm (e : Edge) : String :=
  if e.preconditions.isEmpty then ""
  else
    lines ["\t\tcase " ++ e.key ++ ":"]
    ++ each e.preconditions (fun guard ↦
      lines ["\t\t\tif (" ++ guard ++ "(HOOK_ARGS) != 0)", "\t\t\t\treturn -1;"])
    ++ lines ["\t\t\tbreak;"]

/-- The arm of a state, which has the arms of its edges. -/
def edgeGuardArms (s : State) : String :=
  lines ["\tcase " ++ s.name ++ ":"]
  ++ (if spec.eventDriven then lines ["\t\tswitch (ev) \x7b"]
    else lines ["\t\tswitch (next) \x7b"])
  ++ each s.edges edgeGuardArm
  ++ lines
    ["\t\tdefault:",
      "\t\t\tbreak;",
      "\t\t\x7d",
      "\t\tbreak;"]

/-- The function that asks the guards of an edge. -/
def edgeGuardFunction : String :=
  lines
    ["",
      "static int",
      cfg.option "fsm_struct" ++ "_edge_preconds(HOOK_PARAMS)",
      "\x7b",
      "\tswitch (current) \x7b"]
  ++ each spec.states (edgeGuardArms spec)
  ++ lines
    ["\tdefault:",
      "\t\tbreak;",
      "\t\x7d",
      "\treturn 0;",
      "\x7d"]

/-- The arm of a state or an event that runs its callbacks in order; without callbacks there is
none. -/
def callbackArm (name : String) (callbacks : List String) : String :=
  if callbacks.isEmpty then ""
  else
    lines ["\tcase " ++ name ++ ":"]
    ++ each callbacks (fun callback ↦ lines ["\t\t" ++ callback ++ "(HOOK_ARGS);"])
    ++ lines ["\t\tbreak;"]

/-- A function that runs the callbacks of a state or an event. -/
def callbackFunction {α : Type} (hook subject : String) (xs : List α) (name : α → String)
    (callbacks : α → List String) : String :=
  lines
    ["",
      "static void",
      cfg.option "fsm_struct" ++ ("_" ++ hook ++ "_callbacks(HOOK_PARAMS)"),
      "\x7b",
      "\tswitch (" ++ subject ++ ") \x7b"]
  ++ each xs (fun x ↦ callbackArm (name x) (callbacks x))
  ++ lines
    ["\tdefault:",
      "\t\tbreak;",
      "\t\x7d",
      "\x7d"]

/-- What ends the lookup of an edge. -/
def lookupEnd : String :=
  lines
    ["\tdefault:",
      "\t\treturn CFSM_ERR_INVALID_TRANSITION;",
      "\t\x7d",
      ""]

/-- The arm of a state in which an event selects the edge and so the next state. -/
def eventArm (s : State) : String :=
  lines ["\tcase " ++ s.name ++ ":", "\t\tswitch (ev) \x7b"]
  ++ each s.edges (fun e ↦
    lines
      ["\t\tcase " ++ e.key ++ ":",
        "\t\t\tnext = " ++ spec.stateNameD e.target ++ ";",
        "\t\t\tbreak;"])
  ++ lines
    ["\t\tdefault:",
      "\t\t\treturn CFSM_ERR_INVALID_TRANSITION;",
      "\t\t\x7d",
      "\t\tbreak;"]

/-- The advance function of a machine with events: the event selects the edge and so the next
state; guards are asked in the order exit, event, edge, entry. -/
def advanceByEvent : String :=
  lines
    [cfg.option "advance_func" ++ "(struct " ++ cfg.option "fsm_struct" ++ " *fsm, enum "
        ++ cfg.option "event_enum" ++ " ev, void *ctx)",
      "\x7b",
      "\tenum " ++ cfg.option "state_enum" ++ " current = fsm->current, next;",
      "",
      "\tswitch (current) \x7b"]
  ++ each spec.states (eventArm spec)
  ++ lookupEnd
  ++ lines
    ["\tif (" ++ cfg.option "fsm_struct" ++ "_exit_preconds(HOOK_ARGS) != 0 ||",
      "\t    " ++ cfg.option "fsm_struct" ++ "_event_preconds(HOOK_ARGS) != 0 ||",
      "\t    " ++ cfg.option "fsm_struct" ++ "_edge_preconds(HOOK_ARGS) != 0 ||",
      "\t    " ++ cfg.option "fsm_struct" ++ "_entry_preconds(HOOK_ARGS) != 0)",
      "\t\treturn CFSM_ERR_PRECONDITION;",
      "",
      "\t" ++ cfg.option "fsm_struct" ++ "_exit_callbacks(HOOK_ARGS);"]
  ++ (if spec.callbackOrder.eventFirst then
    lines
      ["\t" ++ cfg.option "fsm_struct" ++ "_event_callbacks(HOOK_ARGS);",
        "\t" ++ cfg.option "fsm_struct" ++ "_entry_callbacks(HOOK_ARGS);"]
  else
    lines
      ["\t" ++ cfg.option "fsm_struct" ++ "_entry_callbacks(HOOK_ARGS);",
        "\t" ++ cfg.option "fsm_struct" ++ "_event_callbacks(HOOK_ARGS);"])

/-- The arm of a state in which the request names the target. -/
def targetArm (s : State) : String :=
  lines ["\tcase " ++ s.name ++ ":", "\t\tswitch (next) \x7b"]
  ++ each s.edges (fun e ↦ lines ["\t\tcase " ++ e.key ++ ":"])
  ++ lines
    ["\t\t\tbreak;",
      "\t\tdefault:",
      "\t\t\treturn CFSM_ERR_INVALID_TRANSITION;",
      "\t\t\x7d",
      "\t\tbreak;"]

/-- The advance function of a machine without events: the request names the next state; guards are
asked in the order exit, edge, entry. -/
def advanceToTarget : String :=
  lines
    [cfg.option "advance_func" ++ "(struct " ++ cfg.option "fsm_struct" ++ " *fsm, enum "
        ++ cfg.option "state_enum" ++ " next, void *ctx)",
      "\x7b",
      "\tenum " ++ cfg.option "state_enum" ++ " current = fsm->current;",
      "",
      "\tswitch (current) \x7b"]
  ++ each spec.states targetArm
  ++ lookupEnd
  ++ lines
    ["\tif (" ++ cfg.option "fsm_struct" ++ "_exit_preconds(HOOK_ARGS) != 0 ||",
      "\t    " ++ cfg.option "fsm_struct" ++ "_edge_preconds(HOOK_ARGS) != 0 ||",
      "\t    " ++ cfg.option "fsm_struct" ++ "_entry_preconds(HOOK_ARGS) != 0)",
      "\t\treturn CFSM_ERR_PRECONDITION;",
      "",
      "\t" ++ cfg.option "fsm_struct" ++ "_exit_callbacks(HOOK_ARGS);",
      "\t" ++ cfg.option "fsm_struct" ++ "_entry_callbacks(HOOK_ARGS);"]

/-- The advance function. -/
def advance : String :=
  lines ["", "int"]
  ++ (if spec.eventDriven then advanceByEvent cfg spec else advanceToTarget cfg spec)
  ++ lines
    ["\tfsm->current = next;",
      "\treturn CFSM_OK;",
      "\x7d"]

/-- A text that only machines with events have. -/
def ifEventDriven (text : String) : String := if spec.eventDriven then text else ""

/-- The C source. -/
def source : String :=
  sourceBanner cfg
  ++ hookMacros cfg spec
  ++ prototypes ["/* Preconditions: return 0 to allow the transition. */"] "int " cfg.guardNames
  ++ prototypes [] "void " cfg.callbackNames
  ++ struct cfg
  ++ nameTable (cfg.option "state_enum") (spec.states.map State.name)
  ++ ifEventDriven spec (nameTable (cfg.option "event_enum") (spec.events.map Event.name))
  ++ nameLookups spec (cfg.option "state_ntop_func") (cfg.option "state_ntop_safe_func")
    (cfg.option "state_enum") "s" spec.states.length
  ++ ifEventDriven spec (nameLookups spec (cfg.option "event_ntop_func")
    (cfg.option "event_ntop_safe_func") (cfg.option "event_enum") "ev" spec.events.length)
  ++ init cfg spec
  ++ accessors cfg
  ++ guardFunction cfg "exit" "current" spec.states State.name State.exitPreconditions
  ++ ifEventDriven spec
    (guardFunction cfg "event" "ev" spec.events Event.name Event.preconditions)
  ++ edgeGuardFunction cfg spec
  ++ guardFunction cfg "entry" "next" spec.states State.name State.entryPreconditions
  ++ callbackFunction cfg "exit" "current" spec.states State.name State.onExit
  ++ ifEventDriven spec (callbackFunction cfg "event" "ev" spec.events Event.name Event.callbacks)
  ++ callbackFunction cfg "entry" "next" spec.states State.name State.onEnter
  ++ advance cfg spec

/-! ## The C header -/

/-- The comment at the top, the guard against including twice and the status codes. -/
def headerBanner : String :=
  lines
    ["/*",
      " * " ++ cfg.option "header_name" ++ ": state machine interface generated by cfsm from",
      " * " ++ cfg.inputPath ++ ". Do not edit; regenerate from the description instead.",
      " */",
      "",
      "#ifndef " ++ cfg.option "header_guard",
      "#define " ++ cfg.option "header_guard",
      "",
      "#define CFSM_OK\t\t\t\t" ++ toString Status.ok.code,
      "#define CFSM_ERR_INVALID_STATE\t\t" ++ toString Status.invalidState.code,
      "#define CFSM_ERR_INVALID_TRANSITION\t" ++ toString Status.invalidTransition.code,
      "#define CFSM_ERR_PRECONDITION\t\t" ++ toString Status.precondition.code]

/-- An enumeration: every name with its number. -/
def enumeration (enum : String) (names : List String) : String :=
  lines ["", "enum " ++ enum ++ " \x7b"]
  ++ each names.zipIdx (fun (name, i) ↦ lines ["\t" ++ name ++ " = " ++ toString i ++ ","])
  ++ lines ["\x7d;"]

/-- The functions that make, free and advance a machine and tell its state. -/
def interface : String :=
  lines
    ["",
      "struct " ++ cfg.option "fsm_struct" ++ ";",
      "",
      "/* Allocate a machine in initial_state; *fsmp is NULL unless CFSM_OK. */",
      "int " ++ cfg.option "init_func" ++ "(struct " ++ cfg.option "fsm_struct" ++ " **fsmp,",
      "    enum " ++ cfg.option "state_enum" ++ " initial_state, void *ctx);",
      "void " ++ cfg.option "free_func" ++ "(struct " ++ cfg.option "fsm_struct" ++ " *fsm);",
      "enum " ++ cfg.option "state_enum" ++ " " ++ cfg.option "current_state_func"
        ++ "(const struct " ++ cfg.option "fsm_struct" ++ " *fsm);"]
  ++ (if spec.eventDriven then
    lines
      ["int " ++ cfg.option "advance_func" ++ "(struct " ++ cfg.option "fsm_struct"
          ++ " *fsm, enum " ++ cfg.option "event_enum" ++ " ev,",
        "    void *ctx);"]
  else
    lines
      ["int " ++ cfg.option "advance_func" ++ "(struct " ++ cfg.option "fsm_struct"
          ++ " *fsm, enum " ++ cfg.option "state_enum" ++ " next,",
        "    void *ctx);"])

/-- The prototypes of the functions that look names up, and the end. -/
def lookupPrototypes : String :=
  lines
    ["",
      "/* NULL for values outside the enum. */",
      "const char *" ++ cfg.option "state_ntop_func" ++ "(enum " ++ cfg.option "state_enum"
        ++ " s);",
      "/* \"" ++ spec.invalidName ++ "\" for values outside the enum. */",
      "const char *" ++ cfg.option "state_ntop_safe_func" ++ "(enum " ++ cfg.option "state_enum"
        ++ " s);"]
  ++ ifEventDriven spec (lines
    ["const char *" ++ cfg.option "event_ntop_func" ++ "(enum " ++ cfg.option "event_enum"
        ++ " ev);",
      "const char *" ++ cfg.option "event_ntop_safe_func" ++ "(enum " ++ cfg.option "event_enum"
        ++ " ev);"])
  ++ lines ["", "#endif /* " ++ cfg.option "header_guard" ++ " */"]

/-- The C header. -/
def header : String :=
  headerBanner cfg
  ++ enumeration (cfg.option "state_enum") (spec.states.map State.name)
  ++ ifEventDriven spec (enumeration (cfg.option "event_enum") (spec.events.map Event.name))
  ++ interface cfg spec
  ++ lookupPrototypes cfg spec

/-! ## The diagram -/

/-- The arrow of an edge; one with an event has a label. -/
def arrow (s : State) (e : Edge) : String :=
  if spec.eventDriven then
    lines
      ["\t" ++ s.name ++ " -> " ++ spec.stateNameD e.target ++ " [label=\"" ++ e.key ++ "\"];"]
  else lines ["\t" ++ s.name ++ " -> " ++ spec.stateNameD e.target ++ ";"]

/-- The Graphviz diagram. -/
def graphviz : String :=
  lines
    ["/* Generated by cfsm from " ++ cfg.inputPath ++ " */",
      "",
      "digraph " ++ cfg.option "fsm_struct" ++ " \x7b",
      "\tnode [shape=circle];"]
  ++ each (initialNames spec) (fun name ↦ lines ["\t" ++ name ++ " [peripheries=2];"])
  ++ each (spec.states.map State.name) (fun name ↦ lines ["\t" ++ name ++ ";"])
  ++ lines [""]
  ++ each spec.states (fun s ↦ each s.edges (arrow spec s))
  ++ lines ["\x7d"]

end Emitter

end StateGen
