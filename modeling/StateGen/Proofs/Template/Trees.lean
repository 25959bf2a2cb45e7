import StateGen.Proofs.Template.Layout
import StateGen.Template.Builtin

/-!
# The trees of the built-in templates

The built-in templates as trees, section by section. What a template has several times with other
names, such as the functions that run hooks, is one tree with these names as parameters.
-/

namespace StateGen.Template.Builtin

/-- A part for machines that are advanced by events. -/
def ifEventDriven (body : List Node) : List Node := choose "event_driven" body []

/-! ## The C source -/

namespace SourceTree

/-- The comment at the top and the includes. -/
def banner : List Node :=
  block
    [.text "/*",
      (Line.text " * State machine generated by cfsm from ").put "input_path" ".",
      .text " * Do not edit; regenerate from the description instead.",
      .text " */",
      .text "",
      .text "#include <stdlib.h>",
      .text "",
      (Line.text "#include \"").put "header_name" "\"",
      .text ""]

/-- What hooks are given. -/
def hookMacros : List Node :=
  choose "event_driven"
    (block
      [((Line.text "#define HOOK_PARAMS\tenum ").put "state_enum" " current, enum ").put
          "state_enum" " next, \\",
        (Line.text "\t\t\tenum ").put "event_enum" " ev, void *ctx",
        .text "#define HOOK_ARGS\tcurrent, next, ev, ctx"])
    (block
      [((Line.text "#define HOOK_PARAMS\tenum ").put "state_enum" " current, enum ").put
          "state_enum" " next, \\",
        .text "\t\t\tvoid *ctx",
        .text "#define HOOK_ARGS\tcurrent, next, ctx"])
  ++ block [.text ""]

/-- The prototypes of the hooks in a list, below some lines. -/
def prototypes (head : List Line) (type list : String) : List Node :=
  choose list
    (block head ++ each "name" list (block [(Line.text type).put "name" "(HOOK_PARAMS);"])
      ++ block [.text ""]) []

/-- The structure of a machine. -/
def struct : List Node :=
  block
    [(Line.text "struct ").put "fsm_struct" " \x7b",
      (Line.text "\tenum ").put "state_enum" " current;",
      .text "\tvoid *init_ctx;",
      .text "\x7d;"]

/-- The names of states or events. -/
def nameTable (enum table : String) : List Node :=
  block [.text "", (Line.text "static const char *").put enum "_names[] = \x7b"]
  ++ eachEntry "name" "ordinal" table (block [(Line.text "\t\"").put "name" "\","])
  ++ block [.text "\x7d;"]

/-- The functions that look names up. -/
def nameLookups (func safeFunc enum low high arg : String) : List Node :=
  block
    [.text "",
      .text "const char *",
      (Line.value func "(enum ").put enum (" " ++ arg ++ ")"),
      .text "\x7b",
      ((Line.text ("\tif ((int)" ++ arg ++ " < ")).put low (" || (int)" ++ arg ++ " > ")).put
        high ")",
      .text "\t\treturn NULL;",
      (Line.text "\treturn ").put enum ("_names[" ++ arg ++ "];"),
      .text "\x7d",
      .text "",
      .text "const char *",
      (Line.value safeFunc "(enum ").put enum (" " ++ arg ++ ")"),
      .text "\x7b",
      (Line.text "\tconst char *name = ").put func ("(" ++ arg ++ ");"),
      .text "",
      (Line.text "\treturn name == NULL ? \"").put "invalid_name" "\" : name;",
      .text "\x7d"]

/-- The function that makes a machine. -/
def init : List Node :=
  block
    [.text "",
      .text "int",
      ((Line.value "init_func" "(struct ").put "fsm_struct" " **fsmp, enum ").put "state_enum"
        " initial_state,",
      .text "    void *ctx)",
      .text "\x7b",
      (Line.text "\tstruct ").put "fsm_struct" " *fsm;",
      .text "",
      .text "\t*fsmp = NULL;",
      .text "\tswitch (initial_state) \x7b"]
  ++ each "name" "initial_states" (block [(Line.text "\tcase ").put "name" ":"])
  ++ block
    [.text "\t\tbreak;",
      .text "\tdefault:",
      .text "\t\treturn CFSM_ERR_INVALID_STATE;",
      .text "\t\x7d",
      .text "\t/* No status code distinguishes allocation failure. */",
      .text "\tif ((fsm = calloc(1, sizeof(*fsm))) == NULL)",
      .text "\t\treturn CFSM_ERR_INVALID_STATE;",
      .text "\tfsm->current = initial_state;",
      .text "\tfsm->init_ctx = ctx;",
      .text "\t*fsmp = fsm;",
      .text "\treturn CFSM_OK;",
      .text "\x7d"]

/-- The functions that free a machine and tell its state. -/
def accessors : List Node :=
  block
    [.text "",
      .text "void",
      (Line.value "free_func" "(struct ").put "fsm_struct" " *fsm)",
      .text "\x7b",
      .text "\tfree(fsm);",
      .text "\x7d",
      .text "",
      (Line.text "enum ").last "state_enum",
      (Line.value "current_state_func" "(const struct ").put "fsm_struct" " *fsm)",
      .text "\x7b",
      .text "\treturn fsm->current;",
      .text "\x7d",
      .text "",
      .text "/* Guard chains: 0 when every precondition passes. */"]

/-- The arm of a state or an event that has guards. -/
def guardArm (key : String) : List Node :=
  choose "guards"
    (block [(Line.text "\tcase ").put key ":"]
      ++ each "guard" "guards"
        (block
          [(Line.text "\t\tif (").put "guard" "(HOOK_ARGS) != 0)",
            .text "\t\t\treturn -1;"])
      ++ block [.text "\t\tbreak;"]) []

/-- A function that asks the guards which a table has for a state or an event. -/
def guardFunction (hook subject key table : String) : List Node :=
  block
    [.text "",
      .text "static int",
      Line.value "fsm_struct" ("_" ++ hook ++ "_preconds(HOOK_PARAMS)"),
      .text "\x7b",
      .text ("\tswitch (" ++ subject ++ ") \x7b")]
  ++ eachEntry key "guards" table (guardArm key)
  ++ block
    [.text "\tdefault:",
      .text "\t\tbreak;",
      .text "\t\x7d",
      .text "\treturn 0;",
      .text "\x7d"]

/-- The arm of an edge that has guards. -/
def edgeGuardArm : List Node :=
  choose ⟨"edge", [.key "preconds"]⟩
    (block [(Line.text "\t\tcase ").put "key" ":"]
      ++ each "guard" ⟨"edge", [.key "preconds"]⟩
        (block
          [(Line.text "\t\t\tif (").put "guard" "(HOOK_ARGS) != 0)",
            .text "\t\t\t\treturn -1;"])
      ++ block [.text "\t\t\tbreak;"]) []

/-- The arm of a state, which has the arms of its edges. -/
def edgeGuardArms : List Node :=
  block [(Line.text "\tcase ").put "state" ":"]
  ++ choose "event_driven" (block [.text "\t\tswitch (ev) \x7b"])
    (block [.text "\t\tswitch (next) \x7b"])
  ++ eachEntry "key" "edge" "edges" edgeGuardArm
  ++ block
    [.text "\t\tdefault:",
      .text "\t\t\tbreak;",
      .text "\t\t\x7d",
      .text "\t\tbreak;"]

/-- The function that asks the guards of an edge. -/
def edgeGuardFunction : List Node :=
  block
    [.text "",
      .text "static int",
      Line.value "fsm_struct" "_edge_preconds(HOOK_PARAMS)",
      .text "\x7b",
      .text "\tswitch (current) \x7b"]
  ++ eachEntry "state" "edges" "transitions" edgeGuardArms
  ++ block
    [.text "\tdefault:",
      .text "\t\tbreak;",
      .text "\t\x7d",
      .text "\treturn 0;",
      .text "\x7d"]

/-- The arm of a state or an event that has callbacks. -/
def callbackArm (key : String) : List Node :=
  choose "callbacks"
    (block [(Line.text "\tcase ").put key ":"]
      ++ each "callback" "callbacks" (block [(Line.text "\t\t").put "callback" "(HOOK_ARGS);"])
      ++ block [.text "\t\tbreak;"]) []

/-- A function that runs the callbacks which a table has for a state or an event. -/
def callbackFunction (hook subject key table : String) : List Node :=
  block
    [.text "",
      .text "static void",
      Line.value "fsm_struct" ("_" ++ hook ++ "_callbacks(HOOK_PARAMS)"),
      .text "\x7b",
      .text ("\tswitch (" ++ subject ++ ") \x7b")]
  ++ eachEntry key "callbacks" table (callbackArm key)
  ++ block
    [.text "\tdefault:",
      .text "\t\tbreak;",
      .text "\t\x7d",
      .text "\x7d"]

/-- What both forms of the advance function end their lookup with. -/
def lookupEnd : List Node :=
  block
    [.text "\tdefault:",
      .text "\t\treturn CFSM_ERR_INVALID_TRANSITION;",
      .text "\t\x7d",
      .text ""]

/-- The arm of a state in which an event selects the edge. -/
def eventArm : List Node :=
  block [(Line.text "\tcase ").put "state" ":", .text "\t\tswitch (ev) \x7b"]
  ++ eachEntry "key" "edge" "edges"
    (block
      [(Line.text "\t\tcase ").put "key" ":",
        (Line.text "\t\t\tnext = ").put ⟨"edge", [.key "target"]⟩ ";",
        .text "\t\t\tbreak;"])
  ++ block
    [.text "\t\tdefault:",
      .text "\t\t\treturn CFSM_ERR_INVALID_TRANSITION;",
      .text "\t\t\x7d",
      .text "\t\tbreak;"]

/-- The advance function of a machine with events, up to the callbacks. -/
def advanceByEvent : List Node :=
  block
    [((Line.value "advance_func" "(struct ").put "fsm_struct" " *fsm, enum ").put "event_enum"
        " ev, void *ctx)",
      .text "\x7b",
      (Line.text "\tenum ").put "state_enum" " current = fsm->current, next;",
      .text "",
      .text "\tswitch (current) \x7b"]
  ++ eachEntry "state" "edges" "transitions" eventArm
  ++ lookupEnd
  ++ block
    [(Line.text "\tif (").put "fsm_struct" "_exit_preconds(HOOK_ARGS) != 0 ||",
      (Line.text "\t    ").put "fsm_struct" "_event_preconds(HOOK_ARGS) != 0 ||",
      (Line.text "\t    ").put "fsm_struct" "_edge_preconds(HOOK_ARGS) != 0 ||",
      (Line.text "\t    ").put "fsm_struct" "_entry_preconds(HOOK_ARGS) != 0)",
      .text "\t\treturn CFSM_ERR_PRECONDITION;",
      .text "",
      (Line.text "\t").put "fsm_struct" "_exit_callbacks(HOOK_ARGS);"]
  ++ choose "event_callback_first"
    (block
      [(Line.text "\t").put "fsm_struct" "_event_callbacks(HOOK_ARGS);",
        (Line.text "\t").put "fsm_struct" "_entry_callbacks(HOOK_ARGS);"])
    (block
      [(Line.text "\t").put "fsm_struct" "_entry_callbacks(HOOK_ARGS);",
        (Line.text "\t").put "fsm_struct" "_event_callbacks(HOOK_ARGS);"])

/-- The arm of a state in which the request names the target. -/
def targetArm : List Node :=
  block [(Line.text "\tcase ").put "state" ":", .text "\t\tswitch (next) \x7b"]
  ++ eachEntry "key" "edge" "edges" (block [(Line.text "\t\tcase ").put "key" ":"])
  ++ block
    [.text "\t\t\tbreak;",
      .text "\t\tdefault:",
      .text "\t\t\treturn CFSM_ERR_INVALID_TRANSITION;",
      .text "\t\t\x7d",
      .text "\t\tbreak;"]

/-- The advance function of a machine without events, up to the callbacks. -/
def advanceToTarget : List Node :=
  block
    [((Line.value "advance_func" "(struct ").put "fsm_struct" " *fsm, enum ").put "state_enum"
        " next, void *ctx)",
      .text "\x7b",
      (Line.text "\tenum ").put "state_enum" " current = fsm->current;",
      .text "",
      .text "\tswitch (current) \x7b"]
  ++ eachEntry "state" "edges" "transitions" targetArm
  ++ lookupEnd
  ++ block
    [(Line.text "\tif (").put "fsm_struct" "_exit_preconds(HOOK_ARGS) != 0 ||",
      (Line.text "\t    ").put "fsm_struct" "_edge_preconds(HOOK_ARGS) != 0 ||",
      (Line.text "\t    ").put "fsm_struct" "_entry_preconds(HOOK_ARGS) != 0)",
      .text "\t\treturn CFSM_ERR_PRECONDITION;",
      .text "",
      (Line.text "\t").put "fsm_struct" "_exit_callbacks(HOOK_ARGS);",
      (Line.text "\t").put "fsm_struct" "_entry_callbacks(HOOK_ARGS);"]

/-- The advance function. -/
def advance : List Node :=
  block [.text "", .text "int"]
  ++ choose "event_driven" advanceByEvent advanceToTarget
  ++ block
    [.text "\tfsm->current = next;",
      .text "\treturn CFSM_OK;",
      .text "\x7d"]

end SourceTree

open SourceTree in
/-- The tree of the C source. -/
def sourceTree : List Node :=
  banner
  ++ hookMacros
  ++ prototypes [.text "/* Preconditions: return 0 to allow the transition. */"] "int "
    "precondition_names"
  ++ prototypes [] "void " "callback_names"
  ++ struct
  ++ nameTable "state_enum" "states"
  ++ ifEventDriven (nameTable "event_enum" "events")
  ++ nameLookups "state_ntop_func" "state_ntop_safe_func" "state_enum" "min_state_valid"
    "max_state_valid" "s"
  ++ ifEventDriven (nameLookups "event_ntop_func" "event_ntop_safe_func" "event_enum"
    "min_event_valid" "max_event_valid" "ev")
  ++ init
  ++ accessors
  ++ guardFunction "exit" "current" "state" "transition_exit_preconds"
  ++ ifEventDriven (guardFunction "event" "ev" "event" "event_preconds")
  ++ edgeGuardFunction
  ++ guardFunction "entry" "next" "state" "transition_entry_preconds"
  ++ callbackFunction "exit" "current" "state" "transition_exit_callbacks"
  ++ ifEventDriven (callbackFunction "event" "ev" "event" "event_callbacks")
  ++ callbackFunction "entry" "next" "state" "transition_entry_callbacks"
  ++ advance

/-! ## The C header -/

namespace HeaderTree

/-- The comment at the top, the guard against including twice and the status codes. -/
def banner : List Node :=
  block
    [.text "/*",
      (Line.text " * ").put "header_name" ": state machine interface generated by cfsm from",
      (Line.text " * ").put "input_path" ". Do not edit; regenerate from the description instead.",
      .text " */",
      .text "",
      (Line.text "#ifndef ").last "header_guard",
      (Line.text "#define ").last "header_guard",
      .text "",
      (Line.text "#define CFSM_OK\t\t\t\t").last "status_ok",
      (Line.text "#define CFSM_ERR_INVALID_STATE\t\t").last "status_invalid_state",
      (Line.text "#define CFSM_ERR_INVALID_TRANSITION\t").last "status_invalid_transition",
      (Line.text "#define CFSM_ERR_PRECONDITION\t\t").last "status_precondition"]

/-- The enumeration of the states or of the events. -/
def enumeration (enum table : String) : List Node :=
  block [.text "", ((Line.text "enum ").put enum " \x7b")]
  ++ eachEntry "name" "ordinal" table
    (block [((Line.text "\t").put "name" " = ").put "ordinal" ","])
  ++ block [.text "\x7d;"]

/-- The functions that make, free and advance a machine and tell its state. -/
def interface : List Node :=
  block
    [.text "",
      (Line.text "struct ").put "fsm_struct" ";",
      .text "",
      .text "/* Allocate a machine in initial_state; *fsmp is NULL unless CFSM_OK. */",
      ((Line.text "int ").put "init_func" "(struct ").put "fsm_struct" " **fsmp,",
      (Line.text "    enum ").put "state_enum" " initial_state, void *ctx);",
      ((Line.text "void ").put "free_func" "(struct ").put "fsm_struct" " *fsm);",
      (((Line.text "enum ").put "state_enum" " ").put "current_state_func" "(const struct ").put
        "fsm_struct" " *fsm);"]
  ++ choose "event_driven"
    (block
      [(((Line.text "int ").put "advance_func" "(struct ").put "fsm_struct" " *fsm, enum ").put
          "event_enum" " ev,",
        .text "    void *ctx);"])
    (block
      [(((Line.text "int ").put "advance_func" "(struct ").put "fsm_struct" " *fsm, enum ").put
          "state_enum" " next,",
        .text "    void *ctx);"])

/-- The functions that look names up, and the end. -/
def nameLookups : List Node :=
  block
    [.text "",
      .text "/* NULL for values outside the enum. */",
      ((Line.text "const char *").put "state_ntop_func" "(enum ").put "state_enum" " s);",
      (Line.text "/* \"").put "invalid_name" "\" for values outside the enum. */",
      ((Line.text "const char *").put "state_ntop_safe_func" "(enum ").put "state_enum" " s);"]
  ++ ifEventDriven (block
    [((Line.text "const char *").put "event_ntop_func" "(enum ").put "event_enum" " ev);",
      ((Line.text "const char *").put "event_ntop_safe_func" "(enum ").put "event_enum" " ev);"])
  ++ block [.text "", (Line.text "#endif /* ").put "header_guard" " */"]

end HeaderTree

open HeaderTree in
/-- The tree of the C header. -/
def headerTree : List Node :=
  banner
  ++ enumeration "state_enum" "states"
  ++ ifEventDriven (enumeration "event_enum" "events")
  ++ interface
  ++ nameLookups

/-! ## The diagram -/

/-- The arrow of an edge. -/
def arrow : List Node :=
  choose "event_driven"
    (block
      [(((Line.text "\t").put "state" " -> ").put ⟨"edge", [.key "target"]⟩ " [label=\"").put
        ⟨"edge", [.key "event"]⟩ "\"];"])
    (block [((Line.text "\t").put "state" " -> ").put ⟨"edge", [.key "target"]⟩ ";"])

/-- The tree of the Graphviz diagram. -/
def graphvizTree : List Node :=
  block
    [(Line.text "/* Generated by cfsm from ").put "input_path" " */",
      .text "",
      (Line.text "digraph ").put "fsm_struct" " \x7b",
      .text "\tnode [shape=circle];"]
  ++ each "name" "initial_states" (block [(Line.text "\t").put "name" " [peripheries=2];"])
  ++ eachEntry "name" "ordinal" "states" (block [(Line.text "\t").put "name" ";"])
  ++ block [.text ""]
  ++ eachEntry "state" "edges" "transitions"
    (eachEntry "key" "edge" "edges" arrow)
  ++ block [.text "\x7d"]

/-! ## The texts of the trees

The rules of `Spells` follow the trees; what remains are comparisons of lists of characters. -/

/-- The tree of the C source is that of its template. -/
theorem spells_sourceTree : Spells sourceTree sourceLines [] := by
  unfold sourceTree sourceLines SourceTree.banner SourceTree.hookMacros SourceTree.prototypes
    SourceTree.struct SourceTree.nameTable SourceTree.nameLookups SourceTree.init
    SourceTree.accessors SourceTree.guardFunction SourceTree.guardArm
    SourceTree.edgeGuardFunction SourceTree.edgeGuardArms SourceTree.edgeGuardArm
    SourceTree.callbackFunction SourceTree.callbackArm SourceTree.advance
    SourceTree.advanceByEvent SourceTree.eventArm SourceTree.advanceToTarget SourceTree.targetArm
    SourceTree.lookupEnd ifEventDriven
  repeat with_reducible first
    | apply Spells.append
    | apply Spells.block_nil
    | apply Spells.block_cons
    | apply Spells.each
    | apply Spells.eachEntry
    | apply Spells.choose_nil
    | apply Spells.choose_cons
    | apply Line.Spelled.put
    | apply Line.Spelled.last
    | apply Line.Spelled.value
    | apply Line.Spelled.text
    | apply Path.Spelled.name
    | apply Path.Spelled.field
    | apply Spelled.append
    | apply Spelled.literal
    | decide +kernel

/-- The tree of the C header is that of its template. -/
theorem spells_headerTree : Spells headerTree headerLines [] := by
  unfold headerTree headerLines HeaderTree.banner HeaderTree.enumeration HeaderTree.interface
    HeaderTree.nameLookups ifEventDriven
  repeat with_reducible first
    | apply Spells.append
    | apply Spells.block_nil
    | apply Spells.block_cons
    | apply Spells.eachEntry
    | apply Spells.choose_nil
    | apply Spells.choose_cons
    | apply Line.Spelled.put
    | apply Line.Spelled.last
    | apply Line.Spelled.text
    | apply Path.Spelled.name
    | apply Spelled.literal
    | decide +kernel

/-- The tree of the diagram is that of its template. -/
theorem spells_graphvizTree : Spells graphvizTree graphvizLines [] := by
  unfold graphvizTree graphvizLines arrow
  repeat with_reducible first
    | apply Spells.append
    | apply Spells.block_nil
    | apply Spells.block_cons
    | apply Spells.each
    | apply Spells.eachEntry
    | apply Spells.choose_cons
    | apply Line.Spelled.put
    | apply Line.Spelled.text
    | apply Path.Spelled.name
    | apply Path.Spelled.field
    | apply Spelled.literal
    | decide +kernel

end StateGen.Template.Builtin
