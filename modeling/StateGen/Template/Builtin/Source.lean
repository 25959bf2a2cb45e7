/-!
# The template of the C source

Tables of names, one helper function for every kind of hook, and the functions of the interface: the
advance function looks the edge up, asks the guards, runs the callbacks and moves on.
-/

namespace StateGen.Template.Builtin

/-- The lines of the template. -/
def sourceLines : List String :=
  ["/*",
    " * State machine generated by cfsm from \x7b\x7binput_path\x7d\x7d.",
    " * Do not edit; regenerate from the description instead.",
    " */",
    "",
    "#include <stdlib.h>",
    "",
    "#include \"\x7b\x7bheader_name\x7d\x7d\"",
    "",
    "\x7b\x7bif event_driven -\x7d\x7d",
    "#define HOOK_PARAMS\tenum \x7b\x7bstate_enum\x7d\x7d current, enum \x7b\x7bstate_enum\x7d\x7d next, \\",
    "\t\t\tenum \x7b\x7bevent_enum\x7d\x7d ev, void *ctx",
    "#define HOOK_ARGS\tcurrent, next, ev, ctx",
    "\x7b\x7belse -\x7d\x7d",
    "#define HOOK_PARAMS\tenum \x7b\x7bstate_enum\x7d\x7d current, enum \x7b\x7bstate_enum\x7d\x7d next, \\",
    "\t\t\tvoid *ctx",
    "#define HOOK_ARGS\tcurrent, next, ctx",
    "\x7b\x7bendif -\x7d\x7d",
    "",
    "\x7b\x7bif precondition_names -\x7d\x7d",
    "/* Preconditions: return 0 to allow the transition. */",
    "\x7b\x7bfor name in precondition_names -\x7d\x7d",
    "int \x7b\x7bname\x7d\x7d(HOOK_PARAMS);",
    "\x7b\x7bendfor -\x7d\x7d",
    "",
    "\x7b\x7bendif -\x7d\x7d",
    "\x7b\x7bif callback_names -\x7d\x7d",
    "\x7b\x7bfor name in callback_names -\x7d\x7d",
    "void \x7b\x7bname\x7d\x7d(HOOK_PARAMS);",
    "\x7b\x7bendfor -\x7d\x7d",
    "",
    "\x7b\x7bendif -\x7d\x7d",
    "struct \x7b\x7bfsm_struct\x7d\x7d \x7b",
    "\tenum \x7b\x7bstate_enum\x7d\x7d current;",
    "\tvoid *init_ctx;",
    "\x7d;",
    "",
    "static const char *\x7b\x7bstate_enum\x7d\x7d_names[] = \x7b",
    "\x7b\x7bfor name, ordinal in states -\x7d\x7d",
    "\t\"\x7b\x7bname\x7d\x7d\",",
    "\x7b\x7bendfor -\x7d\x7d",
    "\x7d;",
    "\x7b\x7bif event_driven -\x7d\x7d",
    "",
    "static const char *\x7b\x7bevent_enum\x7d\x7d_names[] = \x7b",
    "\x7b\x7bfor name, ordinal in events -\x7d\x7d",
    "\t\"\x7b\x7bname\x7d\x7d\",",
    "\x7b\x7bendfor -\x7d\x7d",
    "\x7d;",
    "\x7b\x7bendif -\x7d\x7d",
    "",
    "const char *",
    "\x7b\x7bstate_ntop_func\x7d\x7d(enum \x7b\x7bstate_enum\x7d\x7d s)",
    "\x7b",
    "\tif ((int)s < \x7b\x7bmin_state_valid\x7d\x7d || (int)s > \x7b\x7bmax_state_valid\x7d\x7d)",
    "\t\treturn NULL;",
    "\treturn \x7b\x7bstate_enum\x7d\x7d_names[s];",
    "\x7d",
    "",
    "const char *",
    "\x7b\x7bstate_ntop_safe_func\x7d\x7d(enum \x7b\x7bstate_enum\x7d\x7d s)",
    "\x7b",
    "\tconst char *name = \x7b\x7bstate_ntop_func\x7d\x7d(s);",
    "",
    "\treturn name == NULL ? \"\x7b\x7binvalid_name\x7d\x7d\" : name;",
    "\x7d",
    "\x7b\x7bif event_driven -\x7d\x7d",
    "",
    "const char *",
    "\x7b\x7bevent_ntop_func\x7d\x7d(enum \x7b\x7bevent_enum\x7d\x7d ev)",
    "\x7b",
    "\tif ((int)ev < \x7b\x7bmin_event_valid\x7d\x7d || (int)ev > \x7b\x7bmax_event_valid\x7d\x7d)",
    "\t\treturn NULL;",
    "\treturn \x7b\x7bevent_enum\x7d\x7d_names[ev];",
    "\x7d",
    "",
    "const char *",
    "\x7b\x7bevent_ntop_safe_func\x7d\x7d(enum \x7b\x7bevent_enum\x7d\x7d ev)",
    "\x7b",
    "\tconst char *name = \x7b\x7bevent_ntop_func\x7d\x7d(ev);",
    "",
    "\treturn name == NULL ? \"\x7b\x7binvalid_name\x7d\x7d\" : name;",
    "\x7d",
    "\x7b\x7bendif -\x7d\x7d",
    "",
    "int",
    "\x7b\x7binit_func\x7d\x7d(struct \x7b\x7bfsm_struct\x7d\x7d **fsmp, enum \x7b\x7bstate_enum\x7d\x7d initial_state,",
    "    void *ctx)",
    "\x7b",
    "\tstruct \x7b\x7bfsm_struct\x7d\x7d *fsm;",
    "",
    "\t*fsmp = NULL;",
    "\tswitch (initial_state) \x7b",
    "\x7b\x7bfor name in initial_states -\x7d\x7d",
    "\tcase \x7b\x7bname\x7d\x7d:",
    "\x7b\x7bendfor -\x7d\x7d",
    "\t\tbreak;",
    "\tdefault:",
    "\t\treturn CFSM_ERR_INVALID_STATE;",
    "\t\x7d",
    "\t/* No status code distinguishes allocation failure. */",
    "\tif ((fsm = calloc(1, sizeof(*fsm))) == NULL)",
    "\t\treturn CFSM_ERR_INVALID_STATE;",
    "\tfsm->current = initial_state;",
    "\tfsm->init_ctx = ctx;",
    "\t*fsmp = fsm;",
    "\treturn CFSM_OK;",
    "\x7d",
    "",
    "void",
    "\x7b\x7bfree_func\x7d\x7d(struct \x7b\x7bfsm_struct\x7d\x7d *fsm)",
    "\x7b",
    "\tfree(fsm);",
    "\x7d",
    "",
    "enum \x7b\x7bstate_enum\x7d\x7d",
    "\x7b\x7bcurrent_state_func\x7d\x7d(const struct \x7b\x7bfsm_struct\x7d\x7d *fsm)",
    "\x7b",
    "\treturn fsm->current;",
    "\x7d",
    "",
    "/* Guard chains: 0 when every precondition passes. */",
    "",
    "static int",
    "\x7b\x7bfsm_struct\x7d\x7d_exit_preconds(HOOK_PARAMS)",
    "\x7b",
    "\tswitch (current) \x7b",
    "\x7b\x7bfor state, guards in transition_exit_preconds -\x7d\x7d",
    "\x7b\x7bif guards -\x7d\x7d",
    "\tcase \x7b\x7bstate\x7d\x7d:",
    "\x7b\x7bfor guard in guards -\x7d\x7d",
    "\t\tif (\x7b\x7bguard\x7d\x7d(HOOK_ARGS) != 0)",
    "\t\t\treturn -1;",
    "\x7b\x7bendfor -\x7d\x7d",
    "\t\tbreak;",
    "\x7b\x7bendif -\x7d\x7d",
    "\x7b\x7bendfor -\x7d\x7d",
    "\tdefault:",
    "\t\tbreak;",
    "\t\x7d",
    "\treturn 0;",
    "\x7d",
    "\x7b\x7bif event_driven -\x7d\x7d",
    "",
    "static int",
    "\x7b\x7bfsm_struct\x7d\x7d_event_preconds(HOOK_PARAMS)",
    "\x7b",
    "\tswitch (ev) \x7b",
    "\x7b\x7bfor event, guards in event_preconds -\x7d\x7d",
    "\x7b\x7bif guards -\x7d\x7d",
    "\tcase \x7b\x7bevent\x7d\x7d:",
    "\x7b\x7bfor guard in guards -\x7d\x7d",
    "\t\tif (\x7b\x7bguard\x7d\x7d(HOOK_ARGS) != 0)",
    "\t\t\treturn -1;",
    "\x7b\x7bendfor -\x7d\x7d",
    "\t\tbreak;",
    "\x7b\x7bendif -\x7d\x7d",
    "\x7b\x7bendfor -\x7d\x7d",
    "\tdefault:",
    "\t\tbreak;",
    "\t\x7d",
    "\treturn 0;",
    "\x7d",
    "\x7b\x7bendif -\x7d\x7d",
    "",
    "static int",
    "\x7b\x7bfsm_struct\x7d\x7d_edge_preconds(HOOK_PARAMS)",
    "\x7b",
    "\tswitch (current) \x7b",
    "\x7b\x7bfor state, edges in transitions -\x7d\x7d",
    "\tcase \x7b\x7bstate\x7d\x7d:",
    "\x7b\x7bif event_driven -\x7d\x7d",
    "\t\tswitch (ev) \x7b",
    "\x7b\x7belse -\x7d\x7d",
    "\t\tswitch (next) \x7b",
    "\x7b\x7bendif -\x7d\x7d",
    "\x7b\x7bfor key, edge in edges -\x7d\x7d",
    "\x7b\x7bif edge.preconds -\x7d\x7d",
    "\t\tcase \x7b\x7bkey\x7d\x7d:",
    "\x7b\x7bfor guard in edge.preconds -\x7d\x7d",
    "\t\t\tif (\x7b\x7bguard\x7d\x7d(HOOK_ARGS) != 0)",
    "\t\t\t\treturn -1;",
    "\x7b\x7bendfor -\x7d\x7d",
    "\t\t\tbreak;",
    "\x7b\x7bendif -\x7d\x7d",
    "\x7b\x7bendfor -\x7d\x7d",
    "\t\tdefault:",
    "\t\t\tbreak;",
    "\t\t\x7d",
    "\t\tbreak;",
    "\x7b\x7bendfor -\x7d\x7d",
    "\tdefault:",
    "\t\tbreak;",
    "\t\x7d",
    "\treturn 0;",
    "\x7d",
    "",
    "static int",
    "\x7b\x7bfsm_struct\x7d\x7d_entry_preconds(HOOK_PARAMS)",
    "\x7b",
    "\tswitch (next) \x7b",
    "\x7b\x7bfor state, guards in transition_entry_preconds -\x7d\x7d",
    "\x7b\x7bif guards -\x7d\x7d",
    "\tcase \x7b\x7bstate\x7d\x7d:",
    "\x7b\x7bfor guard in guards -\x7d\x7d",
    "\t\tif (\x7b\x7bguard\x7d\x7d(HOOK_ARGS) != 0)",
    "\t\t\treturn -1;",
    "\x7b\x7bendfor -\x7d\x7d",
    "\t\tbreak;",
    "\x7b\x7bendif -\x7d\x7d",
    "\x7b\x7bendfor -\x7d\x7d",
    "\tdefault:",
    "\t\tbreak;",
    "\t\x7d",
    "\treturn 0;",
    "\x7d",
    "",
    "static void",
    "\x7b\x7bfsm_struct\x7d\x7d_exit_callbacks(HOOK_PARAMS)",
    "\x7b",
    "\tswitch (current) \x7b",
    "\x7b\x7bfor state, callbacks in transition_exit_callbacks -\x7d\x7d",
    "\x7b\x7bif callbacks -\x7d\x7d",
    "\tcase \x7b\x7bstate\x7d\x7d:",
    "\x7b\x7bfor callback in callbacks -\x7d\x7d",
    "\t\t\x7b\x7bcallback\x7d\x7d(HOOK_ARGS);",
    "\x7b\x7bendfor -\x7d\x7d",
    "\t\tbreak;",
    "\x7b\x7bendif -\x7d\x7d",
    "\x7b\x7bendfor -\x7d\x7d",
    "\tdefault:",
    "\t\tbreak;",
    "\t\x7d",
    "\x7d",
    "\x7b\x7bif event_driven -\x7d\x7d",
    "",
    "static void",
    "\x7b\x7bfsm_struct\x7d\x7d_event_callbacks(HOOK_PARAMS)",
    "\x7b",
    "\tswitch (ev) \x7b",
    "\x7b\x7bfor event, callbacks in event_callbacks -\x7d\x7d",
    "\x7b\x7bif callbacks -\x7d\x7d",
    "\tcase \x7b\x7bevent\x7d\x7d:",
    "\x7b\x7bfor callback in callbacks -\x7d\x7d",
    "\t\t\x7b\x7bcallback\x7d\x7d(HOOK_ARGS);",
    "\x7b\x7bendfor -\x7d\x7d",
    "\t\tbreak;",
    "\x7b\x7bendif -\x7d\x7d",
    "\x7b\x7bendfor -\x7d\x7d",
    "\tdefault:",
    "\t\tbreak;",
    "\t\x7d",
    "\x7d",
    "\x7b\x7bendif -\x7d\x7d",
    "",
    "static void",
    "\x7b\x7bfsm_struct\x7d\x7d_entry_callbacks(HOOK_PARAMS)",
    "\x7b",
    "\tswitch (next) \x7b",
    "\x7b\x7bfor state, callbacks in transition_entry_callbacks -\x7d\x7d",
    "\x7b\x7bif callbacks -\x7d\x7d",
    "\tcase \x7b\x7bstate\x7d\x7d:",
    "\x7b\x7bfor callback in callbacks -\x7d\x7d",
    "\t\t\x7b\x7bcallback\x7d\x7d(HOOK_ARGS);",
    "\x7b\x7bendfor -\x7d\x7d",
    "\t\tbreak;",
    "\x7b\x7bendif -\x7d\x7d",
    "\x7b\x7bendfor -\x7d\x7d",
    "\tdefault:",
    "\t\tbreak;",
    "\t\x7d",
    "\x7d",
    "",
    "int",
    "\x7b\x7bif event_driven -\x7d\x7d",
    "\x7b\x7badvance_func\x7d\x7d(struct \x7b\x7bfsm_struct\x7d\x7d *fsm, enum \x7b\x7bevent_enum\x7d\x7d ev, void *ctx)",
    "\x7b",
    "\tenum \x7b\x7bstate_enum\x7d\x7d current = fsm->current, next;",
    "",
    "\tswitch (current) \x7b",
    "\x7b\x7bfor state, edges in transitions -\x7d\x7d",
    "\tcase \x7b\x7bstate\x7d\x7d:",
    "\t\tswitch (ev) \x7b",
    "\x7b\x7bfor key, edge in edges -\x7d\x7d",
    "\t\tcase \x7b\x7bkey\x7d\x7d:",
    "\t\t\tnext = \x7b\x7bedge.target\x7d\x7d;",
    "\t\t\tbreak;",
    "\x7b\x7bendfor -\x7d\x7d",
    "\t\tdefault:",
    "\t\t\treturn CFSM_ERR_INVALID_TRANSITION;",
    "\t\t\x7d",
    "\t\tbreak;",
    "\x7b\x7bendfor -\x7d\x7d",
    "\tdefault:",
    "\t\treturn CFSM_ERR_INVALID_TRANSITION;",
    "\t\x7d",
    "",
    "\tif (\x7b\x7bfsm_struct\x7d\x7d_exit_preconds(HOOK_ARGS) != 0 ||",
    "\t    \x7b\x7bfsm_struct\x7d\x7d_event_preconds(HOOK_ARGS) != 0 ||",
    "\t    \x7b\x7bfsm_struct\x7d\x7d_edge_preconds(HOOK_ARGS) != 0 ||",
    "\t    \x7b\x7bfsm_struct\x7d\x7d_entry_preconds(HOOK_ARGS) != 0)",
    "\t\treturn CFSM_ERR_PRECONDITION;",
    "",
    "\t\x7b\x7bfsm_struct\x7d\x7d_exit_callbacks(HOOK_ARGS);",
    "\x7b\x7bif event_callback_first -\x7d\x7d",
    "\t\x7b\x7bfsm_struct\x7d\x7d_event_callbacks(HOOK_ARGS);",
    "\t\x7b\x7bfsm_struct\x7d\x7d_entry_callbacks(HOOK_ARGS);",
    "\x7b\x7belse -\x7d\x7d",
    "\t\x7b\x7bfsm_struct\x7d\x7d_entry_callbacks(HOOK_ARGS);",
    "\t\x7b\x7bfsm_struct\x7d\x7d_event_callbacks(HOOK_ARGS);",
    "\x7b\x7bendif -\x7d\x7d",
    "\x7b\x7belse -\x7d\x7d",
    "\x7b\x7badvance_func\x7d\x7d(struct \x7b\x7bfsm_struct\x7d\x7d *fsm, enum \x7b\x7bstate_enum\x7d\x7d next, void *ctx)",
    "\x7b",
    "\tenum \x7b\x7bstate_enum\x7d\x7d current = fsm->current;",
    "",
    "\tswitch (current) \x7b",
    "\x7b\x7bfor state, edges in transitions -\x7d\x7d",
    "\tcase \x7b\x7bstate\x7d\x7d:",
    "\t\tswitch (next) \x7b",
    "\x7b\x7bfor key, edge in edges -\x7d\x7d",
    "\t\tcase \x7b\x7bkey\x7d\x7d:",
    "\x7b\x7bendfor -\x7d\x7d",
    "\t\t\tbreak;",
    "\t\tdefault:",
    "\t\t\treturn CFSM_ERR_INVALID_TRANSITION;",
    "\t\t\x7d",
    "\t\tbreak;",
    "\x7b\x7bendfor -\x7d\x7d",
    "\tdefault:",
    "\t\treturn CFSM_ERR_INVALID_TRANSITION;",
    "\t\x7d",
    "",
    "\tif (\x7b\x7bfsm_struct\x7d\x7d_exit_preconds(HOOK_ARGS) != 0 ||",
    "\t    \x7b\x7bfsm_struct\x7d\x7d_edge_preconds(HOOK_ARGS) != 0 ||",
    "\t    \x7b\x7bfsm_struct\x7d\x7d_entry_preconds(HOOK_ARGS) != 0)",
    "\t\treturn CFSM_ERR_PRECONDITION;",
    "",
    "\t\x7b\x7bfsm_struct\x7d\x7d_exit_callbacks(HOOK_ARGS);",
    "\t\x7b\x7bfsm_struct\x7d\x7d_entry_callbacks(HOOK_ARGS);",
    "\x7b\x7bendif -\x7d\x7d",
    "\tfsm->current = next;",
    "\treturn CFSM_OK;",
    "\x7d"]

/-- The text of the template. -/
def source : String := String.join (sourceLines.map (· ++ "\n"))

end StateGen.Template.Builtin
