/-!
# The template of the C header

The interface of a generated machine: enumerations, status codes, functions and hook prototypes.
-/

namespace StateGen.Template.Builtin

/-- The lines of the template. -/
def headerLines : List String :=
  ["/*",
    " * \x7b\x7bheader_name\x7d\x7d: state machine interface generated by cfsm from",
    " * \x7b\x7binput_path\x7d\x7d. Do not edit; regenerate from the description instead.",
    " */",
    "",
    "#ifndef \x7b\x7bheader_guard\x7d\x7d",
    "#define \x7b\x7bheader_guard\x7d\x7d",
    "",
    "#define CFSM_OK\t\t\t\t\x7b\x7bstatus_ok\x7d\x7d",
    "#define CFSM_ERR_INVALID_STATE\t\t\x7b\x7bstatus_invalid_state\x7d\x7d",
    "#define CFSM_ERR_INVALID_TRANSITION\t\x7b\x7bstatus_invalid_transition\x7d\x7d",
    "#define CFSM_ERR_PRECONDITION\t\t\x7b\x7bstatus_precondition\x7d\x7d",
    "",
    "enum \x7b\x7bstate_enum\x7d\x7d \x7b",
    "\x7b\x7bfor name, ordinal in states -\x7d\x7d",
    "\t\x7b\x7bname\x7d\x7d = \x7b\x7bordinal\x7d\x7d,",
    "\x7b\x7bendfor -\x7d\x7d",
    "\x7d;",
    "\x7b\x7bif event_driven -\x7d\x7d",
    "",
    "enum \x7b\x7bevent_enum\x7d\x7d \x7b",
    "\x7b\x7bfor name, ordinal in events -\x7d\x7d",
    "\t\x7b\x7bname\x7d\x7d = \x7b\x7bordinal\x7d\x7d,",
    "\x7b\x7bendfor -\x7d\x7d",
    "\x7d;",
    "\x7b\x7bendif -\x7d\x7d",
    "",
    "struct \x7b\x7bfsm_struct\x7d\x7d;",
    "",
    "/* Allocate a machine in initial_state; *fsmp is NULL unless CFSM_OK. */",
    "int \x7b\x7binit_func\x7d\x7d(struct \x7b\x7bfsm_struct\x7d\x7d **fsmp,",
    "    enum \x7b\x7bstate_enum\x7d\x7d initial_state, void *ctx);",
    "void \x7b\x7bfree_func\x7d\x7d(struct \x7b\x7bfsm_struct\x7d\x7d *fsm);",
    "enum \x7b\x7bstate_enum\x7d\x7d \x7b\x7bcurrent_state_func\x7d\x7d(const struct \x7b\x7bfsm_struct\x7d\x7d *fsm);",
    "\x7b\x7bif event_driven -\x7d\x7d",
    "int \x7b\x7badvance_func\x7d\x7d(struct \x7b\x7bfsm_struct\x7d\x7d *fsm, enum \x7b\x7bevent_enum\x7d\x7d ev,",
    "    void *ctx);",
    "\x7b\x7belse -\x7d\x7d",
    "int \x7b\x7badvance_func\x7d\x7d(struct \x7b\x7bfsm_struct\x7d\x7d *fsm, enum \x7b\x7bstate_enum\x7d\x7d next,",
    "    void *ctx);",
    "\x7b\x7bendif -\x7d\x7d",
    "",
    "/* NULL for values outside the enum. */",
    "const char *\x7b\x7bstate_ntop_func\x7d\x7d(enum \x7b\x7bstate_enum\x7d\x7d s);",
    "/* \"\x7b\x7binvalid_name\x7d\x7d\" for values outside the enum. */",
    "const char *\x7b\x7bstate_ntop_safe_func\x7d\x7d(enum \x7b\x7bstate_enum\x7d\x7d s);",
    "\x7b\x7bif event_driven -\x7d\x7d",
    "const char *\x7b\x7bevent_ntop_func\x7d\x7d(enum \x7b\x7bevent_enum\x7d\x7d ev);",
    "const char *\x7b\x7bevent_ntop_safe_func\x7d\x7d(enum \x7b\x7bevent_enum\x7d\x7d ev);",
    "\x7b\x7bendif -\x7d\x7d",
    "",
    "#endif /* \x7b\x7bheader_guard\x7d\x7d */"]

/-- The text of the template. -/
def header : String := String.join (headerLines.map (· ++ "\n"))

end StateGen.Template.Builtin
