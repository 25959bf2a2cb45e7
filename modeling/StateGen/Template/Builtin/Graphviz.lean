/-!
# The template of the Graphviz diagram

A node for every state, initial ones with a double border, and an arrow for every edge.
-/

namespace StateGen.Template.Builtin

/-- The lines of the template. -/
def graphvizLines : List String :=
  ["/* Generated by cfsm from \x7b\x7binput_path\x7d\x7d */",
    "",
    "digraph \x7b\x7bfsm_struct\x7d\x7d \x7b",
    "\tnode [shape=circle];",
    "\x7b\x7bfor name in initial_states -\x7d\x7d",
    "\t\x7b\x7bname\x7d\x7d [peripheries=2];",
    "\x7b\x7bendfor -\x7d\x7d",
    "\x7b\x7bfor name, ordinal in states -\x7d\x7d",
    "\t\x7b\x7bname\x7d\x7d;",
    "\x7b\x7bendfor -\x7d\x7d",
    "",
    "\x7b\x7bfor state, edges in transitions -\x7d\x7d",
    "\x7b\x7bfor key, edge in edges -\x7d\x7d",
    "\x7b\x7bif event_driven -\x7d\x7d",
    "\t\x7b\x7bstate\x7d\x7d -> \x7b\x7bedge.target\x7d\x7d [label=\"\x7b\x7bedge.event\x7d\x7d\"];",
    "\x7b\x7belse -\x7d\x7d",
    "\t\x7b\x7bstate\x7d\x7d -> \x7b\x7bedge.target\x7d\x7d;",
    "\x7b\x7bendif -\x7d\x7d",
    "\x7b\x7bendfor -\x7d\x7d",
    "\x7b\x7bendfor -\x7d\x7d",
    "\x7d"]

/-- The text of the template. -/
def graphviz : String := String.join (graphvizLines.map (· ++ "\n"))

end StateGen.Template.Builtin
