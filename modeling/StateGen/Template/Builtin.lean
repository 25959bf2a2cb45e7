import StateGen.Template.Builtin.Graphviz
import StateGen.Template.Builtin.Header
import StateGen.Template.Builtin.Source

/-!
# Built-in templates
-/

namespace StateGen.Template.Builtin

/-- The built-in templates by name. -/
def all : List (String × String) :=
  [("source.m", source), ("header.m", header), ("graphviz.m", graphviz)]

/-- The text of a built-in template. -/
def text? (name : String) : Option String := all.lookup name

end StateGen.Template.Builtin
