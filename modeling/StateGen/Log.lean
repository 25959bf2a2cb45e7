/-!
# Log records

What the program tells about its own work: a level, the component that speaks and a line of text.
-/

namespace StateGen.Log

/-- How important a record is, the most important first. -/
inductive Level where
  | error
  | warn
  | info
  | debug
  | trace
deriving DecidableEq, Repr

namespace Level

/-- The rank of a level; a lower rank is more important. -/
def rank : Level → Nat
  | .error => 1
  | .warn => 2
  | .info => 3
  | .debug => 4
  | .trace => 5

/-- The name of a level in capitals. -/
def name : Level → String
  | .error => "ERROR"
  | .warn => "WARN"
  | .info => "INFO"
  | .debug => "DEBUG"
  | .trace => "TRACE"

end Level

/-- The parts of the program that write records. -/
inductive Component where
  | model
  | template
  | renderer
  | machine
  | pipeline
  | artifact
  | templateStore
  | commandLine
deriving DecidableEq, Repr

/-- The name under which a component's records appear. -/
def Component.target : Component → String
  | .model => "cfsm_model::builder"
  | .template => "cfsm_template"
  | .renderer => "cfsm_template::render"
  | .machine => "cfsm_runtime::machine"
  | .pipeline => "cfsm_compiler"
  | .artifact => "cfsm_compiler::artifact"
  | .templateStore => "cfsm_compiler::templates"
  | .commandLine => "cfsm"

/-- One record. -/
structure Record where
  level : Level
  component : Component
  message : String
deriving DecidableEq, Repr

/-- The records that are at least as important as a level. -/
def atLeast (level : Level) (records : List Record) : List Record :=
  records.filter fun r ↦ r.level.rank ≤ level.rank

end StateGen.Log
