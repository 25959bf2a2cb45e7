/-!
# Statuses and callback orders

The run-time contract that the model publishes, the templates print and the machine follows.
-/

namespace StateGen

/-- The result of starting or advancing a machine. -/
inductive Status where
  | ok
  /-- The machine may not start in the requested state. -/
  | invalidState
  /-- The current state has no edge for the request. -/
  | invalidTransition
  /-- A guard refused the transition. -/
  | precondition
deriving DecidableEq, Repr

namespace Status

/-- Every status. -/
def all : List Status := [.ok, .invalidState, .invalidTransition, .precondition]

/-- The number of a status in generated code. -/
def code : Status → Int
  | .ok => 0
  | .invalidState => -1
  | .invalidTransition => -2
  | .precondition => -3

/-- The key under which the code is published. -/
def namespaceKey : Status → String
  | .ok => "status_ok"
  | .invalidState => "status_invalid_state"
  | .invalidTransition => "status_invalid_transition"
  | .precondition => "status_precondition"

/-- The name of a status in generated code. -/
def name : Status → String
  | .ok => "CFSM_OK"
  | .invalidState => "CFSM_ERR_INVALID_STATE"
  | .invalidTransition => "CFSM_ERR_INVALID_TRANSITION"
  | .precondition => "CFSM_ERR_PRECONDITION"

/-- Whether the status tells success. -/
def isOk (s : Status) : Bool := s == .ok

end Status

/-- Which of the event and entry callbacks come first; exit callbacks always precede both. -/
inductive CallbackOrder where
  | exitEventEntry
  | exitEntryEvent
deriving DecidableEq, Repr

namespace CallbackOrder

/-- The order of machines that do not choose one. -/
def default : CallbackOrder := .exitEventEntry

/-- The name of an order. -/
def name : CallbackOrder → String
  | .exitEventEntry => "exit-event-entry"
  | .exitEntryEvent => "exit-entry-event"

/-- Whether event callbacks precede entry callbacks. -/
def eventFirst (o : CallbackOrder) : Bool := o == .exitEventEntry

/-- The order that a name denotes, or what is wrong with the name. -/
def ofName (s : String) : Except String CallbackOrder :=
  if s = "exit-event-entry" then .ok .exitEventEntry
  else if s = "exit-entry-event" then .ok .exitEntryEvent
  else
    .error ("unknown callback order '" ++ s
      ++ "', expected 'exit-event-entry' or 'exit-entry-event'")

end CallbackOrder

end StateGen
