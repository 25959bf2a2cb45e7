import StateGen.Source

/-!
# Machine descriptions

The tree of a description: options, initial states, events and states, each with the place where
it was written. Items keep the order of the text.
-/

namespace StateGen

/-- A name and where it stands. -/
structure Ident where
  name : String
  span : Span
deriving DecidableEq, Repr

namespace Description

/-- Edges that share their guards. -/
structure Edges where
  targets : List Ident
  preconditions : List Ident
  span : Span
deriving DecidableEq, Repr

/-- What may stand in the block of a state. -/
inductive StateEntry where
  | entryPrecondition (hooks : List Ident)
  | exitPrecondition (hooks : List Ident)
  | onEnter (hooks : List Ident)
  | onExit (hooks : List Ident)
  /-- Edges that are taken by naming the target. -/
  | nextState (edges : Edges)
  /-- An edge that is taken by an event. -/
  | onEvent (event : Ident) (edge : Edges)
deriving DecidableEq, Repr

/-- An option and its value; the key is kept as written, hyphens included. -/
structure OptionItem where
  key : Ident
  value : String
  span : Span
deriving DecidableEq, Repr

/-- A list of states in which the machine may start. -/
structure InitialItem where
  states : List Ident
  span : Span
deriving DecidableEq, Repr

/-- An event with the hooks of every transition that it triggers. -/
structure EventItem where
  name : Ident
  preconditions : List Ident
  callbacks : List Ident
  span : Span
deriving DecidableEq, Repr

/-- A state with its hooks and edges. -/
structure StateItem where
  name : Ident
  initial : Bool
  body : List StateEntry
  span : Span
deriving DecidableEq, Repr

/-- A top-level item. -/
inductive Item where
  | option (item : OptionItem)
  | initial (item : InitialItem)
  | event (item : EventItem)
  | state (item : StateItem)
deriving DecidableEq, Repr

end Description

/-- A whole description. -/
structure Description where
  items : List Description.Item
  span : Span
deriving DecidableEq, Repr

end StateGen
