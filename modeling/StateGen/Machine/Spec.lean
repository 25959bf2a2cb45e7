import StateGen.Status
import StateGen.Value

/-!
# Loading a machine from its namespace

Everything that running a machine needs, by number. Loading checks the whole namespace, whoever
made it: numbers of states follow their order, and edges and initial states stay in range.
-/

namespace StateGen.Machine

/-- An outgoing edge. -/
structure Edge where
  /-- The event, or the target of a direct edge. -/
  key : String
  target : Nat
  event : Option Nat
  preconditions : List String
deriving DecidableEq, Repr

/-- A state with its hooks and edges. -/
structure State where
  name : String
  entryPreconditions : List String
  exitPreconditions : List String
  onEnter : List String
  onExit : List String
  edges : List Edge
deriving DecidableEq, Repr

/-- An event with its hooks. -/
structure Event where
  name : String
  preconditions : List String
  callbacks : List String
deriving DecidableEq, Repr

/-- A machine that can be run. -/
structure Spec where
  states : List State
  events : List Event
  /-- The numbers of the states in which the machine may start. -/
  initial : List Nat
  eventDriven : Bool
  callbackOrder : CallbackOrder
  /-- What the safe name lookups give outside the range. -/
  invalidName : String
deriving DecidableEq, Repr

/-- Why a namespace is no machine. -/
inductive LoadError where
  | negativeOrdinal (n : Int)
  | wrongOrdinal (state : String) (found : Value) (position : Nat)
  | unknownEvent (name : String)
  | targetOutOfRange (state key : String) (target states : Nat)
  | initialOutOfRange (ordinal states : Nat)
  | callbackOrder (reason : String)
  | access (e : Value.Error)
deriving DecidableEq

namespace LoadError

/-- What is wrong with the namespace. -/
def reason : LoadError → String
  | .negativeOrdinal n => "negative ordinal " ++ toString n
  | .wrongOrdinal state found position =>
    "state '" ++ state ++ "' has ordinal " ++ found.display ++ ", expected " ++ toString position
  | .unknownEvent name => "unknown event '" ++ name ++ "'"
  | .targetOutOfRange state key target states =>
    "edge '" ++ state ++ "' -> '" ++ key ++ "' targets ordinal " ++ toString target ++ " of "
      ++ toString states ++ " states"
  | .initialOutOfRange ordinal states =>
    "initial state ordinal " ++ toString ordinal ++ " of " ++ toString states ++ " states"
  | .callbackOrder reason => reason
  | .access e => e.message

/-- The text of a load failure. -/
def message (e : LoadError) : String := "malformed namespace: " ++ e.reason

end LoadError

/-- A result of loading. -/
abbrev Load := Except LoadError

/-- An access to a value as a part of loading. -/
def access {α : Type} (a : Except Value.Error α) : Load α := a.mapError .access

/-- A sequence of strings. -/
def names (v : Value) : Load (List String) := do
  (← access v.asSeq).mapM fun item ↦ access item.asString

/-- The hooks under a key of a table; a missing key has none. -/
def hookNames (ns : Value) (table key : String) : Load (List String) := do
  match (← access (do (← ns.get table).asMap)).get? key with
  | some hooks => names hooks
  | none => return []

/-- A number that counts states. -/
def ordinal (v : Value) : Load Nat := do
  let n ← access v.asInt
  if 0 ≤ n then return n.toNat else throw (.negativeOrdinal n)

/-- The position of the event that an edge record names, if it names one. -/
def edgeEvent (events : OrderedMap Value) (record : Value) : Load (Option Nat) :=
  match record.get? "event" with
  | none => return none
  | some event => do
    let name ← access event.asString
    match events.position name with
    | some i => return some i
    | none => throw (.unknownEvent name)

/-- Load an edge. -/
def loadEdge (events : OrderedMap Value) (key : String) (record : Value) : Load Edge := do
  let event ← edgeEvent events record
  let target ← ordinal (← access (record.get "target_ordinal"))
  let preconditions ← names (← access (record.get "preconds"))
  return { key, target, event, preconditions }

/-- Load the edges of a state; a state without an entry has none. -/
def loadEdges (events transitions : OrderedMap Value) (state : String) : Load (List Edge) := do
  match transitions.get? state with
  | none => return []
  | some out => (← access out.asMap).entries.mapM fun (key, record) ↦ loadEdge events key record

/-- Load a state, which has to have its position as its number. -/
def loadState (ns : Value) (events transitions : OrderedMap Value) (name : String) (number : Value)
    (position : Nat) : Load State := do
  if (← ordinal number) ≠ position then throw (.wrongOrdinal name number position)
  let edges ← loadEdges events transitions name
  let entryPreconditions ← hookNames ns "transition_entry_preconds" name
  let exitPreconditions ← hookNames ns "transition_exit_preconds" name
  let onEnter ← hookNames ns "transition_entry_callbacks" name
  let onExit ← hookNames ns "transition_exit_callbacks" name
  return { name, entryPreconditions, exitPreconditions, onEnter, onExit, edges }

/-- Load an event. -/
def loadEvent (ns : Value) (name : String) : Load Event := do
  let preconditions ← hookNames ns "event_preconds" name
  let callbacks ← hookNames ns "event_callbacks" name
  return { name, preconditions, callbacks }

/-- The table of events; a namespace without one has no events. -/
def eventTable (ns : Value) : Load (OrderedMap Value) :=
  match ns.get? "events" with
  | some events => access events.asMap
  | none => return .empty

/-- Check that every edge of the states leads to one of them. -/
def checkTargets (states : List State) : Load Unit :=
  states.forM fun state ↦
    match state.edges.find? fun e ↦ states.length ≤ e.target with
    | some e => throw (.targetOutOfRange state.name e.key e.target states.length)
    | none => return ()

/-- Load the initial states, of which every one has to be in range. -/
def loadInitial (ns : Value) (stateCount : Nat) : Load (List Nat) := do
  let table ← access (ns.get "states")
  let initial ← (← access (do (← ns.get "initial_states").asSeq)).mapM fun s ↦ do
    ordinal (← access (do table.get (← s.asString)))
  match initial.find? (stateCount ≤ ·) with
  | some bad => throw (.initialOutOfRange bad stateCount)
  | none => return initial

/-- Load a callback order. -/
def loadOrder (ns : Value) : Load CallbackOrder := do
  match CallbackOrder.ofName (← access (do (← ns.get "callback_order").asString)) with
  | .ok order => return order
  | .error reason => throw (.callbackOrder reason)

namespace Spec

/-- Load a machine. -/
def ofNamespace (ns : Value) : Load Spec := do
  let eventTable ← eventTable ns
  let events ← eventTable.keys.mapM (loadEvent ns)
  let transitions ← access (do (← ns.get "transitions").asMap)
  let stateTable ← access (do (← ns.get "states").asMap)
  let states ← stateTable.entries.zipIdx.mapM fun ((name, number), position) ↦
    loadState ns eventTable transitions name number position
  checkTargets states
  let initial ← loadInitial ns states.length
  let callbackOrder ← loadOrder ns
  let eventDriven ← access (do (← ns.get "event_driven").asInt)
  let invalidName ← access (do (← ns.get "invalid_name").asString)
  return { states, events, initial, eventDriven := eventDriven != 0, callbackOrder, invalidName }

/-- The number of a state by its name. -/
def stateIndex (spec : Spec) (name : String) : Option Nat :=
  spec.states.findIdx? (·.name == name)

/-- The number of an event by its name. -/
def eventIndex (spec : Spec) (name : String) : Option Nat :=
  spec.events.findIdx? (·.name == name)

/-- The name of a state by its number. -/
def stateName? (spec : Spec) (ordinal : Int) : Option String :=
  if 0 ≤ ordinal then spec.states[ordinal.toNat]?.map State.name else none

/-- The name of an event by its number. -/
def eventName? (spec : Spec) (ordinal : Int) : Option String :=
  if 0 ≤ ordinal then spec.events[ordinal.toNat]?.map Event.name else none

/-- The name of a state, or the invalid name. -/
def stateNameD (spec : Spec) (ordinal : Int) : String :=
  (spec.stateName? ordinal).getD spec.invalidName

/-- The name of an event, or the invalid name. -/
def eventNameD (spec : Spec) (ordinal : Int) : String :=
  (spec.eventName? ordinal).getD spec.invalidName

end Spec

end StateGen.Machine
