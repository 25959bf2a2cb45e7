import StateGen.Model
import StateGen.Value

/-!
# The namespace of a machine

A finished machine is published as one mapping: the options, the status codes, the tables of
states, events, hooks and edges, and a few numbers derived from them. Templates and the machine
itself read nothing else.
-/

namespace StateGen

/-- The published form of a machine. -/
structure Namespace where
  /-- The top-level mapping. -/
  root : Value
deriving DecidableEq

namespace Namespace

/-- Top-level lookup. -/
def get (ns : Namespace) (key : String) : Except Value.Error Value := ns.root.get key

/-- Lookup of a string. -/
def getString (ns : Namespace) (key : String) : Except Value.Error String := do
  (← ns.root.get key).asString

/-- Lookup of an integer. -/
def getInt (ns : Namespace) (key : String) : Except Value.Error Int := do
  (← ns.root.get key).asInt

/-- The keys of a table; none if there is no such table. -/
def namesOf (ns : Namespace) (key : String) : List String :=
  match ns.root.get key >>= Value.asMap with
  | .ok fields => fields.keys
  | .error _ => []

/-- The states in the order of their numbers. -/
def stateNames (ns : Namespace) : List String := ns.namesOf "states"

/-- The events in the order of their numbers. -/
def eventNames (ns : Namespace) : List String := ns.namesOf "events"

/-- Whether the machine is advanced by events. -/
def isEventDriven (ns : Namespace) : Bool :=
  match ns.getInt "event_driven" with
  | .ok n => n != 0
  | .error _ => false

end Namespace

namespace Model

/-- An ordinal as a value. -/
def ordinal (n : Nat) : Value := .int n

/-- A table of hooks as a value. -/
def hookTable (table : OrderedMap (List String)) : Value :=
  .map (table.mapValues Value.ofStrings)

/-- An edge as a value; the event is present only where there is one. -/
def Edge.toValue (e : Edge) : Value :=
  .map ⟨[("target", .str e.target), ("target_ordinal", ordinal e.targetOrdinal)]
    ++ (match e.event with
        | some event => [("event", .str event)]
        | none => [])
    ++ [("preconds", .ofStrings e.preconditions)]⟩

/-- The edges of all states as a value. -/
def transitionTable (table : OrderedMap (OrderedMap Edge)) : Value :=
  .map (table.mapValues fun edges ↦ .map (edges.mapValues Edge.toValue))

/-- Names with their numbers, and the numbers alone. -/
def ordinalTables (key arrayKey : String) (table : OrderedMap Nat) : List (String × Value) :=
  [(key, .map (table.mapValues ordinal)), (arrayKey, .seq (table.values.map ordinal))]

/-- The first and the last number of a table. -/
def bounds (minKey maxKey : String) (table : OrderedMap Nat) : List (String × Value) :=
  match table.values.head?, table.values.getLast? with
  | some low, some high => [(minKey, ordinal low), (maxKey, ordinal high)]
  | _, _ => []

/-- The callback order of the machine. -/
def callbackOrder (m : Model) : CallbackOrder :=
  match CallbackOrder.ofName (m.option "callback_order") with
  | .ok order => order
  | .error _ => .default

/-- Options, input path and status codes. -/
def configEntries (m : Model) : List (String × Value) :=
  m.options.entries.map (fun (key, value) ↦ (key, .str value))
    ++ [("input_path", .str m.inputPath)]
    ++ Status.all.map fun s ↦ (s.namespaceKey, .int s.code)

/-- The tables of states, events, hooks and edges. -/
def tableEntries (m : Model) : List (String × Value) :=
  ordinalTables "states" "states_array" m.states
    ++ (if m.events.isEmpty then [] else ordinalTables "events" "events_array" m.events)
    ++ [("initial_states", .ofStrings m.initialStates),
        ("event_callbacks", hookTable m.eventCallbacks),
        ("event_preconds", hookTable m.eventPreconditions),
        ("transition_entry_callbacks", hookTable m.entryCallbacks),
        ("transition_exit_callbacks", hookTable m.exitCallbacks),
        ("transition_entry_preconds", hookTable m.entryPreconditions),
        ("transition_exit_preconds", hookTable m.exitPreconditions),
        ("transitions", transitionTable m.transitions)]

/-- Numbers and lists derived from the tables. -/
def derivedEntries (m : Model) : List (String × Value) :=
  bounds "min_state_valid" "max_state_valid" m.states
    ++ bounds "min_event_valid" "max_event_valid" m.events
    ++ [("multiple_start_states", .ofBool (1 < m.initialStates.length)),
        ("event_driven", .ofBool (m.style == some .eventDriven)),
        ("state_count", ordinal m.states.size),
        ("event_count", ordinal m.events.size),
        ("event_callback_first", .ofBool m.callbackOrder.eventFirst),
        ("precondition_names", .ofStrings m.preconditionNames),
        ("callback_names", .ofStrings m.callbackNames)]

/-- The namespace of a model, whether it is finished or not. -/
def publish (m : Model) : Namespace :=
  ⟨.map ⟨m.configEntries ++ m.tableEntries ++ m.derivedEntries⟩⟩

/-- Check the machine as a whole and publish it. -/
def finalize (m : Model) : Except Error Namespace := do
  m.check
  return m.publish

/-- The records of `finalize`: a warning for every unreachable state, then the size of the machine;
none if the machine is rejected. -/
def finalizeRecords (m : Model) : List Log.Record :=
  match m.check with
  | .error _ => []
  | .ok _ =>
    m.unreachableStates.map (fun s ↦
      .mk .warn .model ("state '" ++ s
        ++ "' is unreachable: it is not initial and no transition targets it"))
      ++ [.mk .debug .model ("finalized namespace: " ++ toString m.states.size ++ " states, "
        ++ toString m.events.size ++ " events")]

/-- Apply declarations up to the first one that is rejected. -/
def applyAll : List Declaration → Build Unit
  | [] => return ()
  | d :: ds => do
    apply d
    applyAll ds

/-- The namespace of a list of declarations, or why there is none. -/
def build (inputPath : String) (ds : List Declaration) : Except Error Namespace :=
  match applyAll ds (Model.initial inputPath) with
  | .ok _ m => m.finalize
  | .error e _ => .error e

/-- The records of `build`, from a model on. -/
def buildRecords (m : Model) : List Declaration → List Log.Record
  | [] => m.finalizeRecords
  | d :: ds =>
    match apply d m with
    | .ok _ m' => m.acceptedRecord d :: buildRecords m' ds
    | .error _ _ => []

end Model

end StateGen
