import StateGen.Declaration
import StateGen.Log
import StateGen.Model.Error
import StateGen.OrderedMap

/-!
# Machines under construction

A model holds what was declared so far. Applying a declaration checks it against the model and
either records it or rejects it; what depends on the machine as a whole is checked at the end.
-/

namespace StateGen

/-- How a machine is advanced. -/
inductive Model.Style where
  /-- By events. -/
  | eventDriven
  /-- By naming the next state. -/
  | direct
deriving DecidableEq, Repr

/-- An edge as it is declared. -/
structure Model.Edge where
  target : String
  /-- The number of the target state. -/
  targetOrdinal : Nat
  event : Option String
  preconditions : List String
deriving DecidableEq, Repr

/-- What was declared so far. -/
structure Model where
  /-- Where the description comes from, fit for a comment. -/
  inputPath : String
  /-- Every option with its value. -/
  options : OrderedMap String
  /-- The states with their numbers. -/
  states : OrderedMap Nat := .empty
  /-- The events with their numbers. -/
  events : OrderedMap Nat := .empty
  initialStates : List String := []
  eventCallbacks : OrderedMap (List String) := .empty
  eventPreconditions : OrderedMap (List String) := .empty
  entryCallbacks : OrderedMap (List String) := .empty
  exitCallbacks : OrderedMap (List String) := .empty
  entryPreconditions : OrderedMap (List String) := .empty
  exitPreconditions : OrderedMap (List String) := .empty
  /-- The edges of every state by their key: the event, or the target of a direct edge. -/
  transitions : OrderedMap (OrderedMap Model.Edge) := .empty
  /-- Open until the first event or edge. -/
  style : Option Model.Style := none
  /-- Every guard once, in the order of first use. -/
  preconditionNames : List String := []
  /-- Every callback once, in the order of first use. -/
  callbackNames : List String := []

namespace Model

/-- The model before any declaration. -/
def initial (inputPath : String) : Model where
  inputPath := Config.forComment inputPath
  options := ⟨Config.defaults⟩

/-- A step that reads and changes the model, or rejects. -/
abbrev Build := EStateM Error Model

/-! ## Names -/

/-- What a name denotes already. -/
def kindOf? (m : Model) (name : String) : Option NameKind :=
  if m.states.contains name then some .state
  else if m.events.contains name then some .event
  else if m.preconditionNames.contains name then some .precondition
  else if m.callbackNames.contains name then some .callback
  else none

/-- Whether a name denotes a hook. -/
def NameKind.isHook : NameKind → Bool
  | .precondition | .callback => true
  | _ => false

/-- Check that a name may denote something of a kind. A hook may be named again as a hook of the
same kind. -/
def checkName (m : Model) (name : String) (kind : NameKind) : Except Error Unit :=
  if Config.isReserved name then .error (.reservedName name kind)
  else
    match m.kindOf? name with
    | none => .ok ()
    | some existing =>
      if existing = kind then .ok ()
      else if existing.isHook && kind.isHook then .error (.hookKindConflict name)
      else .error (.nameConflict name kind (.declared existing))

/-- The number of a state that has to exist. -/
def stateOrdinal (m : Model) (name : String) : Except Error Nat :=
  match m.states.get? name with
  | some n => .ok n
  | none => .error (.unknownState name)

/-- The number of an event that has to exist. -/
def eventOrdinal (m : Model) (name : String) : Except Error Nat :=
  match m.events.get? name with
  | some n => .ok n
  | none => .error (.unknownEvent name)

/-- The names with one more, unless it is among them. -/
def appendNew (names : List String) (name : String) : List String :=
  if names.contains name then names else names ++ [name]

/-! ## Single declarations -/

/-- Run a check that cannot change the model. -/
def require {α : Type} (check : Model → Except Error α) : Build α := do
  match check (← get) with
  | .ok a => return a
  | .error e => throw e

/-- Declare a state. -/
def declareState (name : String) : Build Unit := do
  if (← get).states.contains name then throw (.duplicateState name)
  require (·.checkName name .state)
  modify fun m ↦
    { m with
      states := m.states.insert name m.states.size
      entryCallbacks := m.entryCallbacks.insert name []
      exitCallbacks := m.exitCallbacks.insert name []
      entryPreconditions := m.entryPreconditions.insert name []
      exitPreconditions := m.exitPreconditions.insert name []
      transitions := m.transitions.insert name .empty }

/-- Declare an event. -/
def declareEvent (name : String) : Build Unit := do
  if (← get).events.contains name then throw (.duplicateEvent name)
  require (·.checkName name .event)
  if (← get).style = some .direct then throw (.eventAmongDirect name)
  modify fun m ↦
    { m with
      events := m.events.insert name m.events.size
      eventCallbacks := m.eventCallbacks.insert name []
      eventPreconditions := m.eventPreconditions.insert name []
      style := some .eventDriven }

/-- The edge of a state under a key. -/
def edge? (m : Model) (source via : String) : Option Edge :=
  (m.transitions.get? source).bind (·.get? via)

/-- Check that the style of the machine admits an edge. -/
def admitsEdge (m : Model) (source : String) (event : Option String) (target : String) :
    Except Error Unit :=
  match event with
  | some event => (m.eventOrdinal event).map fun _ ↦ ()
  | none => if m.events.isEmpty then .ok () else .error (.directAmongEvents source target)

/-- Declare an edge. -/
def declareTransition (source : String) (event : Option String) (target : String) :
    Build Unit := do
  let _ ← require (·.stateOrdinal source)
  let targetOrdinal ← require (·.stateOrdinal target)
  require (·.admitsEdge source event target)
  let via := event.getD target
  if ((← get).edge? source via).isSome then throw (.duplicateTransition source via)
  let edge := { target, targetOrdinal, event, preconditions := [] }
  modify fun m ↦
    { m with
      transitions := m.transitions.modify source (·.insert via edge)
      style := some (if event.isSome then .eventDriven else .direct) }

/-- Declare an initial state. -/
def declareInitial (state : String) : Build Unit := do
  let _ ← require (·.stateOrdinal state)
  if (← get).initialStates.contains state then throw (.duplicateInitial state)
  modify fun m ↦ { m with initialStates := m.initialStates ++ [state] }

/-- Append a hook to the list under a key. -/
def attach (table : OrderedMap (List String)) (key hook : String) : OrderedMap (List String) :=
  table.modify key (· ++ [hook])

/-- Attach a guard. -/
def attachPrecondition (target : HookTarget) (name : String) : Build Unit := do
  require (·.checkName name .precondition)
  match target with
  | .entry state =>
    let _ ← require (·.stateOrdinal state)
    modify fun m ↦ { m with entryPreconditions := attach m.entryPreconditions state name }
  | .exit state =>
    let _ ← require (·.stateOrdinal state)
    modify fun m ↦ { m with exitPreconditions := attach m.exitPreconditions state name }
  | .event event =>
    let _ ← require (·.eventOrdinal event)
    modify fun m ↦ { m with eventPreconditions := attach m.eventPreconditions event name }
  | .transition source via =>
    let _ ← require (·.stateOrdinal source)
    if ((← get).edge? source via).isNone then throw (.unknownTransition source via name)
    modify fun m ↦
      { m with
        transitions := m.transitions.modify source fun edges ↦
          edges.modify via fun e ↦ { e with preconditions := e.preconditions ++ [name] } }
  modify fun m ↦ { m with preconditionNames := appendNew m.preconditionNames name }

/-- Attach a callback; edges have none of their own. -/
def attachCallback (target : HookTarget) (name : String) : Build Unit := do
  require (·.checkName name .callback)
  match target with
  | .entry state =>
    let _ ← require (·.stateOrdinal state)
    modify fun m ↦ { m with entryCallbacks := attach m.entryCallbacks state name }
  | .exit state =>
    let _ ← require (·.stateOrdinal state)
    modify fun m ↦ { m with exitCallbacks := attach m.exitCallbacks state name }
  | .event event =>
    let _ ← require (·.eventOrdinal event)
    modify fun m ↦ { m with eventCallbacks := attach m.eventCallbacks event name }
  | .transition source via => throw (.unsupportedHook source via)
  modify fun m ↦ { m with callbackNames := appendNew m.callbackNames name }

/-- The value to store for an option. -/
def optionValue (key value : String) : Except Error String :=
  if !Config.isKey key then .error (.unknownOption key)
  else if !Config.isValid key value then .error (.invalidOptionValue key value)
  else .ok value

/-- Set an option. -/
def setOption (key value : String) : Build Unit := do
  let value ← require fun _ ↦ optionValue key value
  modify fun m ↦ { m with options := m.options.insert key value }

/-- Apply a declaration. -/
def apply (d : Declaration) : Build Unit :=
  match d.kind with
  | .state name => declareState name
  | .event name => declareEvent name
  | .transition source event target => declareTransition source event target
  | .initial state => declareInitial state
  | .precondition target name => attachPrecondition target name
  | .callback target name => attachCallback target name
  | .config key value => setOption key value

/-- The record that an accepted declaration leaves in the log, where `m` is the model before it. -/
def acceptedRecord (m : Model) (d : Declaration) : Log.Record :=
  .mk .debug .model <|
    match d.kind with
    | .state name => "state " ++ name ++ " = " ++ toString m.states.size
    | .event name => "event " ++ name ++ " = " ++ toString m.events.size
    | .transition source event target =>
      "transition " ++ source ++ " -> " ++ target ++ " via " ++ event.getD target
    | .initial state => "initial state " ++ state
    | .precondition target name => "precondition " ++ name ++ " on " ++ target.display
    | .callback target name => "callback " ++ name ++ " on " ++ target.display
    | .config key value => "option " ++ key ++ " = " ++ value

/-! ## The machine as a whole -/

/-- States that are neither initial nor the target of an edge. -/
def unreachableStates (m : Model) : List String :=
  let targets := m.transitions.values.flatMap fun edges ↦ edges.values.map Edge.target
  m.states.keys.filter fun s ↦ !m.initialStates.contains s && !targets.contains s

/-- The value of an option. -/
def option (m : Model) (key : String) : String := (m.options.get? key).getD ""

/-- Suffixes of the functions that run the hooks. -/
def helperSuffixes : List String :=
  ["exit_preconds", "event_preconds", "edge_preconds", "entry_preconds", "exit_callbacks",
    "event_callbacks", "entry_callbacks"]

/-- The functions, macros and tables that the generated code defines. -/
def emittedNames (m : Model) : List String :=
  Config.functionKeys.map m.option
    ++ helperSuffixes.map (fun suffix ↦ m.option "fsm_struct" ++ "_" ++ suffix)
    ++ [m.option "state_enum" ++ "_names", m.option "event_enum" ++ "_names"]

/-- Every declared name with its kind. -/
def declaredNames (m : Model) : List (String × NameKind) :=
  m.states.keys.map (·, .state) ++ m.events.keys.map (·, .event)
    ++ m.preconditionNames.map (·, .precondition) ++ m.callbackNames.map (·, .callback)

/-- Check what single declarations cannot tell: enough states, an initial state, and no declared
name that the generated code defines as well. -/
def check (m : Model) : Except Error Unit :=
  match m.states.size with
  | 0 => .error .noStates
  | 1 => .error .singleState
  | _ =>
    if m.initialStates.isEmpty then .error .noInitialState
    else
      match m.declaredNames.find? fun (name, _) ↦ m.emittedNames.contains name with
      | some (name, kind) => .error (.nameConflict name kind .generated)
      | none => .ok ()

end Model

end StateGen
