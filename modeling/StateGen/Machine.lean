import StateGen.Log
import StateGen.Machine.Spec

/-!
# Running a machine

Advancing a machine asks the guards of the exit, the event, the edge and the entry, in this order,
until one refuses. If none does, the callbacks run and the target becomes the current state.
Guards and callbacks are arbitrary functions on a state of their own.
-/

namespace StateGen

namespace Machine

/-- The occasion on which a hook is called. -/
inductive Phase where
  | exitGuard
  | eventGuard
  | edgeGuard
  | entryGuard
  | exitCallback
  | eventCallback
  | entryCallback
deriving DecidableEq, Repr

namespace Phase

/-- Whether the hook is a guard. -/
def isGuard : Phase → Bool
  | .exitGuard | .eventGuard | .edgeGuard | .entryGuard => true
  | .exitCallback | .eventCallback | .entryCallback => false

/-- The name of an occasion. -/
def name : Phase → String
  | .exitGuard => "ExitGuard"
  | .eventGuard => "EventGuard"
  | .edgeGuard => "EdgeGuard"
  | .entryGuard => "EntryGuard"
  | .exitCallback => "ExitCallback"
  | .eventCallback => "EventCallback"
  | .entryCallback => "EntryCallback"

end Phase

/-- What a hook is told. -/
structure Occasion where
  phase : Phase
  /-- The state that is left. -/
  current : Nat
  /-- The state that is entered. -/
  next : Nat
  event : Option Nat
deriving DecidableEq, Repr

/-- A call of a hook. -/
structure Call where
  hook : String
  occasion : Occasion
deriving DecidableEq, Repr

/-- Guards and callbacks with a state of type `σ`. -/
structure Hooks (σ : Type) where
  /-- Ask a guard; true lets the transition go on. -/
  guard : Call → σ → Bool × σ
  /-- Run a callback. -/
  callback : Call → σ → σ

/-- What an advance asks for. -/
inductive Request where
  | event (ordinal : Nat)
  | target (ordinal : Nat)
deriving DecidableEq, Repr

namespace Request

/-- The text of a request in log records. -/
def display : Request → String
  | .event n => "Event(" ++ toString n ++ ")"
  | .target n => "Target(" ++ toString n ++ ")"

/-- Whether an edge serves a request: by its event, or by its target if it has no event. -/
def isServedBy (r : Request) (e : Edge) : Bool :=
  match r with
  | .event n => e.event == some n
  | .target n => e.event.isNone && e.target == n

end Request

end Machine

/-- A machine in a state. -/
structure Machine where
  spec : Machine.Spec
  /-- The number of the current state. -/
  current : Nat

namespace Machine

/-- Start a machine in one of its initial states. -/
def start (spec : Spec) (initial : Nat) : Except Status Machine :=
  if initial < spec.states.length && spec.initial.contains initial then .ok ⟨spec, initial⟩
  else .error .invalidState

/-- The record of a refused start. -/
def refusedRecord (initial : Nat) : Log.Record :=
  .mk .debug .machine ("rejected initial state " ++ toString initial)

/-- The current state. -/
def state? (m : Machine) : Option State := m.spec.states[m.current]?

/-- The name of the current state. -/
def stateName (m : Machine) : String := (m.state?.map State.name).getD ""

/-- The edge of the current state that serves a request. -/
def edge? (m : Machine) (r : Request) : Option Edge :=
  m.state?.bind fun s ↦ s.edges.find? r.isServedBy

/-- A transition that the machine is about to take. -/
structure Transition where
  source : State
  edge : Edge
  target : State
  /-- The event that triggers the edge, if it has one. -/
  event : Option Event

/-- The transition that serves a request. -/
def transition? (m : Machine) (r : Request) : Option Transition := do
  let source ← m.state?
  let edge ← m.edge? r
  let target ← m.spec.states[edge.target]?
  return { source, edge, target, event := edge.event.bind fun e ↦ m.spec.events[e]? }

/-- Calls of hooks on one occasion. -/
def callsOn (m : Machine) (t : Transition) (phase : Phase) (hooks : List String) : List Call :=
  hooks.map fun hook ↦ ⟨hook, ⟨phase, m.current, t.edge.target, t.edge.event⟩⟩

/-- The guards of a transition in the order in which they are asked. -/
def guardCalls (m : Machine) (t : Transition) : List Call :=
  m.callsOn t .exitGuard t.source.exitPreconditions
    ++ m.callsOn t .eventGuard ((t.event.map Event.preconditions).getD [])
    ++ m.callsOn t .edgeGuard t.edge.preconditions
    ++ m.callsOn t .entryGuard t.target.entryPreconditions

/-- The callbacks of a transition in the order in which they run. -/
def callbackCalls (m : Machine) (t : Transition) : List Call :=
  let onEvent := m.callsOn t .eventCallback ((t.event.map Event.callbacks).getD [])
  let onEnter := m.callsOn t .entryCallback t.target.onEnter
  m.callsOn t .exitCallback t.source.onExit
    ++ (if m.spec.callbackOrder.eventFirst then onEvent ++ onEnter else onEnter ++ onEvent)

/-- What became of asking guards. -/
structure Verdict (σ : Type) where
  /-- Whether every guard agreed. -/
  passed : Bool
  /-- The guards that were asked, up to the first that refused. -/
  asked : List Call
  /-- The state of the hooks afterwards. -/
  state : σ

/-- Ask guards in order until one refuses. -/
def askGuards {σ : Type} (hooks : Hooks σ) : List Call → σ → Verdict σ
  | [], s => ⟨true, [], s⟩
  | call :: calls, s =>
    match hooks.guard call s with
    | (false, s') => ⟨false, [call], s'⟩
    | (true, s') =>
      let v := askGuards hooks calls s'
      { v with asked := call :: v.asked }

/-- Run callbacks in order. -/
def runCallbacks {σ : Type} (hooks : Hooks σ) (calls : List Call) (s : σ) : σ :=
  calls.foldl (fun s call ↦ hooks.callback call s) s

/-- What became of an advance. -/
structure Outcome (σ : Type) where
  status : Status
  /-- The machine afterwards. -/
  machine : Machine
  /-- The state of the hooks afterwards. -/
  state : σ
  /-- The calls that were made. -/
  calls : List Call

/-- Attempt a transition. The current state changes only if every guard agrees. -/
def advance {σ : Type} (m : Machine) (r : Request) (hooks : Hooks σ) (s : σ) : Outcome σ :=
  match m.transition? r with
  | none => { status := .invalidTransition, machine := m, state := s, calls := [] }
  | some t =>
    let verdict := askGuards hooks (m.guardCalls t) s
    if verdict.passed then
      let calls := m.callbackCalls t
      { status := .ok
        machine := { m with current := t.edge.target }
        state := runCallbacks hooks calls verdict.state
        calls := verdict.asked ++ calls }
    else
      { status := .precondition, machine := m, state := verdict.state, calls := verdict.asked }

/-- The record of a call. -/
def callRecord (c : Call) : Log.Record :=
  let kind := if c.occasion.phase.isGuard then "guard " else "callback "
  .mk .trace .machine (kind ++ c.hook ++ " (" ++ c.occasion.phase.name ++ ")")

/-- The last record of an advance from `m`. An edge without a target state leaves none. -/
def outcomeRecord {σ : Type} (m : Machine) (r : Request) (o : Outcome σ) : List Log.Record :=
  match m.transition? r with
  | none =>
    if (m.edge? r).isSome then []
    else
      [.mk .debug .machine ("no transition from " ++ m.stateName ++ " for " ++ r.display)]
  | some t =>
    let step := t.source.name ++ " -> " ++ t.target.name
    match o.status, o.calls.getLast? with
    | .precondition, some c => [.mk .debug .machine (step ++ ": guard " ++ c.hook ++ " failed")]
    | _, _ => [.mk .debug .machine step]

/-- The records of an advance from `m`. -/
def records {σ : Type} (m : Machine) (r : Request) (o : Outcome σ) : List Log.Record :=
  o.calls.map callRecord ++ m.outcomeRecord r o

end Machine

end StateGen
