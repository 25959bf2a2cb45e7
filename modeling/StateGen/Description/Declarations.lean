import StateGen.Declaration
import StateGen.Description

/-!
# The declarations of a description

Declarations are grouped by kind, so that a state may refer to states and events that are written
further down: first every state, then events, options, edges, initial states and hooks. Inside a
group they keep the order of the text.
-/

namespace StateGen.Description

/-- Guards attached to one target. -/
def preconditions (target : HookTarget) (names : List Ident) : List Declaration :=
  names.map fun i ↦ ⟨.precondition target i.name, i.span⟩

/-- Callbacks attached to one target. -/
def callbacks (target : HookTarget) (names : List Ident) : List Declaration :=
  names.map fun i ↦ ⟨.callback target i.name, i.span⟩

namespace StateEntry

/-- The edges of an entry. -/
def transitions (state : String) : StateEntry → List Declaration
  | .nextState edges => edges.targets.map fun t ↦ ⟨.transition state none t.name, t.span⟩
  | .onEvent event edge =>
    edge.targets.map fun t ↦ ⟨.transition state (some event.name) t.name, edge.span⟩
  | _ => []

/-- The hooks of an entry; the guards of direct edges go to each of their targets. -/
def hooks (state : String) : StateEntry → List Declaration
  | .entryPrecondition names => preconditions (.entry state) names
  | .exitPrecondition names => preconditions (.exit state) names
  | .onEnter names => callbacks (.entry state) names
  | .onExit names => callbacks (.exit state) names
  | .nextState edges =>
    edges.targets.flatMap fun t ↦ preconditions (.transition state t.name) edges.preconditions
  | .onEvent event edge => preconditions (.transition state event.name) edge.preconditions

end StateEntry

/-- The key of an option as the model knows it: hyphens are read as underscores. -/
def optionKey (written : String) : String := written.map fun c ↦ if c = '-' then '_' else c

namespace Item

/-- The state that an item declares. -/
def states : Item → List Declaration
  | .state s => [⟨.state s.name.name, s.name.span⟩]
  | _ => []

/-- The event that an item declares. -/
def events : Item → List Declaration
  | .event e => [⟨.event e.name.name, e.name.span⟩]
  | _ => []

/-- The option that an item sets. -/
def config : Item → List Declaration
  | .option o => [⟨.config (optionKey o.key.name) o.value, o.span⟩]
  | _ => []

/-- The edges that an item declares. -/
def transitions : Item → List Declaration
  | .state s => s.body.flatMap (StateEntry.transitions s.name.name)
  | _ => []

/-- The initial states that an item names. -/
def initials : Item → List Declaration
  | .initial i => i.states.map fun s ↦ ⟨.initial s.name, s.span⟩
  | .state s => if s.initial then [⟨.initial s.name.name, s.name.span⟩] else []
  | _ => []

/-- The hooks that an item attaches. -/
def hooks : Item → List Declaration
  | .event e =>
    preconditions (.event e.name.name) e.preconditions ++ callbacks (.event e.name.name) e.callbacks
  | .state s => s.body.flatMap (StateEntry.hooks s.name.name)
  | _ => []

end Item

/-- The declarations of a description, grouped by kind. -/
def declarations (d : Description) : List Declaration :=
  d.items.flatMap Item.states ++ d.items.flatMap Item.events ++ d.items.flatMap Item.config
    ++ d.items.flatMap Item.transitions ++ d.items.flatMap Item.initials
    ++ d.items.flatMap Item.hooks

end StateGen.Description
