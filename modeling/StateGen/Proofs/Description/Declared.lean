import Mathlib.Data.List.Basic
import StateGen.Description.Declarations
import StateGen.Proofs.Model.Acceptance

/-!
# What the declarations of a description say

The states, events, edges and hooks of a description, read off its tree. Its declarations say the
same, grouped by kind: each reading of the declarations is a reading of the items, one after the
other.
-/

namespace StateGen

namespace Description

/-! ## What a description says -/

/-- An edge and the guards that are its own. -/
structure Edge where
  source : String
  event : Option String
  target : String
  guards : List String

/-- The event of an edge, or the target of a direct edge. -/
def Edge.key (e : Edge) : String := e.event.getD e.target

/-- The edges of an entry of a state; every target has an edge of its own. -/
def StateEntry.edges (source : String) : StateEntry → List Edge
  | .nextState edges =>
    edges.targets.map fun t ↦ ⟨source, none, t.name, edges.preconditions.map Ident.name⟩
  | .onEvent event edge =>
    edge.targets.map fun t ↦ ⟨source, some event.name, t.name, edge.preconditions.map Ident.name⟩
  | _ => []

/-- The guards of an entry that belong to the state itself. -/
def StateEntry.guardNames : StateEntry → List String
  | .entryPrecondition names | .exitPrecondition names => names.map Ident.name
  | _ => []

/-- The callbacks of an entry. -/
def StateEntry.callbackNames : StateEntry → List String
  | .onEnter names | .onExit names => names.map Ident.name
  | _ => []

namespace Item

/-- The name of a state. -/
def stateName? : Item → Option String
  | .state s => some s.name.name
  | _ => none

/-- The name of an event. -/
def eventName? : Item → Option String
  | .event e => some e.name.name
  | _ => none

/-- The key of an option, with hyphens read as underscores, and its value. -/
def setting? : Item → Option (String × String)
  | .option o => some (optionKey o.key.name, o.value)
  | _ => none

/-- The initial states that an item names, in a list or by the mark of a state. -/
def initialNames : Item → List String
  | .initial i => i.states.map Ident.name
  | .state s => if s.initial then [s.name.name] else []
  | _ => []

/-- The edges of a state. -/
def edges : Item → List Edge
  | .state s => s.body.flatMap (StateEntry.edges s.name.name)
  | _ => []

/-- The guards of a state or an event. -/
def guardNames : Item → List String
  | .event e => e.preconditions.map Ident.name
  | .state s => s.body.flatMap StateEntry.guardNames
  | _ => []

/-- The callbacks of a state or an event. -/
def callbackNames : Item → List String
  | .event e => e.callbacks.map Ident.name
  | .state s => s.body.flatMap StateEntry.callbackNames
  | _ => []

end Item

variable (d : Description)

/-- The states. -/
def stateNames : List String := d.items.filterMap Item.stateName?

/-- The events. -/
def eventNames : List String := d.items.filterMap Item.eventName?

/-- The options that are set, with their values. -/
def settings : List (String × String) := d.items.filterMap Item.setting?

/-- The initial states. -/
def initialNames : List String := d.items.flatMap Item.initialNames

/-- The edges. -/
def edges : List Edge := d.items.flatMap Item.edges

/-- The guards of states, events and edges; guards that are written where there is no edge guard
nothing. -/
def guardNames : List String := d.items.flatMap Item.guardNames ++ d.edges.flatMap Edge.guards

/-- The callbacks of states and events. -/
def callbackNames : List String := d.items.flatMap Item.callbackNames

/-- Every edge of an event has one target. -/
def SingleTargets : Prop :=
  ∀ s, .state s ∈ d.items → ∀ event edge, .onEvent event edge ∈ s.body →
    ∃ t, edge.targets = [t]

/-! ## Groups of declarations -/

/-- The groups in which a description declares. -/
inductive Group where
  | states
  | events
  | config
  | transitions
  | initials
  | hooks
deriving DecidableEq

namespace Group

/-- The groups in their order. -/
def all : List Group := [.states, .events, .config, .transitions, .initials, .hooks]

/-- The stage of a group. -/
def stage : Group → Nat
  | .states | .events | .config => 0
  | .transitions | .initials => 1
  | .hooks => 2

/-- The declarations of an item that belong to a group. -/
def ofItem : Group → Item → List Declaration
  | .states => Item.states
  | .events => Item.events
  | .config => Item.config
  | .transitions => Item.transitions
  | .initials => Item.initials
  | .hooks => Item.hooks

/-- The group of a kind of declaration. -/
def ofKind : Declaration.Kind → Group
  | .state _ => .states
  | .event _ => .events
  | .config _ _ => .config
  | .transition .. => .transitions
  | .initial _ => .initials
  | .precondition _ _ | .callback _ _ => .hooks

theorem stage_ofKind (kind : Declaration.Kind) : (ofKind kind).stage = kind.stage := by
  cases kind <;> rfl

end Group

private theorem StateEntry.ofKind_transitions {state : String} {entry : StateEntry}
    {e : Declaration} (h : e ∈ entry.transitions state) : Group.ofKind e.kind = .transitions := by
  cases entry <;> simp only [transitions, List.mem_map, List.not_mem_nil] at h
  all_goals
    obtain ⟨t, -, rfl⟩ := h
    rfl

private theorem StateEntry.ofKind_hooks {state : String} {entry : StateEntry} {e : Declaration}
    (h : e ∈ entry.hooks state) : Group.ofKind e.kind = .hooks := by
  cases entry <;>
    simp only [hooks, preconditions, callbacks, List.mem_flatMap, List.mem_map] at h
  case nextState =>
    obtain ⟨t, -, i, -, rfl⟩ := h
    rfl
  all_goals
    obtain ⟨i, -, rfl⟩ := h
    rfl

/-- A group holds only declarations of its kinds. -/
private theorem ofKind_of_mem {g : Group} {item : Item} {e : Declaration} (h : e ∈ g.ofItem item) :
    Group.ofKind e.kind = g := by
  cases g <;> cases item <;>
    simp only [Group.ofItem, Item.states, Item.events, Item.config, Item.transitions,
      Item.initials, Item.hooks, preconditions, callbacks, List.mem_append, List.mem_map,
      List.mem_flatMap, List.mem_singleton, List.not_mem_nil] at h
  case states.state | events.event | config.option =>
    subst h
    rfl
  case transitions.state =>
    obtain ⟨entry, -, h⟩ := h
    exact StateEntry.ofKind_transitions h
  case initials.initial =>
    obtain ⟨s, -, rfl⟩ := h
    rfl
  case initials.state =>
    split at h
    · rw [List.mem_singleton.1 h]
      rfl
    · cases h
  case hooks.event =>
    obtain ⟨i, -, rfl⟩ | ⟨i, -, rfl⟩ := h <;> rfl
  case hooks.state =>
    obtain ⟨entry, -, h⟩ := h
    exact StateEntry.ofKind_hooks h

private theorem declarations_eq_flatMap :
    d.declarations = Group.all.flatMap fun g ↦ d.items.flatMap g.ofItem := by
  simp [declarations, Group.all, Group.ofItem]

/-- A declaration is made by an item, in the group of its kind. -/
theorem exists_item_of_mem_declarations {e : Declaration} (h : e ∈ d.declarations) :
    ∃ item ∈ d.items, e ∈ (Group.ofKind e.kind).ofItem item := by
  rw [declarations_eq_flatMap] at h
  obtain ⟨g, -, h⟩ := List.mem_flatMap.1 h
  obtain ⟨item, hitem, he⟩ := List.mem_flatMap.1 h
  rw [ofKind_of_mem he]
  exact ⟨item, hitem, he⟩

/-- Names are declared before the edges and initial states that use them, and hooks last. -/
theorem staged_declarations : Declaration.Staged d.declarations := by
  have hstage {g : Group} {e : Declaration} (h : e ∈ d.items.flatMap g.ofItem) :
      e.kind.stage = g.stage := by
    obtain ⟨item, -, he⟩ := List.mem_flatMap.1 h
    rw [← Group.stage_ofKind, ofKind_of_mem he]
  have horder : Group.all.Pairwise fun g g' ↦ g.stage ≤ g'.stage := by decide
  rw [declarations_eq_flatMap, Declaration.Staged, List.pairwise_flatMap]
  constructor
  · intro g _
    apply List.pairwise_of_forall_mem_list
    intro a ha b hb
    exact Nat.le_of_eq ((hstage ha).trans (hstage hb).symm)
  · refine horder.imp fun hle a ha b hb ↦ ?_
    rw [hstage ha, hstage hb]
    exact hle

/-- What is said by declarations of one group is said by the items, one after the other. -/
theorem filterMap_declarations {α : Type} (f : Declaration.Kind → Option α) (g : Group)
    (hf : ∀ kind, (f kind).isSome → Group.ofKind kind = g) :
    d.declarations.filterMap (fun e ↦ f e.kind) =
      d.items.flatMap fun item ↦ (g.ofItem item).filterMap fun e ↦ f e.kind := by
  have hother {g' : Group} (hne : g' ≠ g) :
      (d.items.flatMap fun item ↦ (g'.ofItem item).filterMap fun e ↦ f e.kind) = [] := by
    rw [List.flatMap_eq_nil_iff]
    intro item _
    rw [List.filterMap_eq_nil_iff]
    intro e he
    cases hsome : f e.kind with
    | none => rfl
    | some a =>
      have hgroup := hf e.kind (by simp [hsome])
      rw [ofKind_of_mem he] at hgroup
      exact absurd hgroup hne
  -- All groups but one drop out.
  rw [declarations_eq_flatMap]
  simp only [List.filterMap_flatMap]
  cases g <;> simp [Group.all, hother]

/-! ## What the declarations say -/

open Declaration (linksFrom guardUses callbackUses Declares)

theorem stateNames_declarations : Declaration.stateNames d.declarations = d.stateNames := by
  rw [Declaration.stateNames, filterMap_declarations d _ .states
    (by intro kind; cases kind <;> simp [Group.ofKind]), stateNames,
    List.filterMap_eq_flatMap_toList]
  congr 1
  funext item
  cases item <;> rfl

theorem eventNames_declarations : Declaration.eventNames d.declarations = d.eventNames := by
  rw [Declaration.eventNames, filterMap_declarations d _ .events
    (by intro kind; cases kind <;> simp [Group.ofKind]), eventNames,
    List.filterMap_eq_flatMap_toList]
  congr 1
  funext item
  cases item <;> rfl

theorem initialNames_declarations : Declaration.initialNames d.declarations = d.initialNames := by
  rw [Declaration.initialNames, filterMap_declarations d _ .initials
    (by intro kind; cases kind <;> simp [Group.ofKind]), initialNames]
  congr 1
  funext item
  cases item with
  | state s => cases h : s.initial <;> simp [Group.ofItem, Item.initials, Item.initialNames, h]
  | initial i =>
    simp [Group.ofItem, Item.initials, Item.initialNames, List.filterMap_map]
  | option o | event e => rfl

/-- An edge as it is declared. -/
def Edge.link (e : Edge) : Declaration.Link := ⟨e.event, e.target⟩

private theorem StateEntry.filterMap_transitions (state source : String) (entry : StateEntry) :
    ((entry.transitions state).filterMap fun e ↦ e.kind.linkFrom? source) =
      ((entry.edges state).filter (·.source = source)).map Edge.link := by
  by_cases h : state = source <;> cases entry <;>
    simp [transitions, edges, List.filterMap_map, List.filter_map, Function.comp_def, Edge.link, h]

theorem linksFrom_declarations (source : String) :
    linksFrom d.declarations source =
      (d.edges.filter (·.source = source)).map Edge.link := by
  rw [linksFrom, filterMap_declarations d _ .transitions
    (by intro kind; cases kind <;> simp [Group.ofKind]), edges, List.filter_flatMap,
    List.map_flatMap]
  congr 1
  funext item
  cases item with
  | state s =>
    simp only [Group.ofItem, Item.transitions, Item.edges, List.filterMap_flatMap,
      List.filter_flatMap, List.map_flatMap, StateEntry.filterMap_transitions]
  | option o | initial i | event e => rfl

theorem settings_declarations (key : String) :
    (d.declarations.filterMap fun e ↦ e.kind.optionValue? key) =
      (d.settings.filter (·.1 = key)).map Prod.snd := by
  rw [filterMap_declarations d _ .config
    (by intro kind; cases kind <;> simp [Group.ofKind]), settings, List.filterMap_eq_flatMap_toList,
    List.filter_flatMap, List.map_flatMap]
  congr 1
  funext item
  cases item with
  | option o =>
    by_cases h : optionKey o.key.name = key <;>
      simp [Group.ofItem, Item.config, Item.setting?, h]
  | state s | initial i | event e => rfl

/-! ## Hooks -/

/-- What a declaration attaches a hook to. -/
def hookTarget? : Declaration.Kind → Option HookTarget
  | .precondition t _ | .callback t _ => some t
  | _ => none

private theorem StateEntry.hookTarget_cases {state : String} {entry : StateEntry}
    (hentry : ∀ event edge, entry = .onEvent event edge → ∃ t, edge.targets = [t])
    {e : Declaration} (he : e ∈ entry.hooks state) {t : HookTarget}
    (ht : hookTarget? e.kind = some t) :
    t = .entry state ∨ t = .exit state ∨
      ∃ edge ∈ entry.edges state, t = .transition state edge.key := by
  cases entry <;>
    simp only [hooks, preconditions, callbacks, List.mem_flatMap, List.mem_map] at he
  case nextState edges =>
    obtain ⟨target, htarget, i, -, rfl⟩ := he
    cases ht
    exact .inr (.inr ⟨_, List.mem_map_of_mem htarget, rfl⟩)
  case onEvent event edge =>
    obtain ⟨i, -, rfl⟩ := he
    cases ht
    obtain ⟨target, htargets⟩ := hentry event edge rfl
    have htarget : target ∈ edge.targets := by simp [htargets]
    exact .inr (.inr ⟨_, List.mem_map_of_mem htarget, rfl⟩)
  all_goals
    obtain ⟨i, -, rfl⟩ := he
    cases ht
    simp

theorem StateEntry.source_of_mem_edges {state : String} {entry : StateEntry} {e : Edge}
    (h : e ∈ entry.edges state) : e.source = state := by
  cases entry <;> simp only [StateEntry.edges, List.mem_map, List.not_mem_nil] at h
  all_goals
    obtain ⟨_, -, rfl⟩ := h
    rfl

variable {d}

theorem mem_stateNames {s : StateItem} (h : .state s ∈ d.items) :
    s.name.name ∈ d.stateNames :=
  List.mem_filterMap.2 ⟨_, h, rfl⟩

/-- Hooks hang on states, events and edges of the description. -/
theorem declares_of_mem_hooks (hd : d.SingleTargets) {item : Item}
    (hitem : item ∈ d.items) {e : Declaration} (he : e ∈ item.hooks) {t : HookTarget}
    (ht : hookTarget? e.kind = some t) : Declares d.declarations t := by
  cases item with
  | option o | initial i => cases he
  | event ev =>
    have hname : ev.name.name ∈ Declaration.eventNames d.declarations := by
      rw [eventNames_declarations]
      exact List.mem_filterMap.2 ⟨_, hitem, rfl⟩
    simp only [Item.hooks, preconditions, callbacks, List.mem_append, List.mem_map] at he
    obtain ⟨i, -, rfl⟩ | ⟨i, -, rfl⟩ := he <;>
    · cases ht
      exact hname
  | state s =>
    obtain ⟨entry, hentry, he⟩ := List.mem_flatMap.1 he
    have hsingle : ∀ event edge, entry = .onEvent event edge → ∃ t, edge.targets = [t] := by
      rintro event edge rfl
      exact hd s hitem event edge hentry
    have hname : s.name.name ∈ Declaration.stateNames d.declarations := by
      rw [stateNames_declarations]
      exact mem_stateNames hitem
    obtain rfl | rfl | ⟨edge, hedge, rfl⟩ := StateEntry.hookTarget_cases hsingle he ht
    · exact hname
    · exact hname
    · have hsource : edge.source = s.name.name := StateEntry.source_of_mem_edges hedge
      have hmem : edge ∈ d.edges :=
        List.mem_flatMap.2 ⟨_, hitem, List.mem_flatMap.2 ⟨entry, hentry, hedge⟩⟩
      refine ⟨edge.link, ?_, rfl⟩
      rw [linksFrom_declarations]
      exact List.mem_map_of_mem (List.mem_filter.2 ⟨hmem, by simpa using hsource⟩)

theorem mem_items_of_filterMap_ne_nil {f : Declaration.Kind → Option String}
    (hf : ∀ kind, (f kind).isSome → Group.ofKind kind = .hooks)
    (h : d.declarations.filterMap (fun e ↦ f e.kind) ≠ []) :
    ∃ item ∈ d.items, ∃ e ∈ item.hooks, (f e.kind).isSome := by
  rw [filterMap_declarations d f .hooks hf] at h
  obtain ⟨name, hname⟩ := List.exists_mem_of_ne_nil _ h
  obtain ⟨item, hitem, hname⟩ := List.mem_flatMap.1 hname
  obtain ⟨e, he, hname⟩ := List.mem_filterMap.1 hname
  exact ⟨item, hitem, e, he, by simp [hname]⟩

private theorem StateEntry.mem_guardNames_iff {state name : String} {entry : StateEntry}
    (hentry : ∀ event edge, entry = .onEvent event edge → ∃ t, edge.targets = [t]) :
    (name ∈ (entry.hooks state).filterMap fun e ↦ e.kind.guardName?) ↔
      name ∈ entry.guardNames ∨ ∃ e ∈ entry.edges state, name ∈ e.guards := by
  cases entry with
  | nextState edges => simp [hooks, preconditions, StateEntry.guardNames, StateEntry.edges]
  | onEvent event edge =>
    obtain ⟨t, ht⟩ := hentry event edge rfl
    simp [hooks, preconditions, StateEntry.guardNames, StateEntry.edges, ht]
  | entryPrecondition names | exitPrecondition names | onEnter names | onExit names =>
    simp [hooks, preconditions, callbacks, StateEntry.guardNames, StateEntry.edges]

private theorem Item.mem_guardNames_iff (hd : d.SingleTargets) {item : Item}
    (hitem : item ∈ d.items) {name : String} :
    (name ∈ item.hooks.filterMap fun e ↦ e.kind.guardName?) ↔
      name ∈ item.guardNames ∨ ∃ e ∈ item.edges, name ∈ e.guards := by
  cases item with
  | option o | initial i => simp [hooks, Item.guardNames, Item.edges]
  | event e => simp [hooks, preconditions, callbacks, Item.guardNames, Item.edges]
  | state s =>
    have hentry (entry : StateEntry) (hmem : entry ∈ s.body) :
        (name ∈ (entry.hooks s.name.name).filterMap fun e ↦ e.kind.guardName?) ↔
          name ∈ entry.guardNames ∨ ∃ e ∈ entry.edges s.name.name, name ∈ e.guards := by
      apply StateEntry.mem_guardNames_iff
      rintro event edge rfl
      exact hd s hitem event edge hmem
    simp only [hooks, Item.guardNames, Item.edges, List.filterMap_flatMap, List.mem_flatMap]
    constructor
    · rintro ⟨entry, hmem, hname⟩
      rcases (hentry entry hmem).1 hname with hguard | ⟨e, he, hguard⟩
      · exact .inl ⟨entry, hmem, hguard⟩
      · exact .inr ⟨e, ⟨entry, hmem, he⟩, hguard⟩
    · rintro (⟨entry, hmem, hguard⟩ | ⟨e, ⟨entry, hmem, he⟩, hguard⟩)
      · exact ⟨entry, hmem, (hentry entry hmem).2 (.inl hguard)⟩
      · exact ⟨entry, hmem, (hentry entry hmem).2 (.inr ⟨e, he, hguard⟩)⟩

/-- The guards that are attached are those of the description. -/
theorem mem_guardUses_declarations (hd : d.SingleTargets) {name : String} :
    name ∈ guardUses d.declarations ↔ name ∈ d.guardNames := by
  rw [guardUses, filterMap_declarations d _ .hooks
    (by intro kind; cases kind <;> simp [Group.ofKind])]
  simp only [Group.ofItem, guardNames, edges, List.mem_append, List.mem_flatMap]
  constructor
  · rintro ⟨item, hitem, hname⟩
    rcases (Item.mem_guardNames_iff hd hitem).1 hname with hguard | ⟨e, he, hguard⟩
    · exact .inl ⟨item, hitem, hguard⟩
    · exact .inr ⟨e, ⟨item, hitem, he⟩, hguard⟩
  · rintro (⟨item, hitem, hguard⟩ | ⟨e, ⟨item, hitem, he⟩, hguard⟩)
    · exact ⟨item, hitem, (Item.mem_guardNames_iff hd hitem).2 (.inl hguard)⟩
    · exact ⟨item, hitem, (Item.mem_guardNames_iff hd hitem).2 (.inr ⟨e, he, hguard⟩)⟩

private theorem StateEntry.filterMap_callbacks (state : String) (entry : StateEntry) :
    ((entry.hooks state).filterMap fun e ↦ e.kind.callbackName?) = entry.callbackNames := by
  cases entry <;>
    simp [hooks, preconditions, callbacks, StateEntry.callbackNames, List.filterMap_map,
      List.filterMap_flatMap]

/-- The callbacks that are attached are those of the description. -/
theorem callbackUses_declarations : callbackUses d.declarations = d.callbackNames := by
  rw [callbackUses, filterMap_declarations d _ .hooks
    (by intro kind; cases kind <;> simp [Group.ofKind]), callbackNames]
  congr 1
  funext item
  cases item with
  | option o | initial i => rfl
  | event e =>
    simp [Group.ofItem, Item.hooks, preconditions, callbacks, Item.callbackNames,
      List.filterMap_map]
  | state s =>
    simp only [Group.ofItem, Item.hooks, Item.callbackNames, List.filterMap_flatMap,
      StateEntry.filterMap_callbacks]

/-- Edges have guards only. -/
theorem callbacksOn_transition_declarations (source via : String) :
    Declaration.callbacksOn d.declarations (.transition source via) = [] := by
  rw [Declaration.callbacksOn, filterMap_declarations d _ .hooks
    (by intro kind; cases kind <;> simp [Group.ofKind]), List.flatMap_eq_nil_iff]
  intro item _
  cases item with
  | option o | initial i => rfl
  | event e => simp [Group.ofItem, Item.hooks, preconditions, callbacks, List.filterMap_map]
  | state s =>
    simp only [Group.ofItem, Item.hooks, List.filterMap_flatMap, List.flatMap_eq_nil_iff]
    intro entry _
    cases entry <;>
      simp [StateEntry.hooks, preconditions, callbacks, List.filterMap_map, List.filterMap_flatMap]

end Description

end StateGen
