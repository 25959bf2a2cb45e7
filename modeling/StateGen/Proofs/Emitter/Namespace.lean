import StateGen.Proofs.Emitter
import StateGen.Proofs.Machine.Loading

/-!
# A namespace in the terms of its machine

The entries of a namespace, stated with the machine that is loaded from it instead of with
declarations. Templates read the namespace and the emitter reads the machine; this is where the two
meet.
-/

namespace StateGen.Emitter

open Machine Declaration

/-- Names with their numbers as a value. -/
def numbers (names : List String) : Value :=
  .map ⟨names.zipIdx.map fun (name, i) ↦ (name, .int i)⟩

/-- A table of hooks as a value. -/
def hooks {α : Type} (xs : List α) (name : α → String) (hooks : α → List String) : Value :=
  .map ⟨xs.map fun x ↦ (name x, .ofStrings (hooks x))⟩

/-- An edge with the names of its target and its event. -/
def edgeRecord (spec : Spec) (e : Edge) : Model.Edge where
  target := spec.stateNameD e.target
  targetOrdinal := e.target
  event := e.event.map fun i : Nat ↦ spec.eventNameD i
  preconditions := e.preconditions

/-- The edges of a state as a value. -/
def edges (spec : Spec) (s : State) : Value :=
  .map ⟨s.edges.map fun e ↦ (e.key, (edgeRecord spec e).toValue)⟩

/-- The entries of a namespace. Those for events are there only if the machine has events. -/
structure Describes (root : Value) (spec : Spec) (cfg : Settings) : Prop where
  option : ∀ key ∈ Config.keys, root.get? key = some (.str (cfg.option key))
  invalidName : root.get? "invalid_name" = some (.str spec.invalidName)
  inputPath : root.get? "input_path" = some (.str cfg.inputPath)
  status : ∀ s : Status, root.get? s.namespaceKey = some (.int s.code)
  states : root.get? "states" = some (numbers (spec.states.map State.name))
  initial : root.get? "initial_states" = some (.ofStrings (initialNames spec))
  entryCallbacks : root.get? "transition_entry_callbacks" =
    some (hooks spec.states State.name State.onEnter)
  exitCallbacks : root.get? "transition_exit_callbacks" =
    some (hooks spec.states State.name State.onExit)
  entryGuards : root.get? "transition_entry_preconds" =
    some (hooks spec.states State.name State.entryPreconditions)
  exitGuards : root.get? "transition_exit_preconds" =
    some (hooks spec.states State.name State.exitPreconditions)
  transitions : root.get? "transitions" =
    some (.map ⟨spec.states.map fun s ↦ (s.name, edges spec s)⟩)
  minState : root.get? "min_state_valid" = some (.int 0)
  maxState : root.get? "max_state_valid" = some (.int (spec.states.length - 1 : Nat))
  eventDriven : root.get? "event_driven" = some (.ofBool spec.eventDriven)
  eventFirst : root.get? "event_callback_first" = some (.ofBool spec.callbackOrder.eventFirst)
  guardNames : root.get? "precondition_names" = some (.ofStrings cfg.guardNames)
  callbackNames : root.get? "callback_names" = some (.ofStrings cfg.callbackNames)
  events : spec.eventDriven = true →
    root.get? "events" = some (numbers (spec.events.map Event.name))
  eventCallbacks : root.get? "event_callbacks" =
    some (hooks spec.events Event.name Event.callbacks)
  eventGuards : root.get? "event_preconds" =
    some (hooks spec.events Event.name Event.preconditions)
  minEvent : spec.eventDriven = true → root.get? "min_event_valid" = some (.int 0)
  maxEvent : spec.eventDriven = true →
    root.get? "max_event_valid" = some (.int (spec.events.length - 1 : Nat))
  /-- Every edge of a machine with events has one as its key. -/
  edgeEvent : spec.eventDriven = true → ∀ s ∈ spec.states, ∀ e ∈ s.edges,
    (edgeRecord spec e).event = some e.key

section

variable {ds : List Declaration}

private theorem getElem?_idxOf {names : List String} {name : String} (h : name ∈ names) :
    names[names.idxOf name]? = some name := by
  rw [List.getElem?_eq_getElem (List.idxOf_lt_length_of_mem h), List.getElem_idxOf]

/-- The number of a state leads back to its name. -/
theorem stateNameD_idxOf {name : String} (h : name ∈ stateNames ds) :
    (Spec.declaredBy ds).stateNameD ((stateNames ds).idxOf name : Nat) = name := by
  simp [Spec.stateNameD, Spec.stateName?, Spec.declaredBy, State.declaredBy, getElem?_idxOf h]

private theorem eventNameD_idxOf {name : String} (h : name ∈ eventNames ds) :
    (Spec.declaredBy ds).eventNameD ((eventNames ds).idxOf name : Nat) = name := by
  simp [Spec.eventNameD, Spec.eventName?, Spec.declaredBy, Event.declaredBy, getElem?_idxOf h]

theorem initialNames_declaredBy (hc : Consistent ds) :
    initialNames (Spec.declaredBy ds) = Declaration.initialNames ds := by
  have hmap : (Declaration.initialNames ds).map (fun name ↦
      (Spec.declaredBy ds).stateNameD ((stateNames ds).idxOf name : Nat)) =
      (Declaration.initialNames ds).map id :=
    List.map_congr_left fun name hname ↦ stateNameD_idxOf (hc.initial_declared name hname)
  rw [List.map_id] at hmap
  rw [← hmap, initialNames, Spec.declaredBy, List.map_map]
  rfl

/-- The record of a declared edge has the names of its declaration. -/
private theorem edgeRecord_declaredBy (hc : Consistent ds) {source : String} {e : Link}
    (he : e ∈ linksFrom ds source) :
    edgeRecord (Spec.declaredBy ds) (Edge.declaredBy ds source e) =
      ⟨e.target, (stateNames ds).idxOf e.target, e.event,
        guardsOn ds (.transition source e.key)⟩ := by
  have hevent : (e.event.map (eventNames ds).idxOf).map
      (fun i : Nat ↦ (Spec.declaredBy ds).eventNameD i) = e.event := by
    cases h : e.event with
    | none => rfl
    | some name =>
      simp only [Option.map_some, eventNameD_idxOf (hc.event_declared source e he name h)]
  simp only [edgeRecord, Edge.declaredBy, hevent,
    stateNameD_idxOf (hc.target_declared source e he)]

private theorem edges_declaredBy (hc : Consistent ds) (name : String) :
    edges (Spec.declaredBy ds) (State.declaredBy ds name) =
      .map ((Model.edgesDeclaredBy ds name).mapValues Model.Edge.toValue) := by
  rw [Model.edgesDeclaredBy, OrderedMap.mapValues_tabulate, OrderedMap.tabulate, edges,
    State.declaredBy, List.map_map]
  refine congrArg (fun entries ↦ Value.map ⟨entries⟩) (List.map_congr_left fun e he ↦ ?_)
  simp only [Function.comp_apply, edgeRecord_declaredBy hc he]
  rfl

/-- A table of hooks, read off states or events that are named by the names in it. -/
private theorem hookTable_table {α : Type} (names : List String) (declared : String → α)
    (name : α → String) (f : α → List String) (hname : ∀ n, name (declared n) = n) :
    Model.hookTable (.table (fun n ↦ f (declared n)) names) =
      hooks (names.map declared) name f := by
  rw [Model.hookTable, OrderedMap.table, OrderedMap.mapValues_tabulate, hooks, List.map_map]
  refine congrArg (fun entries ↦ Value.map ⟨entries⟩) (List.map_congr_left fun n _ ↦ ?_)
  simp only [Function.comp_apply, hname, id]

private theorem stateHooks (f : State → List String) :
    Model.hookTable (.table (fun name ↦ f (State.declaredBy ds name)) (stateNames ds)) =
      hooks (Spec.declaredBy ds).states State.name f :=
  hookTable_table _ _ _ f fun _ ↦ rfl

private theorem eventHooks (f : Event → List String) :
    Model.hookTable (.table (fun name ↦ f (Event.declaredBy ds name)) (eventNames ds)) =
      hooks (Spec.declaredBy ds).events Event.name f :=
  hookTable_table _ _ _ f fun _ ↦ rfl

private theorem transitionTable_declaredBy (hc : Consistent ds) :
    Model.transitionTable (.table (Model.edgesDeclaredBy ds) (stateNames ds)) =
      .map ⟨(Spec.declaredBy ds).states.map fun s ↦ (s.name, edges (Spec.declaredBy ds) s)⟩ := by
  rw [Model.transitionTable, OrderedMap.table, OrderedMap.mapValues_tabulate, OrderedMap.tabulate]
  simp only [Spec.declaredBy, List.map_map]
  refine congrArg (fun entries ↦ Value.map ⟨entries⟩) (List.map_congr_left fun name _ ↦ ?_)
  exact congrArg (Prod.mk name) (edges_declaredBy hc name).symm

theorem map_name_states :
    (Spec.declaredBy ds).states.map State.name = stateNames ds := by
  simp [Spec.declaredBy, State.declaredBy, Function.comp_def]

private theorem map_name_events :
    (Spec.declaredBy ds).events.map Event.name = eventNames ds := by
  simp [Spec.declaredBy, Event.declaredBy, Function.comp_def]

theorem textAt_eq {root : Value} {key s : String} (h : root.get? key = some (.str s)) :
    Settings.textAt root key = s := by
  rw [Settings.textAt, h]

theorem namesAt_eq {root : Value} {key : String} {names : List String}
    (h : root.get? key = some (.ofStrings names)) : Settings.namesAt root key = names := by
  rw [Settings.namesAt, h]
  simp [names_ofStrings, Except.toOption]

/-- A namespace of declarations has the entries of the machine that they declare. -/
theorem describes_of_publishes {root : Value} {inputPath : String} (hc : Consistent ds)
    (hne : stateNames ds ≠ []) (hp : Model.Publishes root inputPath ds) :
    Describes root (Spec.declaredBy ds) (.ofNamespace root) := by
  have hdriven : (Spec.declaredBy ds).eventDriven = true → eventNames ds ≠ [] := by
    simp [Spec.declaredBy]
  have hstates : (Spec.declaredBy ds).states.length = (stateNames ds).length := List.length_map _
  have hevents : (Spec.declaredBy ds).events.length = (eventNames ds).length := List.length_map _
  constructor
  case option =>
    intro key hkey
    simp only [Settings.ofNamespace, textAt_eq (hp.option key hkey)]
    exact hp.option key hkey
  case invalidName => exact hp.option "invalid_name" (by simp [Config.keys, Config.defaults])
  case inputPath =>
    rw [Settings.ofNamespace, textAt_eq hp.inputPath]
    exact hp.inputPath
  case status => exact hp.status
  case states =>
    rw [map_name_states]
    exact hp.states
  case initial =>
    rw [initialNames_declaredBy hc]
    exact hp.initial
  case entryCallbacks =>
    rw [hp.entryCallbacks, ← stateHooks]
    rfl
  case exitCallbacks =>
    rw [hp.exitCallbacks, ← stateHooks]
    rfl
  case entryGuards =>
    rw [hp.entryGuards, ← stateHooks]
    rfl
  case exitGuards =>
    rw [hp.exitGuards, ← stateHooks]
    rfl
  case eventCallbacks =>
    rw [hp.eventCallbacks, ← eventHooks]
    rfl
  case eventGuards =>
    rw [hp.eventGuards, ← eventHooks]
    rfl
  case transitions =>
    rw [hp.transitions, transitionTable_declaredBy hc]
  case minState => exact hp.minState hne
  case maxState =>
    rw [hstates]
    exact hp.maxState hne
  case eventDriven => exact hp.eventDriven
  case eventFirst => exact hp.eventFirst
  case guardNames =>
    rw [Settings.ofNamespace, namesAt_eq hp.guardNames]
    exact hp.guardNames
  case callbackNames =>
    rw [Settings.ofNamespace, namesAt_eq hp.callbackNames]
    exact hp.callbackNames
  case events =>
    intro h
    rw [map_name_events, hp.events, if_neg (hdriven h)]
    rfl
  case minEvent =>
    intro h
    exact hp.minEvent (hdriven h)
  case maxEvent =>
    intro h
    rw [hevents]
    exact hp.maxEvent (hdriven h)
  case edgeEvent =>
    intro h s hs e he
    obtain ⟨name, -, rfl⟩ := List.mem_map.1 hs
    obtain ⟨link, hlink, rfl⟩ := List.mem_map.1 he
    rw [edgeRecord_declaredBy hc hlink]
    cases hevent : link.event with
    | none => exact absurd (hc.events_of_direct name link hlink hevent) (hdriven h)
    | some event => simp [Edge.declaredBy, Link.key, hevent]

end

end StateGen.Emitter
