import StateGen.Proofs.Config
import StateGen.Proofs.Model.Declared

/-!
# What a namespace holds

The entries of the namespace that a list of declarations leads to, key by key. Tables have an entry
for every state or event, and the table of events and its bounds exist only if there are events.
-/

namespace StateGen

open Declaration

/-- The value of an option. -/
def Declaration.optionOf (ds : List Declaration) (key : String) : String :=
  (lastOption ds key).getD ((Config.defaults.lookup key).getD "")

/-- Whatever an option was set to was checked, and every default passes its own check. -/
theorem Declaration.Consistent.isValid_optionOf {ds : List Declaration} (hc : Consistent ds)
    {key : String} (h : key ∈ Config.keys) : Config.isValid key (optionOf ds key) := by
  rw [optionOf]
  cases hlast : lastOption ds key with
  | none => exact Config.isValid_default h
  | some value => exact (hc.options_valid key value hlast).2

/-- The order of the callbacks. -/
def Declaration.callbackOrderOf (ds : List Declaration) : CallbackOrder :=
  match lastOption ds "callback_order" with
  | some name => (CallbackOrder.ofName name).toOption.getD .default
  | none => .default

namespace Model

private theorem lookup_map_str (entries : List (String × String)) (key : String) :
    (entries.map fun (k, v) ↦ (k, Value.str v)).lookup key = (entries.lookup key).map .str := by
  induction entries with
  | nil => rfl
  | cons e es ih =>
    rw [List.map_cons, OrderedMap.lookup_entry_cons, OrderedMap.lookup_entry_cons, ih]
    by_cases h : key = e.1 <;> simp [h]

/-- What stands under a key that is not one of an option. -/
private theorem get?_publish_of_not_mem {m : Model} {key : String} (h : key ∉ m.options.keys) :
    m.publish.root.get? key =
      ([("input_path", Value.str m.inputPath)]
        ++ (Status.all.map fun s ↦ (s.namespaceKey, Value.int s.code))
        ++ m.tableEntries ++ m.derivedEntries).lookup key := by
  have hoption : m.options.entries.lookup key = none := OrderedMap.get?_eq_none_of_not_mem h
  simp only [publish, Value.get?, OrderedMap.get?, configEntries, List.append_assoc]
  rw [List.lookup_append, lookup_map_str, hoption, Option.map_none, Option.none_or]

private theorem get?_publish_of_option {m : Model} {key value : String}
    (h : m.options.get? key = some value) : m.publish.root.get? key = some (.str value) := by
  have hoption : m.options.entries.lookup key = some value := h
  simp only [publish, Value.get?, OrderedMap.get?, configEntries, List.append_assoc]
  rw [List.lookup_append, lookup_map_str, hoption, Option.map_some, Option.some_or]

variable {inputPath : String} {ds : List Declaration}

/-- The options of the model are those that exist. -/
theorem keys_options_declaredBy : (declaredBy inputPath ds).options.keys = Config.keys :=
  OrderedMap.keys_tabulate ..

theorem get?_options_declaredBy {key : String} (h : key ∈ Config.keys) :
    (declaredBy inputPath ds).options.get? key = some (optionOf ds key) := by
  obtain ⟨⟨k, value⟩, hmem, rfl⟩ := List.mem_map.1 h
  have hdefault := OrderedMap.get?_tabulate Prod.snd nodup_keys_defaults hmem
  have hvalue := OrderedMap.get?_tabulate (fun o ↦ (lastOption ds o.1).getD o.2)
    nodup_keys_defaults hmem
  simp only [OrderedMap.get?, OrderedMap.tabulate, List.map_id'] at hdefault
  simp only [declaredBy, optionOf, hdefault, Option.getD_some, hvalue]

/-- An option has the value to which it was set last, or its default. -/
theorem option_declaredBy {key : String} (h : key ∈ Config.keys) :
    (declaredBy inputPath ds).option key = optionOf ds key := by
  rw [option, get?_options_declaredBy h, Option.getD_some]

/-- The names of the generated code: a macro and eight functions that options name, a function for
every kind of hook and occasion, and the tables of names. -/
def generatedNames (option : String → String) : List String :=
  [option "header_guard", option "init_func", option "free_func", option "advance_func",
    option "current_state_func", option "state_ntop_func", option "state_ntop_safe_func",
    option "event_ntop_func", option "event_ntop_safe_func",
    option "fsm_struct" ++ "_exit_preconds", option "fsm_struct" ++ "_event_preconds",
    option "fsm_struct" ++ "_edge_preconds", option "fsm_struct" ++ "_entry_preconds",
    option "fsm_struct" ++ "_exit_callbacks", option "fsm_struct" ++ "_event_callbacks",
    option "fsm_struct" ++ "_entry_callbacks",
    option "state_enum" ++ "_names", option "event_enum" ++ "_names"]

/-- Declared names are checked against exactly the names of the generated code. -/
theorem emittedNames_eq_generatedNames (m : Model) : m.emittedNames = generatedNames m.option := by
  have hkeys : Config.functionKeys = ["header_guard", "init_func", "free_func", "advance_func",
      "current_state_func", "state_ntop_func", "state_ntop_safe_func", "event_ntop_func",
      "event_ntop_safe_func"] := by decide
  simp [emittedNames, generatedNames, hkeys, helperSuffixes, String.append_assoc]

/-- The names of the generated code depend on nothing but options. -/
theorem generatedNames_congr {option option' : String → String}
    (h : ∀ key ∈ Config.keys, option key = option' key) :
    generatedNames option = generatedNames option' := by
  simp (disch := decide) only [generatedNames, h]

theorem emittedNames_declaredBy :
    (declaredBy inputPath ds).emittedNames = generatedNames (optionOf ds) := by
  rw [emittedNames_eq_generatedNames]
  exact generatedNames_congr fun _ ↦ option_declaredBy

private theorem callbackOrder_declaredBy :
    (declaredBy inputPath ds).callbackOrder = callbackOrderOf ds := by
  have hkey : "callback_order" ∈ Config.keys := by simp [Config.keys, Config.defaults]
  rw [callbackOrder, option_declaredBy hkey, callbackOrderOf, optionOf]
  cases lastOption ds "callback_order" with
  | none => rfl
  | some name =>
    simp only [Option.getD_some]
    cases CallbackOrder.ofName name <;> rfl

/-- There are events if and only if some were declared. -/
theorem isEmpty_events_declaredBy :
    (declaredBy inputPath ds).events.isEmpty = (eventNames ds).isEmpty := by
  rw [declaredBy, OrderedMap.isEmpty, OrderedMap.numbered]
  cases eventNames ds <;> rfl

private theorem style_declaredBy :
    ((declaredBy inputPath ds).style == some .eventDriven) = !(eventNames ds).isEmpty := by
  simp only [declaredBy, styleDeclaredBy]
  split <;> simp_all

private theorem values_numbered (names : List String) :
    (OrderedMap.numbered names).values = List.range names.length := by
  rw [List.range_eq_range']
  exact List.zipIdx_map_snd 0 names

private theorem bounds_numbered (low high : String) (names : List String) :
    bounds low high (.numbered names) =
      if names = [] then [] else [(low, ordinal 0), (high, ordinal (names.length - 1))] := by
  cases names with
  | nil => rfl
  | cons n ns => simp [bounds, values_numbered, List.head?_range, List.getLast?_range]

private theorem lookup_ite {c : Prop} [Decidable c] (key : String) (as bs : List (String × Value)) :
    (if c then as else bs).lookup key = if c then as.lookup key else bs.lookup key := by
  split <;> rfl

/-! ## The record of an edge -/

private theorem Edge.get?_toValue (e : Edge) (key : String) :
    e.toValue.get? key =
      if key = "target" then some (.str e.target)
      else if key = "target_ordinal" then some (ordinal e.targetOrdinal)
      else if key = "event" then e.event.map .str
      else if key = "preconds" then some (.ofStrings e.preconditions)
      else none := by
  cases he : e.event with
  | none =>
    simp only [toValue, he, Value.get?, OrderedMap.get?, List.append_nil, List.cons_append,
      List.nil_append, OrderedMap.lookup_entry_cons, List.lookup_nil, Option.map_none]
    by_cases hkey : key = "event"
    · simp only [hkey, String.reduceEq, reduceIte]
    · simp only [hkey, reduceIte]
  | some event =>
    simp only [toValue, he, Value.get?, OrderedMap.get?, List.cons_append, List.nil_append,
      OrderedMap.lookup_entry_cons, List.lookup_nil, Option.map_some]

theorem Edge.get?_target (e : Edge) : e.toValue.get? "target" = some (.str e.target) := by
  simp only [get?_toValue, reduceIte]

theorem Edge.get?_targetOrdinal (e : Edge) :
    e.toValue.get? "target_ordinal" = some (ordinal e.targetOrdinal) := by
  simp only [get?_toValue, String.reduceEq, reduceIte]

theorem Edge.get?_event (e : Edge) : e.toValue.get? "event" = e.event.map .str := by
  simp only [get?_toValue, String.reduceEq, reduceIte]

theorem Edge.get?_preconditions (e : Edge) :
    e.toValue.get? "preconds" = some (.ofStrings e.preconditions) := by
  simp only [get?_toValue, String.reduceEq, reduceIte]

/-! ## The namespace -/

/-- The entries of a namespace. -/
structure Publishes (root : Value) (inputPath : String) (ds : List Declaration) : Prop where
  option : ∀ key ∈ Config.keys, root.get? key = some (.str (optionOf ds key))
  inputPath : root.get? "input_path" = some (.str (Config.forComment inputPath))
  status : ∀ s : Status, root.get? s.namespaceKey = some (.int s.code)
  states : root.get? "states" =
    some (.map ((OrderedMap.numbered (stateNames ds)).mapValues ordinal))
  events : root.get? "events" =
    if eventNames ds = [] then none
    else some (.map ((OrderedMap.numbered (eventNames ds)).mapValues ordinal))
  initial : root.get? "initial_states" = some (.ofStrings (initialNames ds))
  eventCallbacks : root.get? "event_callbacks" =
    some (hookTable (.table (fun e ↦ callbacksOn ds (.event e)) (eventNames ds)))
  eventGuards : root.get? "event_preconds" =
    some (hookTable (.table (fun e ↦ guardsOn ds (.event e)) (eventNames ds)))
  entryCallbacks : root.get? "transition_entry_callbacks" =
    some (hookTable (.table (fun s ↦ callbacksOn ds (.entry s)) (stateNames ds)))
  exitCallbacks : root.get? "transition_exit_callbacks" =
    some (hookTable (.table (fun s ↦ callbacksOn ds (.exit s)) (stateNames ds)))
  entryGuards : root.get? "transition_entry_preconds" =
    some (hookTable (.table (fun s ↦ guardsOn ds (.entry s)) (stateNames ds)))
  exitGuards : root.get? "transition_exit_preconds" =
    some (hookTable (.table (fun s ↦ guardsOn ds (.exit s)) (stateNames ds)))
  transitions : root.get? "transitions" =
    some (transitionTable (.table (edgesDeclaredBy ds) (stateNames ds)))
  minState : stateNames ds ≠ [] → root.get? "min_state_valid" = some (ordinal 0)
  maxState : stateNames ds ≠ [] →
    root.get? "max_state_valid" = some (ordinal ((stateNames ds).length - 1))
  minEvent : eventNames ds ≠ [] → root.get? "min_event_valid" = some (ordinal 0)
  maxEvent : eventNames ds ≠ [] →
    root.get? "max_event_valid" = some (ordinal ((eventNames ds).length - 1))
  eventDriven : root.get? "event_driven" = some (.ofBool !(eventNames ds).isEmpty)
  eventFirst : root.get? "event_callback_first" = some (.ofBool (callbackOrderOf ds).eventFirst)
  guardNames : root.get? "precondition_names" =
    some (.ofStrings ((guardUses ds).foldl appendNew []))
  callbackNames : root.get? "callback_names" =
    some (.ofStrings ((callbackUses ds).foldl appendNew []))

/-- The namespace of declarations has these entries. -/
theorem publishes_declaredBy :
    Publishes (declaredBy inputPath ds).publish.root inputPath ds := by
  have hstates : bounds "min_state_valid" "max_state_valid" (declaredBy inputPath ds).states = _ :=
    bounds_numbered ..
  have hevents : bounds "min_event_valid" "max_event_valid" (declaredBy inputPath ds).events = _ :=
    bounds_numbered ..
  constructor
  case option =>
    intro key hkey
    rw [get?_publish_of_option (get?_options_declaredBy hkey)]
  case status =>
    intro s
    rw [get?_publish_of_not_mem
      (by cases s <;> simp [keys_options_declaredBy, Config.keys, Config.defaults,
        Status.namespaceKey])]
    cases s <;> rfl
  all_goals
    rw [get?_publish_of_not_mem (by simp [keys_options_declaredBy, Config.keys, Config.defaults])]
    simp only [Status.all, List.map_cons, List.map_nil, Status.namespaceKey, tableEntries,
      derivedEntries, ordinalTables, hstates, hevents, isEmpty_events_declaredBy,
      style_declaredBy, callbackOrder_declaredBy, List.lookup_append, lookup_ite,
      OrderedMap.lookup_entry_cons, List.lookup_nil, String.reduceEq, reduceIte, Option.none_or,
      Option.or_none, ite_self, List.isEmpty_iff]
  case minState | maxState | minEvent | maxEvent =>
    intro hne
    rw [if_neg hne]
  all_goals rfl

/-- The numbers that are derived from the tables, and what is missing without events. -/
structure PublishesNumbers (root : Value) (ds : List Declaration) : Prop where
  stateCount : root.get? "state_count" = some (ordinal (stateNames ds).length)
  eventCount : root.get? "event_count" = some (ordinal (eventNames ds).length)
  statesArray : root.get? "states_array" =
    some (.seq ((List.range (stateNames ds).length).map ordinal))
  eventsArray : root.get? "events_array" =
    if eventNames ds = [] then none
    else some (.seq ((List.range (eventNames ds).length).map ordinal))
  minEvent : eventNames ds = [] → root.get? "min_event_valid" = none
  maxEvent : eventNames ds = [] → root.get? "max_event_valid" = none
  multipleStarts : root.get? "multiple_start_states" =
    some (.ofBool (1 < (initialNames ds).length))

/-- The namespace of declarations has these numbers. -/
theorem publishesNumbers_declaredBy :
    PublishesNumbers (declaredBy inputPath ds).publish.root ds := by
  have hstates : bounds "min_state_valid" "max_state_valid" (declaredBy inputPath ds).states = _ :=
    bounds_numbered ..
  have hevents : bounds "min_event_valid" "max_event_valid" (declaredBy inputPath ds).events = _ :=
    bounds_numbered ..
  have hsize : (declaredBy inputPath ds).states.size = (stateNames ds).length :=
    OrderedMap.size_numbered _
  have hsize' : (declaredBy inputPath ds).events.size = (eventNames ds).length :=
    OrderedMap.size_numbered _
  have hvalues : (declaredBy inputPath ds).states.values = _ := values_numbered _
  have hvalues' : (declaredBy inputPath ds).events.values = _ := values_numbered _
  constructor
  all_goals
    rw [get?_publish_of_not_mem (by simp [keys_options_declaredBy, Config.keys, Config.defaults])]
    simp only [Status.all, List.map_cons, List.map_nil, Status.namespaceKey, tableEntries,
      derivedEntries, ordinalTables, hstates, hevents, hsize, hsize', hvalues, hvalues',
      isEmpty_events_declaredBy, List.lookup_append, lookup_ite, OrderedMap.lookup_entry_cons,
      List.lookup_nil, String.reduceEq, reduceIte, Option.none_or, Option.or_none, ite_self,
      List.isEmpty_iff]
  case minEvent | maxEvent =>
    intro hnil
    rw [if_pos hnil]
  all_goals rfl

end Model

end StateGen
