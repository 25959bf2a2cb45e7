import StateGen.Proofs.Model.Publish

/-!
# The parts of a model fit together

`Model.WellFormed` says how the tables of a model belong together: numbers are positions, tables of
hooks and edges have one entry for every state or event, edges lead to declared states, and the
style of the machine is what its events and edges make it. Every run of declarations arrives at such
a model, whatever is rejected on the way. Published, the tables and numbers have the form that
templates and machines rely on.
-/

namespace StateGen

open Declaration

/-- The names are distinct, and the number of each is its position. -/
structure OrderedMap.IsNumbering (table : OrderedMap Nat) : Prop where
  nodup : table.keys.Nodup
  position : ∀ i name, table.keys[i]? = some name → table.get? name = some i

/-- A list of distinct names is numbered. -/
theorem OrderedMap.isNumbering_numbered {names : List String} (h : names.Nodup) :
    (numbered names).IsNumbering where
  nodup := by rwa [keys_numbered]
  position := by
    intro i name hi
    rw [keys_numbered] at hi
    exact get?_numbered_of_getElem? h hi

namespace Model

/-- An edge leads to a declared state, knows its number, and stands under its event or, in a machine
without events, under its target. -/
structure EdgeFits (m : Model) (via : String) (e : Edge) : Prop where
  target_declared : e.target ∈ m.states.keys
  targetOrdinal : m.states.get? e.target = some e.targetOrdinal
  key : (e.event = some via ∧ via ∈ m.events.keys) ∨
    (e.event = none ∧ via = e.target ∧ m.events.keys = [])

/-- The parts of a model fit together. -/
structure WellFormed (m : Model) : Prop where
  states : m.states.IsNumbering
  events : m.events.IsNumbering
  entryCallbacks : m.entryCallbacks.keys = m.states.keys
  exitCallbacks : m.exitCallbacks.keys = m.states.keys
  entryPreconditions : m.entryPreconditions.keys = m.states.keys
  exitPreconditions : m.exitPreconditions.keys = m.states.keys
  transitions : m.transitions.keys = m.states.keys
  eventCallbacks : m.eventCallbacks.keys = m.events.keys
  eventPreconditions : m.eventPreconditions.keys = m.events.keys
  edges_nodup : ∀ source edges, m.transitions.get? source = some edges → edges.keys.Nodup
  edge : ∀ source via e, m.edge? source via = some e → m.EdgeFits via e
  initial_declared : ∀ s ∈ m.initialStates, s ∈ m.states.keys
  initial_nodup : m.initialStates.Nodup
  eventDriven_iff : m.style = some .eventDriven ↔ m.events.keys ≠ []
  direct_iff : m.style = some .direct ↔
    m.events.keys = [] ∧ ∃ source via e, m.edge? source via = some e
  open_iff : m.style = none ↔ m.events.keys = [] ∧ ∀ source via, m.edge? source via = none

/-- An edge has no event exactly if the machine has none, so that direct edges and edges of events
never stand in one machine. -/
theorem WellFormed.event_eq_none_iff {m : Model} (h : m.WellFormed) {source via : String} {e : Edge}
    (he : m.edge? source via = some e) : e.event = none ↔ m.events.keys = [] := by
  obtain ⟨hevent, hdeclared⟩ | ⟨hevent, -, hnil⟩ := (h.edge source via e he).key
  · simp [hevent, List.ne_nil_of_mem hdeclared]
  · simp [hevent, hnil]

/-! ## Models that declarations describe -/

section

variable {inputPath : String} {ds : List Declaration}

/-- An edge of the model was declared. -/
private theorem exists_link_of_edge? {source via : String} {e : Edge}
    (h : (declaredBy inputPath ds).edge? source via = some e) :
    ∃ link ∈ linksFrom ds source, link.key = via ∧
      e = ⟨link.target, (stateNames ds).idxOf link.target, link.event,
        guardsOn ds (.transition source via)⟩ := by
  obtain ⟨edges, hedges, hvia⟩ := Option.bind_eq_some_iff.1 h
  obtain ⟨s, -, hs, rfl⟩ := OrderedMap.exists_of_get?_tabulate hedges
  obtain ⟨link, hlink, rfl, rfl⟩ := OrderedMap.exists_of_get?_tabulate hvia
  rw [id] at hs
  subst hs
  exact ⟨link, hlink, rfl, rfl⟩

/-- A declared edge is an edge of the model. -/
private theorem exists_edge?_of_link (hc : Consistent ds) {source : String} {link : Link}
    (h : link ∈ linksFrom ds source) :
    ∃ e, (declaredBy inputPath ds).edge? source link.key = some e := by
  have hedge : (declaredBy inputPath ds).edge? source link.key ≠ none := by
    intro hnone
    exact (edge?_declaredBy_eq_none_iff hc).1 hnone (List.mem_map_of_mem h)
  exact Option.ne_none_iff_exists'.1 hedge

private theorem edgeFits_declaredBy (hc : Consistent ds) {source via : String} {e : Edge}
    (h : (declaredBy inputPath ds).edge? source via = some e) :
    (declaredBy inputPath ds).EdgeFits via e := by
  obtain ⟨link, hlink, rfl, rfl⟩ := exists_link_of_edge? h
  have htarget := hc.target_declared source link hlink
  refine ⟨by simpa using htarget, OrderedMap.get?_numbered htarget, ?_⟩
  cases hevent : link.event with
  | some event =>
    have hdeclared := hc.event_declared source link hlink event hevent
    exact .inl ⟨by simp [Link.key, hevent], by simpa [Link.key, hevent] using hdeclared⟩
  | none =>
    have hnil := hc.events_of_direct source link hlink hevent
    exact .inr ⟨rfl, by simp [Link.key, hevent], by simpa using hnil⟩

/-- There is an edge if and only if one was declared. -/
private theorem hasLink_iff (inputPath : String) (hc : Consistent ds) :
    hasLink ds = true ↔ ∃ source via e, (declaredBy inputPath ds).edge? source via = some e := by
  constructor
  · intro h
    obtain ⟨⟨kind, span⟩, hd, hkind⟩ := List.any_eq_true.1 h
    cases kind <;> simp at hkind
    case transition source event target =>
      have hlink : ⟨event, target⟩ ∈ linksFrom ds source :=
        List.mem_filterMap.2 ⟨_, hd, by simp⟩
      exact ⟨source, _, exists_edge?_of_link hc hlink⟩
  · rintro ⟨source, via, e, he⟩
    obtain ⟨link, hlink, -⟩ := exists_link_of_edge? he
    obtain ⟨⟨kind, span⟩, hd, hkind⟩ := List.mem_filterMap.1 hlink
    cases kind <;> simp at hkind
    exact List.any_eq_true.2 ⟨_, hd, rfl⟩

/-- The model that consistent declarations describe is well-formed. -/
theorem wellFormed_declaredBy (hc : Consistent ds) : (declaredBy inputPath ds).WellFormed where
  states := OrderedMap.isNumbering_numbered hc.states_nodup
  events := OrderedMap.isNumbering_numbered hc.events_nodup
  entryCallbacks := by simp [declaredBy]
  exitCallbacks := by simp [declaredBy]
  entryPreconditions := by simp [declaredBy]
  exitPreconditions := by simp [declaredBy]
  transitions := by simp [declaredBy]
  eventCallbacks := by simp [declaredBy]
  eventPreconditions := by simp [declaredBy]
  edges_nodup := by
    intro source edges hedges
    obtain ⟨s, -, -, rfl⟩ := OrderedMap.exists_of_get?_tabulate hedges
    rw [edgesDeclaredBy, OrderedMap.keys_tabulate]
    exact hc.links_nodup s
  edge := fun _ _ _ h ↦ edgeFits_declaredBy hc h
  initial_declared := by
    intro s hs
    rw [keys_states_declaredBy]
    exact hc.initial_declared s hs
  initial_nodup := hc.initial_nodup
  eventDriven_iff := by
    rw [keys_events_declaredBy]
    simp only [declaredBy, styleDeclaredBy]
    split <;> simp_all
  direct_iff := by
    rw [keys_events_declaredBy, ← hasLink_iff inputPath hc]
    simp only [declaredBy, styleDeclaredBy]
    split <;> simp_all
  open_iff := by
    have hlinks : (∀ source via, (declaredBy inputPath ds).edge? source via = none) ↔
        hasLink ds = false := by
      rw [← Bool.not_eq_true, hasLink_iff inputPath hc]
      simp [Option.eq_none_iff_forall_ne_some]
    rw [keys_events_declaredBy, hlinks]
    simp only [declaredBy, styleDeclaredBy]
    split <;> simp_all

end

/-! ## Namespaces -/

/-- A table of hooks: a sequence of strings for each of the names. -/
def IsHookTable (names : List String) (v : Value) : Prop :=
  ∃ table, v = .map table ∧ table.keys = names ∧
    ∀ name entry, table.get? name = some entry → ∃ hooks, entry = .ofStrings hooks

/-- The record of an edge under a key, in a machine with the states and events of a model. -/
def IsEdgeRecord (m : Model) (via : String) (record : Value) : Prop :=
  ∃ target number guards, m.states.get? target = some number ∧
    record.get? "target" = some (.str target) ∧
    record.get? "target_ordinal" = some (.int number) ∧
    record.get? "preconds" = some (.ofStrings guards) ∧
    ((record.get? "event" = some (.str via) ∧ via ∈ m.events.keys) ∨
      (record.get? "event" = none ∧ via = target))

/-- The tables of hooks and edges in the namespace of a model. -/
structure PublishesTables (root : Value) (m : Model) : Prop where
  stateHooks : ∀ key ∈ ["transition_entry_callbacks", "transition_exit_callbacks",
    "transition_entry_preconds", "transition_exit_preconds"],
    ∃ v, root.get? key = some v ∧ IsHookTable m.states.keys v
  eventHooks : ∀ key ∈ ["event_callbacks", "event_preconds"],
    ∃ v, root.get? key = some v ∧ IsHookTable m.events.keys v
  transitions : ∃ table, root.get? "transitions" = some (.map table) ∧
    table.keys = m.states.keys ∧
    ∀ source edges, table.get? source = some edges → ∃ records, edges = .map records ∧
      ∀ via record, records.get? via = some record → m.IsEdgeRecord via record

/-- The tables of numbers in the namespace of a model, and their bounds. Without events there is
neither a table of events nor a bound of their numbers. -/
structure PublishesBounds (root : Value) (m : Model) : Prop where
  states : root.get? "states" = some (.map (m.states.mapValues ordinal))
  statesArray : root.get? "states_array" = some (.seq ((List.range m.states.size).map ordinal))
  stateCount : root.get? "state_count" = some (.int m.states.size)
  stateBounds : root.get? "min_state_valid" = some (.int 0) ∧
    root.get? "max_state_valid" = some (.int (m.states.size - 1))
  eventCount : root.get? "event_count" = some (.int m.events.size)
  events : m.events.keys ≠ [] →
    root.get? "events" = some (.map (m.events.mapValues ordinal)) ∧
    root.get? "events_array" = some (.seq ((List.range m.events.size).map ordinal)) ∧
    root.get? "min_event_valid" = some (.int 0) ∧
    root.get? "max_event_valid" = some (.int (m.events.size - 1))
  noEvents : m.events.keys = [] →
    ∀ key ∈ ["events", "events_array", "min_event_valid", "max_event_valid"],
      root.get? key = none
  eventDriven : root.get? "event_driven" = some (.ofBool !m.events.isEmpty)
  multipleStarts : root.get? "multiple_start_states" =
    some (.ofBool (1 < m.initialStates.length))

private theorem isHookTable_hookTable (table : OrderedMap (List String)) :
    IsHookTable table.keys (hookTable table) := by
  refine ⟨_, rfl, OrderedMap.keys_mapValues .., fun name entry hentry ↦ ?_⟩
  rw [OrderedMap.get?_mapValues] at hentry
  obtain ⟨hooks, -, rfl⟩ := Option.map_eq_some_iff.1 hentry
  exact ⟨hooks, rfl⟩

/-- An edge that fits is published as a record that fits. -/
private theorem EdgeFits.isEdgeRecord {m : Model} {via : String} {e : Edge}
    (h : m.EdgeFits via e) : m.IsEdgeRecord via e.toValue := by
  refine ⟨e.target, e.targetOrdinal, e.preconditions, h.targetOrdinal, e.get?_target,
    e.get?_targetOrdinal, e.get?_preconditions, ?_⟩
  rw [e.get?_event]
  obtain ⟨hevent, hdeclared⟩ | ⟨hevent, hvia, -⟩ := h.key
  · exact .inl ⟨by rw [hevent, Option.map_some], hdeclared⟩
  · exact .inr ⟨by rw [hevent, Option.map_none], hvia⟩

section

variable {inputPath : String} {ds : List Declaration}

/-- The tables of a model that consistent declarations describe. -/
theorem publishesTables_declaredBy (hc : Consistent ds) :
    PublishesTables (declaredBy inputPath ds).publish.root (declaredBy inputPath ds) := by
  have hp : Publishes (declaredBy inputPath ds).publish.root inputPath ds := publishes_declaredBy
  have htable (value : String → List String) (names : List String) :
      IsHookTable names (hookTable (.table value names)) := by
    simpa using isHookTable_hookTable (.table value names)
  constructor
  · rw [keys_states_declaredBy]
    simp only [List.forall_mem_cons, List.not_mem_nil, false_implies, implies_true, and_true]
    exact ⟨⟨_, hp.entryCallbacks, htable ..⟩, ⟨_, hp.exitCallbacks, htable ..⟩,
      ⟨_, hp.entryGuards, htable ..⟩, ⟨_, hp.exitGuards, htable ..⟩⟩
  · rw [keys_events_declaredBy]
    simp only [List.forall_mem_cons, List.not_mem_nil, false_implies, implies_true, and_true]
    exact ⟨⟨_, hp.eventCallbacks, htable ..⟩, ⟨_, hp.eventGuards, htable ..⟩⟩
  · refine ⟨_, hp.transitions, by simp, fun source edges hsource ↦ ?_⟩
    rw [OrderedMap.get?_mapValues] at hsource
    obtain ⟨edges, hedges, rfl⟩ := Option.map_eq_some_iff.1 hsource
    refine ⟨_, rfl, fun via record hvia ↦ ?_⟩
    rw [OrderedMap.get?_mapValues] at hvia
    obtain ⟨e, he, rfl⟩ := Option.map_eq_some_iff.1 hvia
    have hedge : (declaredBy inputPath ds).edge? source via = some e :=
      Option.bind_eq_some_iff.2 ⟨edges, hedges, he⟩
    exact (edgeFits_declaredBy hc hedge).isEdgeRecord

/-- The numbers of a finished machine. -/
theorem publishesBounds_of_finalize {ns : Namespace}
    (h : (declaredBy inputPath ds).finalize = .ok ns) :
    PublishesBounds ns.root (declaredBy inputPath ds) := by
  obtain ⟨hcheck, rfl⟩ := finalize_eq_ok_iff.1 h
  have hp : Publishes (declaredBy inputPath ds).publish.root inputPath ds := publishes_declaredBy
  have hn : PublishesNumbers (declaredBy inputPath ds).publish.root ds :=
    publishesNumbers_declaredBy
  have hsize : (declaredBy inputPath ds).states.size = (stateNames ds).length :=
    OrderedMap.size_numbered _
  have hkeys : stateNames ds ≠ [] := by
    have htwo := (check_eq_ok_iff.1 hcheck).1
    rw [hsize] at htwo
    exact List.ne_nil_of_length_pos (by omega)
  have hsize' : (declaredBy inputPath ds).events.size = (eventNames ds).length :=
    OrderedMap.size_numbered _
  have hlast {names : List String} (h : names ≠ []) :
      ordinal (names.length - 1) = .int (names.length - 1) := by
    have hpos := List.length_pos_iff.2 h
    rw [ordinal, Int.ofNat_sub hpos]
    rfl
  constructor
  case states => exact hp.states
  case statesArray => rw [hsize]; exact hn.statesArray
  case stateCount => rw [hsize]; exact hn.stateCount
  case stateBounds =>
    rw [hsize, ← hlast hkeys]
    exact ⟨hp.minState hkeys, hp.maxState hkeys⟩
  case eventCount => rw [hsize']; exact hn.eventCount
  case events =>
    rw [keys_events_declaredBy]
    intro hne
    rw [hsize', ← hlast hne, hp.events, if_neg hne, hn.eventsArray, if_neg hne]
    exact ⟨rfl, rfl, hp.minEvent hne, hp.maxEvent hne⟩
  case noEvents =>
    rw [keys_events_declaredBy]
    intro hnil
    simp only [List.forall_mem_cons, List.not_mem_nil, false_implies, implies_true, and_true]
    rw [hp.events, if_pos hnil, hn.eventsArray, if_pos hnil]
    exact ⟨rfl, rfl, hn.minEvent hnil, hn.maxEvent hnil⟩
  case eventDriven => rw [isEmpty_events_declaredBy]; exact hp.eventDriven
  case multipleStarts => exact hn.multipleStarts

end

/-- Whatever was declared and whatever of it was rejected, the parts of the model fit together,
direct edges and edges of events do not meet, and the namespace has well-formed tables and, once the
machine is finished, the right numbers. -/
theorem wellFormed_applyEach (inputPath : String) (ds : List Declaration) :
    let m := (initial inputPath).applyEach ds
    m.WellFormed ∧
      (∀ source via e other via' e', m.edge? source via = some e →
        m.edge? other via' = some e' → (e.event = none ↔ e'.event = none)) ∧
      PublishesTables m.publish.root m ∧
      ∀ ns, m.finalize = .ok ns → PublishesBounds ns.root m := by
  intro m
  obtain ⟨accepted, hc, hm⟩ : ∃ accepted, Consistent accepted ∧
      m = declaredBy inputPath accepted := by
    simp only [m, initial_eq_declaredBy]
    obtain ⟨accepted, -, hc, hm⟩ := applyEach_declaredBy ds consistent_nil
    exact ⟨accepted, hc, hm⟩
  clear_value m
  subst hm
  have hwf : (declaredBy inputPath accepted).WellFormed := wellFormed_declaredBy hc
  refine ⟨hwf, ?_, publishesTables_declaredBy hc, fun ns hns ↦ publishesBounds_of_finalize hns⟩
  intro source via e other via' e' he he'
  rw [hwf.event_eq_none_iff he, hwf.event_eq_none_iff he']

/-- A turnstile with two events; a direct edge and an edge to a state that comes later are
rejected. -/
private def turnstile : List Declaration :=
  [⟨.event "coin", .none⟩, ⟨.state "locked", .none⟩,
    ⟨.transition "locked" (some "coin") "open", .none⟩, ⟨.state "open", .none⟩,
    ⟨.initial "locked", .none⟩, ⟨.transition "locked" none "open", .none⟩,
    ⟨.event "push", .none⟩, ⟨.transition "locked" (some "coin") "open", .none⟩,
    ⟨.transition "open" (some "push") "locked", .none⟩,
    ⟨.precondition (.transition "locked" "coin") "genuine", .none⟩]

/-- The edges of the turnstile have events, and both its states and its events go from 0 to 1. -/
theorem wellFormed_applyEach_turnstile :
    (∀ e, ((initial "turnstile.fsm").applyEach turnstile).edge? "open" "push" = some e →
        e.event ≠ none) ∧
      ∃ ns, ((initial "turnstile.fsm").applyEach turnstile).finalize = .ok ns ∧
        ns.root.get? "max_state_valid" = some (.int 1) ∧
        ns.root.get? "max_event_valid" = some (.int 1) := by
  obtain ⟨hwf, hmixed, -, hbounds⟩ := wellFormed_applyEach "turnstile.fsm" turnstile
  have hcoin : ((initial "turnstile.fsm").applyEach turnstile).edge? "locked" "coin" =
      some ⟨"open", 1, some "coin", ["genuine"]⟩ := rfl
  have hfinalize : ∃ ns, ((initial "turnstile.fsm").applyEach turnstile).finalize = .ok ns :=
    ⟨_, rfl⟩
  obtain ⟨ns, hns⟩ := hfinalize
  have hevents : ((initial "turnstile.fsm").applyEach turnstile).events.keys = ["coin", "push"] :=
    rfl
  refine ⟨fun e he hnone ↦ ?_, ns, hns, (hbounds ns hns).stateBounds.2,
    ((hbounds ns hns).events (by simp [hevents])).2.2.2⟩
  cases (hmixed _ _ _ _ _ _ hcoin he).2 hnone

end Model

end StateGen
