import Mathlib.Data.List.Nodup
import StateGen.Machine.Spec
import StateGen.Proofs.Results
import StateGen.Proofs.Value

/-!
# Loading validates a namespace

A namespace may be written by hand, with any values under any keys. Each reader of the loader is
described by what it has found when it succeeds. From that follows what holds of every machine that
is loaded at all: its numbers are in range, its names are distinct, and numbers and names belong
together as they do in the tables that they were read from.
-/

namespace StateGen.Machine

/-! ## What the readers have found -/

theorem access_eq_ok_iff {α : Type} {a : Except Value.Error α} {x : α} :
    access a = .ok x ↔ a = .ok x := by
  cases a <;> simp [access, Except.mapError]

/-- What is read under a key is there. -/
private theorem exists_of_access_get {ns : Value} {key : String} {α : Type}
    {as : Value → Except Value.Error α} {x : α} (h : access (do as (← ns.get key)) = .ok x) :
    ∃ v, ns.get? key = some v ∧ as v = .ok x := by
  obtain ⟨v, hv, hx⟩ := bind_eq_ok (access_eq_ok_iff.1 h)
  exact ⟨v, Value.get_eq_ok_iff.1 hv, hx⟩

theorem ordinal_eq_ok_iff {v : Value} {n : Nat} : ordinal v = .ok n ↔ v = .int n := by
  constructor
  · intro h
    obtain ⟨i, hi, hn⟩ := bind_eq_ok h
    rw [access_eq_ok_iff, Value.asInt_eq_ok_iff] at hi
    by_cases hpos : 0 ≤ i
    · rw [if_pos hpos] at hn
      cases hn
      rw [hi, Int.toNat_of_nonneg hpos]
    · rw [if_neg hpos] at hn
      cases hn
  · rintro rfl
    rfl

theorem names_eq_ok_iff {v : Value} {texts : List String} :
    names v = .ok texts ↔ v = .ofStrings texts := by
  constructor
  · intro h
    obtain ⟨items, hitems, htexts⟩ := bind_eq_ok h
    rw [access_eq_ok_iff, Value.asSeq_eq_ok_iff] at hitems
    have heach := mapM_eq_ok_iff.1 htexts
    simp only [access_eq_ok_iff, Value.asString_eq_ok_iff] at heach
    rw [hitems, Value.ofStrings, Value.seq.injEq, ← List.forall₂_eq_eq_eq,
      List.forall₂_map_right_iff]
    exact heach
  · rintro rfl
    refine mapM_eq_ok_iff.2 ?_
    rw [List.forall₂_map_left_iff, List.forall₂_same]
    exact fun _ _ ↦ rfl

/-- The number of an event denotes the event that the record of an edge names; without a number it
names none. -/
def Denotes (events : List String) (event : Option Nat) (record : Value) : Prop :=
  match event with
  | none => record.get? "event" = none
  | some i => ∃ name, events[i]? = some name ∧ record.get? "event" = some (.str name)

/-- An edge has what its record tells. -/
structure Edge.ReadFrom (events : List String) (record : Value) (e : Edge) : Prop where
  event : Denotes events e.event record
  target : record.get? "target_ordinal" = some (.int e.target)
  preconditions : record.get? "preconds" = some (.ofStrings e.preconditions)

private theorem denotes_of_edgeEvent {events : OrderedMap Value} {record : Value}
    {event : Option Nat} (h : edgeEvent events record = .ok event) :
    Denotes events.keys event record := by
  unfold edgeEvent at h
  split at h
  · next hnone =>
    cases h
    exact hnone
  · next found hfound =>
    obtain ⟨name, hname, hevent⟩ := bind_eq_ok h
    rw [access_eq_ok_iff, Value.asString_eq_ok_iff] at hname
    split at hevent
    · next i hi =>
      cases hevent
      obtain ⟨hlt, hat, -⟩ := List.idxOf?_eq_some_iff.1 hi
      exact ⟨name, List.getElem?_eq_some_iff.2 ⟨hlt, hat⟩, hname ▸ hfound⟩
    · cases hevent

private theorem readFrom_of_loadEdge {events : OrderedMap Value} {key : String} {record : Value}
    {e : Edge} (h : loadEdge events key record = .ok e) :
    e.key = key ∧ e.ReadFrom events.keys record := by
  obtain ⟨event, hevent, h₁⟩ := bind_eq_ok h
  obtain ⟨v, hv, h₂⟩ := bind_eq_ok h₁
  obtain ⟨target, htarget, h₃⟩ := bind_eq_ok h₂
  obtain ⟨w, hw, h₄⟩ := bind_eq_ok h₃
  obtain ⟨guards, hguards, h₅⟩ := bind_eq_ok h₄
  rw [access_eq_ok_iff, Value.get_eq_ok_iff] at hv hw
  rw [ordinal_eq_ok_iff] at htarget
  rw [names_eq_ok_iff] at hguards
  cases h₅
  exact ⟨rfl, denotes_of_edgeEvent hevent, htarget ▸ hv, hguards ▸ hw⟩

/-- An edge of a state has a record in the table of edges. -/
private theorem exists_record_of_loadEdges {events transitions : OrderedMap Value} {state : String}
    {edges : List Edge} (h : loadEdges events transitions state = .ok edges) {e : Edge}
    (he : e ∈ edges) :
    ∃ out record, transitions.get? state = some (.map out) ∧ (e.key, record) ∈ out.entries ∧
      e.ReadFrom events.keys record := by
  unfold loadEdges at h
  split at h
  · cases h
    cases he
  · next found hfound =>
    obtain ⟨out, hout, hedges⟩ := bind_eq_ok h
    rw [access_eq_ok_iff, Value.asMap_eq_ok_iff] at hout
    obtain ⟨⟨key, record⟩, hmem, hload⟩ := exists_of_mem_mapM hedges he
    obtain ⟨hkey, hread⟩ := readFrom_of_loadEdge hload
    exact ⟨out, record, hout ▸ hfound, hkey ▸ hmem, hread⟩

private theorem parts_of_loadState {ns : Value} {events transitions : OrderedMap Value}
    {name : String} {number : Value} {position : Nat} {s : State}
    (h : loadState ns events transitions name number position = .ok s) :
    s.name = name ∧ number = .int position ∧ loadEdges events transitions name = .ok s.edges := by
  obtain ⟨n, hn, h₁⟩ := bind_eq_ok h
  rw [ordinal_eq_ok_iff] at hn
  by_cases hposition : n = position
  · rw [if_neg (by simpa using hposition)] at h₁
    obtain ⟨edges, hedges, h₂⟩ := bind_eq_ok h₁
    obtain ⟨_, -, h₃⟩ := bind_eq_ok h₂
    obtain ⟨_, -, h₄⟩ := bind_eq_ok h₃
    obtain ⟨_, -, h₅⟩ := bind_eq_ok h₄
    obtain ⟨_, -, h₆⟩ := bind_eq_ok h₅
    cases h₆
    exact ⟨rfl, hposition ▸ hn, hedges⟩
  · rw [if_pos hposition] at h₁
    cases h₁

private theorem name_of_loadEvent {ns : Value} {name : String} {event : Event}
    (h : loadEvent ns name = .ok event) : event.name = name := by
  obtain ⟨_, -, h₁⟩ := bind_eq_ok h
  obtain ⟨_, -, h₂⟩ := bind_eq_ok h₁
  cases h₂
  rfl

/-- The checked edges lead to one of the states. -/
theorem checkTargets_eq_ok_iff {states : List State} :
    checkTargets states = .ok () ↔ ∀ s ∈ states, ∀ e ∈ s.edges, e.target < states.length := by
  rw [checkTargets, forM_eq_ok_iff]
  refine forall₂_congr fun s _ ↦ ?_
  cases hfind : s.edges.find? fun e ↦ states.length ≤ e.target with
  | none => exact iff_of_true rfl (by simpa [List.find?_eq_none] using hfind)
  | some e =>
    have hlong := List.find?_some hfind
    refine iff_of_false (by simp [throw, throwThe, MonadExceptOf.throw]) fun h ↦ ?_
    have hshort := h e (List.mem_of_find?_eq_some hfind)
    simp at hlong
    omega

private theorem lt_of_loadInitial {ns : Value} {stateCount : Nat} {initial : List Nat}
    (h : loadInitial ns stateCount = .ok initial) : ∀ i ∈ initial, i < stateCount := by
  obtain ⟨_, -, h₁⟩ := bind_eq_ok h
  obtain ⟨_, -, h₂⟩ := bind_eq_ok h₁
  obtain ⟨numbers, -, h₃⟩ := bind_eq_ok h₂
  split at h₃
  · cases h₃
  · next hfind =>
    cases h₃
    simpa [List.find?_eq_none] using hfind

/-- The table of events, if there is one, has distinct keys like every mapping. -/
private theorem nodup_of_eventTable {ns : Value} (hns : ns.DistinctKeys)
    {events : OrderedMap Value} (h : eventTable ns = .ok events) : events.keys.Nodup := by
  unfold eventTable at h
  split at h
  · next found hfound =>
    rw [access_eq_ok_iff, Value.asMap_eq_ok_iff] at h
    exact (Value.distinctKeys_map_iff.1 (h ▸ hns.get? hfound)).1
  · cases h
    exact List.nodup_nil

/-! ## What was loaded -/

/-- A machine was read from these tables. -/
structure Spec.LoadedFrom (spec : Spec) (ns : Value)
    (events states transitions : OrderedMap Value) : Prop where
  eventTable : eventTable ns = .ok events
  stateTable : ns.get? "states" = some (.map states)
  transitionTable : ns.get? "transitions" = some (.map transitions)
  loadEvents : events.keys.mapM (loadEvent ns) = .ok spec.events
  loadStates : (states.entries.zipIdx.mapM fun ((name, number), position) ↦
    loadState ns events transitions name number position) = .ok spec.states
  checkTargets : checkTargets spec.states = .ok ()
  loadInitial : loadInitial ns spec.states.length = .ok spec.initial

private theorem exists_loadedFrom {ns : Value} {spec : Spec} (h : Spec.ofNamespace ns = .ok spec) :
    ∃ events states transitions, spec.LoadedFrom ns events states transitions := by
  obtain ⟨events, hevents, h₁⟩ := bind_eq_ok h
  obtain ⟨_, hloadedEvents, h₂⟩ := bind_eq_ok h₁
  obtain ⟨transitions, htransitions, h₃⟩ := bind_eq_ok h₂
  obtain ⟨states, hstates, h₄⟩ := bind_eq_ok h₃
  obtain ⟨_, hloadedStates, h₅⟩ := bind_eq_ok h₄
  obtain ⟨_, htargets, h₆⟩ := bind_eq_ok h₅
  obtain ⟨_, hinitial, h₇⟩ := bind_eq_ok h₆
  obtain ⟨_, -, h₈⟩ := bind_eq_ok h₇
  obtain ⟨_, -, h₉⟩ := bind_eq_ok h₈
  obtain ⟨_, -, h₁₀⟩ := bind_eq_ok h₉
  cases h₁₀
  obtain ⟨v, hv, hmap⟩ := exists_of_access_get htransitions
  obtain ⟨w, hw, hmap'⟩ := exists_of_access_get hstates
  rw [Value.asMap_eq_ok_iff] at hmap hmap'
  subst hmap hmap'
  exact ⟨events, states, transitions, hevents, hw, hv, hloadedEvents, hloadedStates, htargets,
    hinitial⟩

namespace Spec.LoadedFrom

variable {ns : Value} {spec : Spec} {events states transitions : OrderedMap Value}

/-- The events are named as in their table. -/
theorem map_name_events (h : spec.LoadedFrom ns events states transitions) :
    spec.events.map Event.name = events.keys := by
  have hnames := (mapM_eq_ok_iff.1 h.loadEvents).imp fun _ _ ↦ name_of_loadEvent
  rw [← List.forall₂_eq_eq_eq, List.forall₂_map_left_iff]
  exact hnames.flip

/-- The states are named as in their table. -/
theorem map_name_states (h : spec.LoadedFrom ns events states transitions) :
    spec.states.map State.name = states.keys := by
  have hnames := (mapM_eq_ok_iff.1 h.loadStates).imp fun _ _ hload ↦ (parts_of_loadState hload).1
  have hkeys : states.keys = states.entries.zipIdx.map fun x ↦ x.1.1 := by
    have hentries := congrArg (List.map Prod.fst) (List.zipIdx_map_fst 0 states.entries)
    rw [List.map_map] at hentries
    exact hentries.symm
  rw [hkeys, ← List.forall₂_eq_eq_eq, List.forall₂_map_left_iff, List.forall₂_map_right_iff]
  exact hnames.flip

/-- A state stands in the table with its position as its number, and has the edges of its name. -/
theorem entry_of_state (h : spec.LoadedFrom ns events states transitions) {i : Nat} {s : State}
    (hs : spec.states[i]? = some s) :
    (s.name, .int i) ∈ states.entries ∧ loadEdges events transitions s.name = .ok s.edges := by
  obtain ⟨⟨⟨name, number⟩, position⟩, hentry, hload⟩ := getElem?_of_mapM_eq_ok h.loadStates hs
  obtain ⟨rfl, rfl, hedges⟩ := parts_of_loadState hload
  rw [List.getElem?_zipIdx, Option.map_eq_some_iff] at hentry
  obtain ⟨entry, hentry, heq⟩ := hentry
  rw [Prod.mk.injEq, Nat.zero_add] at heq
  obtain ⟨rfl, rfl⟩ := heq
  exact ⟨List.mem_of_getElem? hentry, hedges⟩

end Spec.LoadedFrom

/-- Among distinct names, a name is found where it stands. -/
theorem findIdx?_name {α : Type} {name : α → String} {xs : List α}
    (hnodup : (xs.map name).Nodup) {i : Nat} {x : α} (hx : xs[i]? = some x) :
    xs.findIdx? (name · == name x) = some i := by
  obtain ⟨hi, rfl⟩ := List.getElem?_eq_some_iff.1 hx
  rw [List.findIdx?_eq_some_iff_getElem]
  refine ⟨hi, by simp, fun j hj hname ↦ ?_⟩
  have hi' : i < (xs.map name).length := by rwa [List.length_map]
  have hj' : j < (xs.map name).length := Nat.lt_trans hj hi'
  have hsame : (xs.map name)[j] = (xs.map name)[i] := by simpa using hname
  rw [hnodup.getElem_inj_iff] at hsame
  omega

/-! ## The main result -/

/-- A machine is valid for the namespace that it was loaded from: numbers are in range, names are
distinct, and numbers denote what the namespace says. -/
structure Spec.ValidFor (spec : Spec) (ns : Value) : Prop where
  target_lt : ∀ s ∈ spec.states, ∀ e ∈ s.edges, e.target < spec.states.length
  initial_lt : ∀ i ∈ spec.initial, i < spec.states.length
  event_lt : ∀ s ∈ spec.states, ∀ e ∈ s.edges, ∀ j, e.event = some j → j < spec.events.length
  /-- The record of an edge names the event of the edge. -/
  edge_record : ∀ s ∈ spec.states, ∀ e ∈ s.edges, ∃ record,
    ns.follow ["transitions", s.name, e.key] = .ok record ∧
      e.ReadFrom (spec.events.map Event.name) record
  states_nodup : (spec.states.map State.name).Nodup
  events_nodup : (spec.events.map Event.name).Nodup
  stateIndex : ∀ i s, spec.states[i]? = some s →
    spec.stateIndex s.name = some i ∧ ns.follow ["states", s.name] = .ok (.int i)
  eventIndex : ∀ j e, spec.events[j]? = some e → spec.eventIndex e.name = some j

/-- Loading validates every namespace, whoever wrote it: a machine that is loaded at all is valid
for its namespace. Mappings have distinct keys, as all mappings do that can be built. -/
theorem validFor_of_ofNamespace {ns : Value} {spec : Spec} (hns : ns.DistinctKeys)
    (h : Spec.ofNamespace ns = .ok spec) : spec.ValidFor ns := by
  obtain ⟨events, states, transitions, hload⟩ := exists_loadedFrom h
  have hevents := hload.map_name_events
  have hstates := hload.map_name_states
  have hstateKeys : states.keys.Nodup :=
    (Value.distinctKeys_map_iff.1 (hns.get? hload.stateTable)).1
  have hrecord : ∀ s ∈ spec.states, ∀ e ∈ s.edges, ∃ record,
      ns.follow ["transitions", s.name, e.key] = .ok record ∧
        e.ReadFrom (spec.events.map Event.name) record := by
    intro s hs e he
    obtain ⟨i, hi⟩ := List.getElem?_of_mem hs
    obtain ⟨out, record, hout, hentry, hread⟩ :=
      exists_record_of_loadEdges (hload.entry_of_state hi).2 he
    have htable : (Value.map transitions).get? s.name = some (.map out) := hout
    have hkeys := (Value.distinctKeys_map_iff.1 ((hns.get? hload.transitionTable).get? htable)).1
    have hfound : (Value.map out).get? e.key = some record :=
      OrderedMap.get?_of_mem_entries hkeys hentry
    refine ⟨record, ?_, hevents ▸ hread⟩
    rw [Value.follow_of_get? hload.transitionTable, Value.follow_of_get? htable,
      Value.follow_of_get? hfound, Value.follow]
  constructor
  case target_lt => exact checkTargets_eq_ok_iff.1 hload.checkTargets
  case initial_lt => exact lt_of_loadInitial hload.loadInitial
  case event_lt =>
    intro s hs e he j hj
    obtain ⟨record, -, hread⟩ := hrecord s hs e he
    have hdenotes := hread.event
    rw [hj] at hdenotes
    obtain ⟨name, hname, -⟩ := hdenotes
    simpa using (List.getElem?_eq_some_iff.1 hname).1
  case edge_record => exact hrecord
  case states_nodup => rwa [hstates]
  case events_nodup =>
    rw [hevents]
    exact nodup_of_eventTable hns hload.eventTable
  case stateIndex =>
    intro i s hs
    refine ⟨findIdx?_name (by rwa [hstates]) hs, ?_⟩
    have hnumber : (Value.map states).get? s.name = some (.int i) :=
      OrderedMap.get?_of_mem_entries hstateKeys (hload.entry_of_state hs).1
    rw [Value.follow_of_get? hload.stateTable, Value.follow_of_get? hnumber, Value.follow]
  case eventIndex =>
    intro j e he
    refine findIdx?_name ?_ he
    rw [hevents]
    exact nodup_of_eventTable hns hload.eventTable

/-- A job, written by hand: the numbers of its events are none, no state has hooks, and only the
first state has edges. -/
private def job : Value :=
  .map ⟨[("states", .map ⟨[("ready", .int 0), ("running", .int 1), ("done", .int 2)]⟩),
    ("events", .map ⟨[("launch", .str "first"), ("cancel", .int (-7))]⟩),
    ("initial_states", .seq [.str "running", .str "ready"]),
    ("event_preconds", .map ⟨[]⟩), ("event_callbacks", .map ⟨[]⟩),
    ("transition_entry_preconds", .map ⟨[]⟩), ("transition_exit_preconds", .map ⟨[]⟩),
    ("transition_entry_callbacks", .map ⟨[]⟩), ("transition_exit_callbacks", .map ⟨[]⟩),
    ("transitions", .map ⟨[("ready", .map ⟨[
      ("x", .map ⟨[("event", .str "cancel"), ("target_ordinal", .int 2), ("preconds", .seq [])]⟩),
      ("y", .map ⟨[("target_ordinal", .int 1), ("preconds", .seq [.str "idle"])]⟩)]⟩)]⟩),
    ("callback_order", .str "exit-event-entry"), ("event_driven", .int 1),
    ("invalid_name", .str "?")]⟩

private theorem distinctKeys_job : job.DistinctKeys := by
  simp [job, Value.distinctKeys_map_iff, Value.distinctKeys_seq_iff, OrderedMap.keys,
    OrderedMap.values, Value.DistinctKeys.str, Value.DistinctKeys.int]

/-- The machine that is loaded for the job. -/
private def jobSpec : Spec where
  states :=
    [⟨"ready", [], [], [], [], [⟨"x", 2, some 1, []⟩, ⟨"y", 1, none, ["idle"]⟩]⟩,
      ⟨"running", [], [], [], [], []⟩, ⟨"done", [], [], [], [], []⟩]
  events := [⟨"launch", [], []⟩, ⟨"cancel", [], []⟩]
  initial := [1, 0]
  eventDriven := true
  callbackOrder := .exitEventEntry
  invalidName := "?"

/-- The job is loaded, and its states and events have the numbers of their tables. -/
theorem validFor_of_ofNamespace_job :
    job.DistinctKeys ∧ ∃ spec, Spec.ofNamespace job = .ok spec ∧ spec.ValidFor job ∧
      spec.stateIndex "done" = some 2 ∧ spec.eventIndex "cancel" = some 1 := by
  have hload : Spec.ofNamespace job = .ok jobSpec := rfl
  have hvalid := validFor_of_ofNamespace distinctKeys_job hload
  exact ⟨distinctKeys_job, jobSpec, hload, hvalid, (hvalid.stateIndex 2 _ rfl).1,
    hvalid.eventIndex 1 _ rfl⟩

end StateGen.Machine
