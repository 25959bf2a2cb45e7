import StateGen.Machine
import StateGen.Proofs.Machine.Validity
import StateGen.Proofs.Model.Publish

/-!
# The machine that was declared is the machine that runs

`Spec.declaredBy` reads a machine off its declarations. Loading the namespace that building
publishes gives this machine, so nothing is lost or mixed up on the way through the namespace.
-/

namespace StateGen.Machine

open Declaration

/-- The edge that a link of a state declares. -/
def Edge.declaredBy (ds : List Declaration) (source : String) (e : Link) : Edge where
  key := e.key
  target := (stateNames ds).idxOf e.target
  event := e.event.map (eventNames ds).idxOf
  preconditions := guardsOn ds (.transition source e.key)

/-- A declared state with what is attached to it. -/
def State.declaredBy (ds : List Declaration) (name : String) : State where
  name := name
  entryPreconditions := guardsOn ds (.entry name)
  exitPreconditions := guardsOn ds (.exit name)
  onEnter := callbacksOn ds (.entry name)
  onExit := callbacksOn ds (.exit name)
  edges := (linksFrom ds name).map (Edge.declaredBy ds name)

/-- A declared event with what is attached to it. -/
def Event.declaredBy (ds : List Declaration) (name : String) : Event where
  name := name
  preconditions := guardsOn ds (.event name)
  callbacks := callbacksOn ds (.event name)

/-- The machine that declarations describe. -/
def Spec.declaredBy (ds : List Declaration) : Spec where
  states := (stateNames ds).map (State.declaredBy ds)
  events := (eventNames ds).map (Event.declaredBy ds)
  initial := (initialNames ds).map (stateNames ds).idxOf
  eventDriven := !(eventNames ds).isEmpty
  callbackOrder := callbackOrderOf ds
  invalidName := optionOf ds "invalid_name"

/-! ## Reading values back -/

private theorem access_ok {α : Type} (a : α) : access (.ok a) = .ok a := rfl

private theorem access_get {root v : Value} {key : String} {α : Type}
    (as : Value → Except Value.Error α) (h : root.get? key = some v) :
    access (do as (← root.get key)) = access (as v) := by
  rw [Value.get_eq_ok_iff.2 h]
  rfl

/-- A sequence of strings is read as the strings. -/
theorem names_ofStrings (names : List String) : Machine.names (.ofStrings names) = .ok names :=
  names_eq_ok_iff.2 rfl

/-- The hooks of a name are those that its table has for it. -/
private theorem hookNames_eq_ok {root : Value} {key name : String} {hooks : String → List String}
    {names : List String}
    (htable : root.get? key = some (Model.hookTable (.table hooks names))) (hname : name ∈ names) :
    hookNames root key name = .ok (hooks name) := by
  have hfound : ((OrderedMap.table hooks names).mapValues Value.ofStrings).get? name =
      some (.ofStrings (hooks name)) := by
    rw [OrderedMap.get?_mapValues, OrderedMap.get?_table hooks hname, Option.map_some]
  simp only [hookNames, Value.get_eq_ok_iff.2 htable, Model.hookTable, Value.asMap, access_ok, bind,
    Except.bind, hfound]
  exact names_ofStrings _

private theorem ordinal_eq_ok (n : Nat) : ordinal (Model.ordinal n) = .ok n :=
  ordinal_eq_ok_iff.2 rfl

private theorem idxOf?_eq_some {names : List String} {name : String} (h : name ∈ names) :
    names.idxOf? name = some (names.idxOf name) := by
  induction names with
  | nil => simp at h
  | cons n ns ih =>
    rw [List.idxOf?_cons, List.idxOf_cons]
    by_cases hn : n = name
    · simp [hn]
    · rw [beq_false_of_ne hn, ih ((List.mem_cons.1 h).resolve_left (Ne.symm hn))]
      rfl

/-! ## Edges, states and events -/

private theorem edgeEvent_toValue {events : OrderedMap Value} {e : Model.Edge}
    (h : ∀ name, e.event = some name → name ∈ events.keys) :
    edgeEvent events e.toValue = .ok (e.event.map events.keys.idxOf) := by
  rw [edgeEvent, e.get?_event]
  cases hname : e.event with
  | none => rfl
  | some name =>
    simp only [Option.map_some, access_ok, Value.asString, bind, Except.bind, OrderedMap.position,
      idxOf?_eq_some (h name hname)]
    rfl

private theorem loadEdge_toValue (events : OrderedMap Value) (key : String) (e : Model.Edge)
    (h : ∀ name, e.event = some name → name ∈ events.keys) :
    loadEdge events key e.toValue =
      .ok ⟨key, e.targetOrdinal, e.event.map events.keys.idxOf, e.preconditions⟩ := by
  simp only [loadEdge, edgeEvent_toValue h, Value.get_eq_ok_iff.2 e.get?_targetOrdinal,
    Value.get_eq_ok_iff.2 e.get?_preconditions, access_ok, bind, Except.bind, ordinal_eq_ok,
    names_ofStrings]
  rfl

section

variable {ds : List Declaration} {root : Value} {inputPath : String}

/-- The table of events that the loader works with. -/
private def eventsDeclaredBy (ds : List Declaration) : OrderedMap Value :=
  (OrderedMap.numbered (eventNames ds)).mapValues Model.ordinal

/-- The table of edges that the loader works with. -/
private def transitionsDeclaredBy (ds : List Declaration) : OrderedMap Value :=
  (OrderedMap.table (Model.edgesDeclaredBy ds) (stateNames ds)).mapValues fun edges ↦
    .map (edges.mapValues Model.Edge.toValue)

private theorem loadEdges_eq_ok (hc : Consistent ds) {name : String}
    (hname : name ∈ stateNames ds) :
    loadEdges (eventsDeclaredBy ds) (transitionsDeclaredBy ds) name =
      .ok ((linksFrom ds name).map (Edge.declaredBy ds name)) := by
  have hout : (transitionsDeclaredBy ds).get? name =
      some (.map ((Model.edgesDeclaredBy ds name).mapValues Model.Edge.toValue)) := by
    rw [transitionsDeclaredBy, OrderedMap.get?_mapValues, OrderedMap.get?_table _ hname,
      Option.map_some]
  have hevents : (eventsDeclaredBy ds).keys = eventNames ds := by simp [eventsDeclaredBy]
  rw [loadEdges, hout]
  simp only [access_ok, Value.asMap, bind, Except.bind]
  rw [Model.edgesDeclaredBy, OrderedMap.mapValues_tabulate, OrderedMap.tabulate, List.mapM_map]
  refine mapM_eq_ok fun e he ↦ ?_
  have hload := loadEdge_toValue (eventsDeclaredBy ds) e.key
    ⟨e.target, (stateNames ds).idxOf e.target, e.event, guardsOn ds (.transition name e.key)⟩
    (by rw [hevents]; exact hc.event_declared name e he)
  rw [hevents] at hload
  exact hload

private theorem loadState_eq_ok (hc : Consistent ds) (hp : Model.Publishes root inputPath ds)
    {name : String} (hname : name ∈ stateNames ds) (position : Nat) :
    loadState root (eventsDeclaredBy ds) (transitionsDeclaredBy ds) name (Model.ordinal position)
      position = .ok (State.declaredBy ds name) := by
  simp only [loadState, ordinal_eq_ok, bind, Except.bind, ne_eq, not_true_eq_false, if_false,
    loadEdges_eq_ok hc hname, hookNames_eq_ok hp.entryGuards hname,
    hookNames_eq_ok hp.exitGuards hname, hookNames_eq_ok hp.entryCallbacks hname,
    hookNames_eq_ok hp.exitCallbacks hname]
  rfl

private theorem loadEvent_eq_ok (hp : Model.Publishes root inputPath ds) {name : String}
    (hname : name ∈ eventNames ds) : loadEvent root name = .ok (Event.declaredBy ds name) := by
  simp only [loadEvent, bind, Except.bind, hookNames_eq_ok hp.eventGuards hname,
    hookNames_eq_ok hp.eventCallbacks hname]
  rfl

/-! ## The machine -/

private theorem eventTable_eq_ok (hp : Model.Publishes root inputPath ds) :
    eventTable root = .ok (eventsDeclaredBy ds) := by
  rw [eventTable, hp.events]
  by_cases h : eventNames ds = []
  · rw [if_pos h, eventsDeclaredBy, h]
    rfl
  · rw [if_neg h]
    rfl

/-- The entries of a numbered table carry their positions. -/
private theorem mem_zipIdx_entries {names : List String} {name : String} {number : Value}
    {position : Nat}
    (h : ((name, number), position) ∈
      ((OrderedMap.numbered names).mapValues Model.ordinal).entries.zipIdx) :
    name ∈ names ∧ number = Model.ordinal position := by
  rw [List.mk_mem_zipIdx_iff_getElem?] at h
  simp only [OrderedMap.mapValues, OrderedMap.numbered, List.getElem?_map, List.getElem?_zipIdx,
    Option.map_map, Option.map_eq_some_iff, Function.comp_apply, Prod.mk.injEq] at h
  obtain ⟨n, hn, rfl, rfl⟩ := h
  exact ⟨List.mem_of_getElem? hn, by rw [Nat.zero_add]⟩

private theorem loadStates_eq_ok (hc : Consistent ds) (hp : Model.Publishes root inputPath ds) :
    (((OrderedMap.numbered (stateNames ds)).mapValues Model.ordinal).entries.zipIdx.mapM
      fun ((name, number), position) ↦
        loadState root (eventsDeclaredBy ds) (transitionsDeclaredBy ds) name number position) =
      .ok ((stateNames ds).map (State.declaredBy ds)) := by
  have hnames : ((OrderedMap.numbered (stateNames ds)).mapValues Model.ordinal).entries.zipIdx.map
      (Prod.fst ∘ Prod.fst) = stateNames ds := by
    rw [← List.map_map, List.zipIdx_map_fst]
    exact (OrderedMap.keys_mapValues ..).trans (OrderedMap.keys_numbered _)
  rw [← congrArg (List.map (State.declaredBy ds)) hnames, List.map_map]
  refine mapM_eq_ok ?_
  rintro ⟨⟨name, number⟩, position⟩ hx
  obtain ⟨hname, rfl⟩ := mem_zipIdx_entries hx
  exact loadState_eq_ok hc hp hname position

private theorem checkTargets_eq_ok (hc : Consistent ds) :
    checkTargets ((stateNames ds).map (State.declaredBy ds)) = .ok () := by
  rw [checkTargets_eq_ok_iff, List.length_map]
  intro s hs e he
  obtain ⟨name, -, rfl⟩ := List.mem_map.1 hs
  obtain ⟨link, hlink, rfl⟩ := List.mem_map.1 he
  exact List.idxOf_lt_length_of_mem (hc.target_declared name link hlink)

private theorem loadInitial_eq_ok (hc : Consistent ds) (hp : Model.Publishes root inputPath ds) :
    loadInitial root (stateNames ds).length =
      .ok ((initialNames ds).map (stateNames ds).idxOf) := by
  have hload : ((initialNames ds).map Value.str).mapM (fun s ↦ do
      ordinal (← access (do
        (Value.map ((OrderedMap.numbered (stateNames ds)).mapValues Model.ordinal)).get
          (← s.asString)))) =
      .ok ((initialNames ds).map (stateNames ds).idxOf) := by
    rw [List.mapM_map]
    refine mapM_eq_ok fun name hname ↦ ?_
    have hnumber : (Value.map ((OrderedMap.numbered (stateNames ds)).mapValues
        Model.ordinal)).get? name = some (Model.ordinal ((stateNames ds).idxOf name)) := by
      rw [Value.get?, OrderedMap.get?_mapValues,
        OrderedMap.get?_numbered (hc.initial_declared name hname), Option.map_some]
    simp only [Function.comp_apply, Value.asString, bind, Except.bind,
      Value.get_eq_ok_iff.2 hnumber, access_ok, ordinal_eq_ok]
  have hrange : ((initialNames ds).map (stateNames ds).idxOf).find?
      (fun n ↦ (stateNames ds).length ≤ n) = none := by
    simp only [List.find?_eq_none, List.mem_map, decide_eq_true_eq]
    rintro _ ⟨name, hname, rfl⟩
    exact Nat.not_le.2 (List.idxOf_lt_length_of_mem (hc.initial_declared name hname))
  rw [loadInitial, access_get Value.asSeq hp.initial, Value.get_eq_ok_iff.2 hp.states]
  simp only [access_ok, Value.ofStrings, Value.asSeq, bind, Except.bind] at hload ⊢
  rw [hload]
  simp only [hrange]
  rfl

private theorem loadOrder_eq_ok (hc : Consistent ds) (hp : Model.Publishes root inputPath ds) :
    loadOrder root = .ok (callbackOrderOf ds) := by
  have hoption := hp.option "callback_order" (by simp [Config.keys, Config.defaults])
  have horder : CallbackOrder.ofName (optionOf ds "callback_order") = .ok (callbackOrderOf ds) := by
    rw [optionOf, callbackOrderOf]
    cases hlast : lastOption ds "callback_order" with
    | none => rfl
    | some name =>
      have hvalid := (hc.options_valid _ _ hlast).2
      rw [Config.isValid, if_pos rfl] at hvalid
      simp only [Option.getD_some]
      cases hname : CallbackOrder.ofName name with
      | ok order => rfl
      | error reason =>
        rw [hname] at hvalid
        cases hvalid
  rw [loadOrder, access_get Value.asString hoption]
  simp only [access_ok, Value.asString, bind, Except.bind, horder]
  rfl

/-- Loading gives the machine that the declarations describe. -/
theorem ofNamespace_eq_declaredBy (hc : Consistent ds) (hp : Model.Publishes root inputPath ds) :
    Spec.ofNamespace root = .ok (Spec.declaredBy ds) := by
  have hevents : (eventsDeclaredBy ds).keys.mapM (loadEvent root) =
      .ok ((eventNames ds).map (Event.declaredBy ds)) := by
    rw [eventsDeclaredBy, OrderedMap.keys_mapValues, OrderedMap.keys_numbered]
    exact mapM_eq_ok fun name hname ↦ loadEvent_eq_ok hp hname
  have htransitions : access (do (← root.get "transitions").asMap) =
      .ok (transitionsDeclaredBy ds) := access_get Value.asMap hp.transitions
  have hstates : access (do (← root.get "states").asMap) =
      .ok ((OrderedMap.numbered (stateNames ds)).mapValues Model.ordinal) :=
    access_get Value.asMap hp.states
  have hdriven : access (do (← root.get "event_driven").asInt) =
      .ok (if !(eventNames ds).isEmpty then 1 else 0) := access_get Value.asInt hp.eventDriven
  have hname : access (do (← root.get "invalid_name").asString) =
      .ok (optionOf ds "invalid_name") :=
    access_get Value.asString (hp.option _ (by simp [Config.keys, Config.defaults]))
  rw [Spec.ofNamespace, eventTable_eq_ok hp, htransitions, hstates, hdriven, hname]
  simp only [bind, Except.bind, hevents]
  rw [loadStates_eq_ok hc hp]
  simp only [checkTargets_eq_ok hc, List.length_map, loadInitial_eq_ok hc hp,
    loadOrder_eq_ok hc hp]
  cases h : eventNames ds <;> simp [Spec.declaredBy, h, pure, Except.pure]

/-! ## At most one edge serves a request -/

private theorem length_filter_le_one {α : Type} {key : α → String} {p : α → Bool} {xs : List α}
    (hnodup : (xs.map key).Nodup)
    (hkey : ∀ x ∈ xs, ∀ y ∈ xs, p x = true → p y = true → key x = key y) :
    (xs.filter p).length ≤ 1 := by
  induction xs with
  | nil => simp
  | cons x xs ih =>
    rw [List.map_cons, List.nodup_cons] at hnodup
    have hrest := ih hnodup.2 fun y hy z hz ↦
      hkey y (List.mem_cons_of_mem x hy) z (List.mem_cons_of_mem x hz)
    by_cases hx : p x
    · -- Another element with the property would have the key of `x`.
      have hnone : xs.filter p = [] := by
        rw [List.filter_eq_nil_iff]
        intro y hy hpy
        refine hnodup.1 ?_
        rw [hkey x List.mem_cons_self y (List.mem_cons_of_mem x hy) hx hpy]
        exact List.mem_map_of_mem hy
      rw [List.filter_cons_of_pos hx, hnone]
      simp
    · rwa [List.filter_cons_of_neg hx]

private theorem idxOf_inj {names : List String} {a b : String} (ha : a ∈ names) (hb : b ∈ names)
    (h : names.idxOf a = names.idxOf b) : a = b := by
  rw [← List.getElem_idxOf (List.idxOf_lt_length_of_mem ha),
    ← List.getElem_idxOf (List.idxOf_lt_length_of_mem hb)]
  simp only [h]

/-- Two edges of a state that serve one request have the same key. -/
private theorem key_eq_of_isServedBy (hc : Consistent ds) {name : String} {a b : Link}
    (ha : a ∈ linksFrom ds name) (hb : b ∈ linksFrom ds name) {r : Request}
    (hra : r.isServedBy (Edge.declaredBy ds name a) = true)
    (hrb : r.isServedBy (Edge.declaredBy ds name b) = true) : a.key = b.key := by
  cases r with
  | event n =>
    simp only [Request.isServedBy, Edge.declaredBy, beq_iff_eq, Option.map_eq_some_iff] at hra hrb
    obtain ⟨e, he, hne⟩ := hra
    obtain ⟨f, hf, hnf⟩ := hrb
    have hef : e = f := idxOf_inj (hc.event_declared name a ha e he)
      (hc.event_declared name b hb f hf) (hne.trans hnf.symm)
    rw [Link.key, Link.key, he, hf, hef]
    rfl
  | target n =>
    simp only [Request.isServedBy, Edge.declaredBy, Bool.and_eq_true, Option.isNone_iff_eq_none,
      Option.map_eq_none_iff, beq_iff_eq] at hra hrb
    have htarget : a.target = b.target := idxOf_inj (hc.target_declared name a ha)
      (hc.target_declared name b hb) (hra.2.trans hrb.2.symm)
    rw [Link.key, Link.key, hra.1, hrb.1, htarget]

/-- At most one edge of a declared state serves a request. -/
theorem length_filter_isServedBy_le_one (hc : Consistent ds) (name : String) (r : Request) :
    ((State.declaredBy ds name).edges.filter r.isServedBy).length ≤ 1 := by
  rw [State.declaredBy, List.filter_map, List.length_map]
  exact length_filter_le_one (hc.links_nodup name) fun a ha b hb hra hrb ↦
    key_eq_of_isServedBy hc ha hb hra hrb

end

/-! ## The main result -/

/-- The machine that runs is the machine that was declared, and no request fits two of the edges
of a state. -/
theorem ofNamespace_of_build {inputPath : String} {ds : List Declaration} {ns : Namespace}
    (h : Model.build inputPath ds = .ok ns) :
    Spec.ofNamespace ns.root = .ok (Spec.declaredBy ds) ∧
      ∀ s ∈ (Spec.declaredBy ds).states, ∀ r : Request,
        (s.edges.filter r.isServedBy).length ≤ 1 := by
  obtain ⟨hc, -, rfl⟩ := Model.eq_publish_of_build h
  refine ⟨ofNamespace_eq_declaredBy hc Model.publishes_declaredBy, fun s hs r ↦ ?_⟩
  obtain ⟨name, -, rfl⟩ := List.mem_map.1 hs
  exact length_filter_isServedBy_le_one hc name r

/-- A lamp that is lit by a button. Its declarations are not sorted by what they declare, and an
option is set twice. -/
def lamp : List Declaration :=
  [⟨.state "off", .none⟩, ⟨.event "press", .none⟩, ⟨.initial "off", .none⟩,
    ⟨.config "callback_order" "exit-event-entry", .none⟩,
    ⟨.callback (.event "press") "click", .none⟩, ⟨.state "on", .none⟩,
    ⟨.transition "off" (some "press") "on", .none⟩, ⟨.callback (.entry "on") "glow", .none⟩,
    ⟨.precondition (.transition "off" "press") "powered", .none⟩,
    ⟨.callback (.entry "on") "hum", .none⟩,
    ⟨.config "callback_order" "exit-entry-event", .none⟩]

/-- The lamp that runs. -/
theorem ofNamespace_of_build_lamp :
    ∃ ns, Model.build "lamp.fsm" lamp = .ok ns ∧
      Spec.ofNamespace ns.root = .ok
        { states :=
            [⟨"off", [], [], [], [], [⟨"press", 1, some 0, ["powered"]⟩]⟩,
              ⟨"on", [], [], ["glow", "hum"], [], []⟩]
          events := [⟨"press", [], ["click"]⟩]
          initial := [0]
          eventDriven := true
          callbackOrder := .exitEntryEvent
          invalidName := "[INVALID]" } := by
  have hbuild : ∃ ns, Model.build "lamp.fsm" lamp = .ok ns := ⟨_, rfl⟩
  obtain ⟨ns, hns⟩ := hbuild
  exact ⟨ns, hns, (ofNamespace_of_build hns).1⟩

end StateGen.Machine
