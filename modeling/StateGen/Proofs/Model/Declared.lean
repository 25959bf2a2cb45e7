import StateGen.Proofs.Declarations
import StateGen.Proofs.Model.Step
import StateGen.Proofs.Tables

/-!
# The model that declarations describe

`Model.declaredBy` is the model read off a list of declarations. One accepted declaration takes it
to the model of the longer list, so building arrives at this model whenever it accepts all
declarations; where it goes on after rejections, it arrives at the model of those it accepted.
-/

namespace StateGen

open Declaration

namespace Model

/-- The edges of a state. -/
def edgesDeclaredBy (ds : List Declaration) (source : String) : OrderedMap Edge :=
  .tabulate Link.key
    (fun e ↦ ⟨e.target, (stateNames ds).idxOf e.target, e.event,
      guardsOn ds (.transition source e.key)⟩)
    (linksFrom ds source)

/-- The style that events and edges fix. -/
def styleDeclaredBy (ds : List Declaration) : Option Style :=
  if eventNames ds ≠ [] then some .eventDriven
  else if hasLink ds then some .direct
  else none

/-- The model that declarations describe. -/
def declaredBy (inputPath : String) (ds : List Declaration) : Model where
  inputPath := Config.forComment inputPath
  options := .tabulate Prod.fst (fun o ↦ (lastOption ds o.1).getD o.2) Config.defaults
  states := .numbered (stateNames ds)
  events := .numbered (eventNames ds)
  initialStates := initialNames ds
  eventCallbacks := .table (fun e ↦ callbacksOn ds (.event e)) (eventNames ds)
  eventPreconditions := .table (fun e ↦ guardsOn ds (.event e)) (eventNames ds)
  entryCallbacks := .table (fun s ↦ callbacksOn ds (.entry s)) (stateNames ds)
  exitCallbacks := .table (fun s ↦ callbacksOn ds (.exit s)) (stateNames ds)
  entryPreconditions := .table (fun s ↦ guardsOn ds (.entry s)) (stateNames ds)
  exitPreconditions := .table (fun s ↦ guardsOn ds (.exit s)) (stateNames ds)
  transitions := .table (edgesDeclaredBy ds) (stateNames ds)
  style := styleDeclaredBy ds
  preconditionNames := (guardUses ds).foldl appendNew []
  callbackNames := (callbackUses ds).foldl appendNew []

/-- Nothing is declared at first. -/
theorem initial_eq_declaredBy (inputPath : String) :
    initial inputPath = declaredBy inputPath [] := by
  have hoptions : (⟨Config.defaults⟩ : OrderedMap String) =
      .tabulate Prod.fst (fun o ↦ (lastOption [] o.1).getD o.2) Config.defaults := by
    simp only [OrderedMap.tabulate, lastOption, List.filterMap_nil, List.getLast?_nil,
      Option.getD_none]
    exact congrArg _ (List.map_id' _).symm
  simp only [initial, declaredBy, hoptions]
  rfl

section

variable {inputPath : String} {ds : List Declaration} {span : Span}

private theorem edgesDeclaredBy_congr (ds' : List Declaration) (hc : Consistent ds)
    (hlinks : ∀ s, linksFrom ds' s = linksFrom ds s)
    (hguards : ∀ s via, guardsOn ds' (.transition s via) = guardsOn ds (.transition s via))
    (hstates : ∀ s ∈ stateNames ds, (stateNames ds').idxOf s = (stateNames ds).idxOf s) :
    edgesDeclaredBy ds' = edgesDeclaredBy ds := by
  funext s
  simp only [edgesDeclaredBy, hlinks]
  apply OrderedMap.tabulate_congr
  intro e he
  rw [hguards, hstates e.target (hc.target_declared s e he)]

private theorem record_state {name : String} (hc : Consistent ds) (hname : name ∉ stateNames ds) :
    (declaredBy inputPath ds).record (.state name) =
      declaredBy inputPath (ds ++ [⟨.state name, span⟩]) := by
  have hedges : edgesDeclaredBy (ds ++ [⟨.state name, span⟩]) = edgesDeclaredBy ds := by
    apply edgesDeclaredBy_congr _ hc (by simp) (by simp)
    intro s hs
    rw [stateNames_snoc, List.idxOf_append, if_pos hs]
  have hnew : edgesDeclaredBy ds name = .empty := by
    simp [edgesDeclaredBy, hc.linksFrom_eq_nil hname, OrderedMap.tabulate, OrderedMap.empty]
  simp [record, declaredBy, styleDeclaredBy, OrderedMap.insert_numbered hname, hedges,
    OrderedMap.insert_table (edgesDeclaredBy ds) hname hnew,
    OrderedMap.insert_table (fun s ↦ guardsOn ds (.entry s)) hname (hc.guardsOn_eq_nil hname),
    OrderedMap.insert_table (fun s ↦ guardsOn ds (.exit s)) hname (hc.guardsOn_eq_nil hname),
    OrderedMap.insert_table (fun s ↦ callbacksOn ds (.entry s)) hname (hc.callbacksOn_eq_nil hname),
    OrderedMap.insert_table (fun s ↦ callbacksOn ds (.exit s)) hname (hc.callbacksOn_eq_nil hname)]

private theorem record_event {name : String} (hc : Consistent ds) (hname : name ∉ eventNames ds) :
    (declaredBy inputPath ds).record (.event name) =
      declaredBy inputPath (ds ++ [⟨.event name, span⟩]) := by
  have hedges : edgesDeclaredBy (ds ++ [⟨.event name, span⟩]) = edgesDeclaredBy ds :=
    edgesDeclaredBy_congr _ hc (by simp) (by simp) (by simp)
  simp [record, declaredBy, styleDeclaredBy, OrderedMap.insert_numbered hname, hedges,
    OrderedMap.insert_table (fun s ↦ guardsOn ds (.event s)) hname (hc.guardsOn_eq_nil hname),
    OrderedMap.insert_table (fun s ↦ callbacksOn ds (.event s)) hname (hc.callbacksOn_eq_nil hname)]

private theorem edgesDeclaredBy_transition {source target : String} {event : Option String}
    (hc : Consistent ds) (hnew : event.getD target ∉ (linksFrom ds source).map Link.key)
    (s : String) :
    edgesDeclaredBy (ds ++ [⟨.transition source event target, span⟩]) s =
      if s = source then
        (edgesDeclaredBy ds s).insert (event.getD target)
          ⟨target, (stateNames ds).idxOf target, event, []⟩
      else edgesDeclaredBy ds s := by
  by_cases hs : s = source
  · subst hs
    have hfree : ¬ Declares ds (.transition s (event.getD target)) := by
      rintro ⟨e, he, hkey⟩
      exact hnew (hkey ▸ List.mem_map_of_mem he)
    have hkey : event.getD target ∉ (edgesDeclaredBy ds s).keys := by
      simpa [edgesDeclaredBy] using hnew
    rw [if_pos rfl, OrderedMap.insert_of_not_mem _ hkey]
    simp [edgesDeclaredBy, OrderedMap.tabulate, Link.key, hc.guardsOn_eq_nil hfree]
  · simp [edgesDeclaredBy, Ne.symm hs, hs]

private theorem record_transition {source target : String} {event : Option String}
    (hc : Consistent ds) (htarget : target ∈ stateNames ds)
    (hevent : match event with
      | some event => event ∈ eventNames ds
      | none => eventNames ds = [])
    (hnew : event.getD target ∉ (linksFrom ds source).map Link.key) :
    (declaredBy inputPath ds).record (.transition source event target) =
      declaredBy inputPath (ds ++ [⟨.transition source event target, span⟩]) := by
  have hstyle : some (if event.isSome then Style.eventDriven else .direct) =
      styleDeclaredBy (ds ++ [⟨.transition source event target, span⟩]) := by
    cases event with
    | none => simp_all [styleDeclaredBy]
    | some e => simp [styleDeclaredBy, List.ne_nil_of_mem hevent]
  have hedges : (OrderedMap.table (edgesDeclaredBy ds) (stateNames ds)).modify source
        (·.insert (event.getD target) ⟨target, (stateNames ds).idxOf target, event, []⟩) =
      .table (edgesDeclaredBy (ds ++ [⟨.transition source event target, span⟩]))
        (stateNames ds) := by
    rw [OrderedMap.modify_table _ _ _ hc.states_nodup]
    exact OrderedMap.tabulate_congr fun s _ ↦ (edgesDeclaredBy_transition hc hnew s).symm
  simp [record, declaredBy, OrderedMap.get?_numbered htarget, hstyle, hedges]

private theorem record_initial {name : String} (hc : Consistent ds) :
    (declaredBy inputPath ds).record (.initial name) =
      declaredBy inputPath (ds ++ [⟨.initial name, span⟩]) := by
  have hedges : edgesDeclaredBy (ds ++ [⟨.initial name, span⟩]) = edgesDeclaredBy ds :=
    edgesDeclaredBy_congr _ hc (by simp) (by simp) (by simp)
  simp [record, declaredBy, styleDeclaredBy, hedges]

private theorem record_config {key value : String} (hc : Consistent ds)
    (hkey : Config.isKey key) :
    (declaredBy inputPath ds).record (.config key value) =
      declaredBy inputPath (ds ++ [⟨.config key value, span⟩]) := by
  have hedges : edgesDeclaredBy (ds ++ [⟨.config key value, span⟩]) = edgesDeclaredBy ds :=
    edgesDeclaredBy_congr _ hc (by simp) (by simp) (by simp)
  have hoptions : (OrderedMap.tabulate Prod.fst (fun o ↦ (lastOption ds o.1).getD o.2)
        Config.defaults).insert key value =
      .tabulate Prod.fst
        (fun o ↦ (lastOption (ds ++ [⟨.config key value, span⟩]) o.1).getD o.2)
        Config.defaults := by
    rw [OrderedMap.insert_tabulate value nodup_keys_defaults
      (by simpa [Config.isKey, Config.keys] using hkey)]
    refine OrderedMap.tabulate_congr fun o _ ↦ ?_
    by_cases ho : key = o.1 <;> simp [ho, eq_comm]
  simp [record, declaredBy, styleDeclaredBy, hedges, hoptions]

/-- Attaching a guard under a name extends what the table of this kind of target has there. -/
private theorem attach_guards (ds : List Declaration) (span : Span) (t : String → HookTarget)
    (key name : String) {names : List String} (ht : ∀ n, t key = t n ↔ n = key)
    (hnodup : names.Nodup) :
    attach (.table (fun n ↦ guardsOn ds (t n)) names) key name =
      .table (fun n ↦ guardsOn (ds ++ [⟨.precondition (t key) name, span⟩]) (t n)) names := by
  rw [attach, OrderedMap.modify_table _ _ _ hnodup]
  refine OrderedMap.tabulate_congr fun n _ ↦ ?_
  by_cases hn : n = key <;> simp [ht, hn]

/-- Attaching a callback under a name extends what the table of this kind of target has there. -/
private theorem attach_callbacks (ds : List Declaration) (span : Span) (t : String → HookTarget)
    (key name : String) {names : List String} (ht : ∀ n, t key = t n ↔ n = key)
    (hnodup : names.Nodup) :
    attach (.table (fun n ↦ callbacksOn ds (t n)) names) key name =
      .table (fun n ↦ callbacksOn (ds ++ [⟨.callback (t key) name, span⟩]) (t n)) names := by
  rw [attach, OrderedMap.modify_table _ _ _ hnodup]
  refine OrderedMap.tabulate_congr fun n _ ↦ ?_
  by_cases hn : n = key <;> simp [ht, hn]

private theorem edgesDeclaredBy_guard {source via name : String} (hc : Consistent ds)
    (s : String) :
    edgesDeclaredBy (ds ++ [⟨.precondition (.transition source via) name, span⟩]) s =
      if s = source then
        (edgesDeclaredBy ds s).modify via fun e ↦
          { e with preconditions := e.preconditions ++ [name] }
      else edgesDeclaredBy ds s := by
  by_cases hs : s = source
  · subst hs
    rw [if_pos rfl, edgesDeclaredBy, edgesDeclaredBy,
      OrderedMap.modify_tabulate _ _ (hc.links_nodup s)]
    simp only [linksFrom_snoc, Kind.linkFrom?, Option.toList_none, List.append_nil]
    refine OrderedMap.tabulate_congr fun e _ ↦ ?_
    by_cases hkey : e.key = via
    · simp [hkey]
    · simp [hkey, Ne.symm hkey]
  · simp [edgesDeclaredBy, hs, Ne.symm hs]

private theorem record_precondition {target : HookTarget} {name : String} (hc : Consistent ds) :
    (declaredBy inputPath ds).record (.precondition target name) =
      declaredBy inputPath (ds ++ [⟨.precondition target name, span⟩]) := by
  cases target with
  | entry state =>
    have hedges := edgesDeclaredBy_congr (ds ++ [⟨.precondition (.entry state) name, span⟩])
      hc (by simp) (by simp) (by simp)
    have htable := attach_guards ds span .entry state name (by simp [eq_comm])
      hc.states_nodup
    simp [record, withGuard, declaredBy, styleDeclaredBy, hedges, htable]
  | exit state =>
    have hedges := edgesDeclaredBy_congr (ds ++ [⟨.precondition (.exit state) name, span⟩])
      hc (by simp) (by simp) (by simp)
    have htable := attach_guards ds span .exit state name (by simp [eq_comm])
      hc.states_nodup
    simp [record, withGuard, declaredBy, styleDeclaredBy, hedges, htable]
  | event event =>
    have hedges := edgesDeclaredBy_congr (ds ++ [⟨.precondition (.event event) name, span⟩])
      hc (by simp) (by simp) (by simp)
    have htable := attach_guards ds span .event event name (by simp [eq_comm])
      hc.events_nodup
    simp [record, withGuard, declaredBy, styleDeclaredBy, hedges, htable]
  | transition source via =>
    have hedges : (OrderedMap.table (edgesDeclaredBy ds) (stateNames ds)).modify source
          (·.modify via fun e ↦ { e with preconditions := e.preconditions ++ [name] }) =
        .table (edgesDeclaredBy (ds ++ [⟨.precondition (.transition source via) name, span⟩]))
          (stateNames ds) := by
      rw [OrderedMap.modify_table _ _ _ hc.states_nodup]
      exact OrderedMap.tabulate_congr fun s _ ↦ (edgesDeclaredBy_guard hc s).symm
    simp [record, withGuard, declaredBy, styleDeclaredBy, hedges]

private theorem record_callback {target : HookTarget} {name : String} (hc : Consistent ds)
    (htarget : ∀ source via, target ≠ .transition source via) :
    (declaredBy inputPath ds).record (.callback target name) =
      declaredBy inputPath (ds ++ [⟨.callback target name, span⟩]) := by
  have hedges := edgesDeclaredBy_congr (ds ++ [⟨.callback target name, span⟩])
    hc (by simp) (by simp) (by simp)
  cases target with
  | entry state =>
    have htable := attach_callbacks ds span .entry state name (by simp [eq_comm])
      hc.states_nodup
    simp [record, withCallback, declaredBy, styleDeclaredBy, hedges, htable]
  | exit state =>
    have htable := attach_callbacks ds span .exit state name (by simp [eq_comm])
      hc.states_nodup
    simp [record, withCallback, declaredBy, styleDeclaredBy, hedges, htable]
  | event event =>
    have htable := attach_callbacks ds span .event event name (by simp [eq_comm])
      hc.events_nodup
    simp [record, withCallback, declaredBy, styleDeclaredBy, hedges, htable]
  | transition source via => exact absurd rfl (htarget source via)

end

section

variable {inputPath : String} {ds : List Declaration} {d : Declaration}

@[simp]
theorem keys_states_declaredBy : (declaredBy inputPath ds).states.keys = stateNames ds :=
  OrderedMap.keys_numbered _

@[simp]
theorem keys_events_declaredBy : (declaredBy inputPath ds).events.keys = eventNames ds :=
  OrderedMap.keys_numbered _

/-- A state has no edge under a key if and only if none was declared. -/
theorem edge?_declaredBy_eq_none_iff (hc : Consistent ds) {source via : String} :
    (declaredBy inputPath ds).edge? source via = none ↔
      via ∉ (linksFrom ds source).map Link.key := by
  have hvia : (edgesDeclaredBy ds source).get? via = none ↔
      via ∉ (linksFrom ds source).map Link.key := by
    rw [← Option.not_isSome_iff_eq_none, OrderedMap.isSome_get?_iff_mem_keys]
    simp [edgesDeclaredBy]
  rw [edge?, declaredBy]
  by_cases hs : source ∈ stateNames ds
  · simpa [OrderedMap.get?_table _ hs] using hvia
  · rw [OrderedMap.get?_eq_none_of_not_mem (by simpa using hs)]
    simp [hc.linksFrom_eq_nil hs]

/-- A target that the model has was declared. -/
theorem declares_of_hasTarget (hc : Consistent ds) {t : HookTarget}
    (h : (declaredBy inputPath ds).HasTarget t) : Declares ds t := by
  cases t with
  | entry state | exit state =>
    rw [HasTarget, keys_states_declaredBy] at h
    exact h
  | event event =>
    rw [HasTarget, keys_events_declaredBy] at h
    exact h
  | transition source via =>
    have hedge := mt (edge?_declaredBy_eq_none_iff hc).2 (Option.isSome_iff_ne_none.1 h.2)
    rw [Decidable.not_not, List.mem_map] at hedge
    exact hedge

private theorem hasLink_of_mem {s : String} {e : Link} (h : e ∈ linksFrom ds s) : hasLink ds := by
  obtain ⟨⟨kind, span⟩, hd, he⟩ := List.mem_filterMap.1 h
  cases kind <;> simp at he
  exact List.any_eq_true.2 ⟨_, hd, rfl⟩

/-- A machine of no direct edges has events on all of its edges. -/
private theorem event_ne_none_of_style (hc : Consistent ds)
    (h : (declaredBy inputPath ds).style ≠ some .direct) {s : String} {e : Link}
    (he : e ∈ linksFrom ds s) : e.event ≠ none := by
  intro hdirect
  have hevents := hc.events_of_direct s e he hdirect
  exact h (by simp [declaredBy, styleDeclaredBy, hevents, hasLink_of_mem he])

/-- An accepted declaration fits those that the model was read from. -/
theorem fits_of_admits (hc : Consistent ds) {kind : Kind}
    (h : (declaredBy inputPath ds).Admits kind) : Fits ds kind := by
  cases kind with
  | state name =>
    refine ⟨?_, by simp, by simp, by simp, by simp, by simp, by simp⟩
    rintro _ ⟨⟩
    simpa using h.1
  | event name =>
    refine ⟨by simp, ?_, by simp, by simp, by simp, by simp, by simp⟩
    rintro _ ⟨⟩
    exact ⟨by simpa using h.1, fun s e he ↦ event_ne_none_of_style hc h.2.2 he⟩
  | transition source event target =>
    refine ⟨by simp, by simp, by simp, ?_, by simp, by simp, by simp⟩
    intro s e he
    obtain ⟨rfl, rfl⟩ : source = s ∧ ⟨event, target⟩ = e := by simpa using he
    simp only [Admits, keys_states_declaredBy, keys_events_declaredBy,
      edge?_declaredBy_eq_none_iff hc] at h
    obtain ⟨hsource, htarget, hevent, hkey⟩ := h
    refine ⟨hsource, htarget, ?_, ?_, hkey⟩
    · rintro _ rfl
      exact hevent
    · rintro rfl
      exact hevent
  | initial name =>
    refine ⟨by simp, by simp, ?_, by simp, by simp, by simp, by simp⟩
    rintro _ ⟨⟩
    exact ⟨by simpa using h.1, h.2⟩
  | precondition target name =>
    refine ⟨by simp, by simp, by simp, by simp, ?_, by simp, by simp⟩
    intro t _ ht
    obtain ⟨rfl, -⟩ : target = t ∧ _ := by simpa using ht
    exact declares_of_hasTarget hc h.2
  | callback target name =>
    refine ⟨by simp, by simp, by simp, by simp, by simp, ?_, by simp⟩
    intro t _ ht
    obtain ⟨rfl, -⟩ : target = t ∧ _ := by simpa using ht
    exact declares_of_hasTarget hc h.2.1
  | config key value =>
    refine ⟨by simp, by simp, by simp, by simp, by simp, by simp, ?_⟩
    intro k v hv
    obtain ⟨rfl, rfl⟩ : key = k ∧ value = v := by simpa using hv
    exact h

/-- Recording an accepted declaration gives the model that one more declaration describes. -/
theorem record_declaredBy (hc : Consistent ds) (h : (declaredBy inputPath ds).Admits d.kind) :
    (declaredBy inputPath ds).record d.kind = declaredBy inputPath (ds ++ [d]) := by
  obtain ⟨kind, span⟩ := d
  cases kind with
  | state name => exact record_state hc (by simpa using h.1)
  | event name => exact record_event hc (by simpa using h.1)
  | transition source event target =>
    simp only [Admits, keys_states_declaredBy, keys_events_declaredBy,
      edge?_declaredBy_eq_none_iff hc] at h
    exact record_transition hc h.2.1 h.2.2.1 h.2.2.2
  | initial name => exact record_initial hc
  | precondition target name => exact record_precondition hc
  | callback target name => exact record_callback hc h.2.2
  | config key value => exact record_config hc h.1

/-- One accepted declaration takes the model of a list to the model of the longer list. -/
theorem apply_declaredBy {m : Model} (hc : Consistent ds)
    (h : apply d (declaredBy inputPath ds) = .ok () m) :
    m = declaredBy inputPath (ds ++ [d]) ∧ Consistent (ds ++ [d]) := by
  obtain ⟨hadmits, rfl⟩ := apply_eq_ok_iff.1 h
  exact ⟨record_declaredBy hc hadmits, hc.snoc (fits_of_admits hc hadmits)⟩

end

/-- A machine is published if and only if it passes the check of the whole. -/
theorem finalize_eq_ok_iff {m : Model} {ns : Namespace} :
    m.finalize = .ok ns ↔ m.check = .ok () ∧ ns = m.publish := by
  simp only [finalize, bind, Except.bind, pure, Except.pure]
  cases m.check with
  | error e => simp
  | ok _ => simp [eq_comm]

/-- A machine passes the check of the whole if and only if it has two states, an initial state, and
no declared name that the generated code defines as well. -/
theorem check_eq_ok_iff {m : Model} :
    m.check = .ok () ↔
      2 ≤ m.states.size ∧ m.initialStates ≠ [] ∧
        ∀ name ∈ m.declaredNames.map Prod.fst, name ∉ m.emittedNames := by
  have hnames : m.declaredNames.find? (fun entry ↦ m.emittedNames.contains entry.1) = none ↔
      ∀ name ∈ m.declaredNames.map Prod.fst, name ∉ m.emittedNames := by
    simp [List.find?_eq_none]
  rw [← hnames]
  unfold check
  split
  · next hsize => simp [hsize]
  · next hsize => simp [hsize]
  · next hzero hone =>
    have hsize : 2 ≤ m.states.size := by
      change ¬ m.states.size = 0 at hzero
      change ¬ m.states.size = 1 at hone
      omega
    by_cases hinitial : m.initialStates = []
    · simp [hinitial]
    · rw [if_neg (by simpa using hinitial)]
      split
      · next name kind hfind =>
        refine iff_of_false (by simp) fun h ↦ ?_
        have hsome : m.declaredNames.find? (fun entry ↦ m.emittedNames.contains entry.1) =
            some (name, kind) := hfind
        rw [h.2.2] at hsome
        cases hsome
      · next hfind => exact iff_of_true rfl ⟨hsize, hinitial, hfind⟩

/-! ## Runs -/

variable {inputPath : String}

/-- Declarations that are all accepted give the model that they describe. -/
theorem applyAll_declaredBy {m : Model} {ds before : List Declaration} (hc : Consistent before)
    (h : applyAll ds (declaredBy inputPath before) = .ok () m) :
    m = declaredBy inputPath (before ++ ds) ∧ Consistent (before ++ ds) := by
  induction ds generalizing before with
  | nil =>
    rw [List.append_nil]
    injection h with _ hm
    exact ⟨hm.symm, hc⟩
  | cons d ds ih =>
    simp only [applyAll, bind, EStateM.bind] at h
    cases hd : apply d (declaredBy inputPath before) with
    | error e m' =>
      rw [hd] at h
      cases h
    | ok _ m' =>
      rw [hd] at h
      obtain ⟨rfl, hc'⟩ := apply_declaredBy hc hd
      simpa using ih hc' h

/-- The model after a declaration, accepted or not. -/
def afterApply (m : Model) (d : Declaration) : Model :=
  match apply d m with
  | .ok _ m' | .error _ m' => m'

/-- Apply declarations one after the other and go on where one is rejected. -/
def applyEach (m : Model) (ds : List Declaration) : Model := ds.foldl afterApply m

/-- Declarations of which some are rejected give the model that the others describe. -/
theorem applyEach_declaredBy {before : List Declaration} (ds : List Declaration)
    (hc : Consistent before) :
    ∃ accepted, accepted.Sublist ds ∧ Consistent (before ++ accepted) ∧
      (declaredBy inputPath before).applyEach ds = declaredBy inputPath (before ++ accepted) := by
  induction ds generalizing before with
  | nil => exact ⟨[], .slnil, by simpa using hc, by simp [applyEach]⟩
  | cons d ds ih =>
    rw [applyEach, List.foldl_cons, ← applyEach, afterApply]
    cases hd : apply d (declaredBy inputPath before) with
    | error e m' =>
      obtain rfl := eq_of_apply_eq_error hd
      obtain ⟨accepted, hsub, hrest⟩ := ih hc
      exact ⟨accepted, hsub.cons d, hrest⟩
    | ok _ m' =>
      obtain ⟨rfl, hc'⟩ := apply_declaredBy hc hd
      obtain ⟨accepted, hsub, hrest⟩ := ih hc'
      exact ⟨d :: accepted, hsub.cons_cons d, by simpa using hrest⟩

/-- No declarations are consistent. -/
theorem consistent_nil : Consistent [] := by
  constructor <;> simp [stateNames, eventNames, initialNames, linksFrom, guardsOn, callbacksOn,
    lastOption]

/-- A published machine is the one that its declarations describe. -/
theorem eq_publish_of_build {ns : Namespace} {ds : List Declaration}
    (h : build inputPath ds = .ok ns) :
    Consistent ds ∧ (declaredBy inputPath ds).check = .ok () ∧
      ns = (declaredBy inputPath ds).publish := by
  rw [build, initial_eq_declaredBy] at h
  cases hrun : applyAll ds (declaredBy inputPath []) with
  | error e m =>
    rw [hrun] at h
    cases h
  | ok _ m =>
    obtain ⟨rfl, hc⟩ := applyAll_declaredBy consistent_nil hrun
    rw [hrun] at h
    exact ⟨hc, finalize_eq_ok_iff.1 h⟩

end Model

end StateGen
