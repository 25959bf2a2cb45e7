import StateGen.Proofs.Description.Declared
import StateGen.Proofs.Model.Publish

/-!
# Well-formed descriptions

The conditions under which a description describes a machine. They do not mention the order of the
items: a name may be used before the line that declares it. A description is well-formed if and only
if its declarations build a machine.
-/

namespace StateGen

namespace Description

variable (d : Description)

/-- The value of an option: the one that it is set to last, or its default. -/
def optionValue (key : String) : String :=
  ((d.settings.filter (·.1 = key)).getLast?.map Prod.snd).getD
    ((Config.defaults.lookup key).getD "")

/-- The functions, macros and tables that the generated code defines. -/
def generatedNames : List String := Model.generatedNames d.optionValue

/-- A description that describes a machine. -/
structure WellFormed : Prop where
  states_nodup : d.stateNames.Nodup
  events_nodup : d.eventNames.Nodup
  state_ne_event : ∀ name ∈ d.stateNames, name ∉ d.eventNames
  names_free : ∀ name ∈ d.stateNames ++ d.eventNames, Config.isReserved name = false
  settings_valid : ∀ s ∈ d.settings, Config.isKey s.1 ∧ Config.isValid s.1 s.2
  /-- In a machine with events no edge is direct. -/
  not_mixed : d.eventNames ≠ [] → ∀ e ∈ d.edges, e.event ≠ none
  event_declared : ∀ e ∈ d.edges, ∀ name, e.event = some name → name ∈ d.eventNames
  target_declared : ∀ e ∈ d.edges, e.target ∈ d.stateNames
  /-- No state has two edges with the same key. -/
  edges_nodup : ∀ s, ((d.edges.filter (·.source = s)).map Edge.key).Nodup
  initial_declared : ∀ s ∈ d.initialNames, s ∈ d.stateNames
  initial_nodup : d.initialNames.Nodup
  hooks_free : ∀ name ∈ d.guardNames ++ d.callbackNames, Config.isReserved name = false
  hook_ne_name : ∀ name ∈ d.guardNames ++ d.callbackNames, name ∉ d.stateNames ++ d.eventNames
  guard_ne_callback : ∀ name ∈ d.guardNames, name ∉ d.callbackNames
  two_states : 2 ≤ d.stateNames.length
  initial_exists : d.initialNames ≠ []
  not_generated : ∀ name ∈ d.stateNames ++ d.eventNames ++ d.guardNames ++ d.callbackNames,
    name ∉ d.generatedNames

variable {d}

/-! ## Acceptance -/

open Declaration (linksFrom optionOf)
open Model (declaredBy NameKind)

/-- The names of a kind. -/
private def namesOf (d : Description) : NameKind → List String
  | .state => d.stateNames
  | .event => d.eventNames
  | .precondition => d.guardNames
  | .callback => d.callbackNames

private theorem mem_namesOf_declarations (hd : d.SingleTargets) {kind : NameKind} {name : String} :
    name ∈ Declaration.namesOf d.declarations kind ↔ name ∈ d.namesOf kind := by
  cases kind with
  | state => rw [Declaration.namesOf, stateNames_declarations, namesOf]
  | event => rw [Declaration.namesOf, eventNames_declarations, namesOf]
  | precondition => rw [Declaration.namesOf, mem_guardUses_declarations hd, namesOf]
  | callback => rw [Declaration.namesOf, callbackUses_declarations, namesOf]

private theorem mem_linksFrom_iff {source : String} {link : Declaration.Link} :
    link ∈ linksFrom d.declarations source ↔ ∃ e ∈ d.edges, e.source = source ∧ e.link = link := by
  simp [linksFrom_declarations, and_assoc]

private theorem mem_settings_iff {key value : String} :
    (key, value) ∈ d.settings ↔ ∃ e ∈ d.declarations, e.kind = .config key value := by
  have hkind (e : Declaration) :
      e.kind.optionValue? key = some value ↔ e.kind = .config key value := by
    cases e.kind <;> simp
  have hmem : value ∈ d.declarations.filterMap (fun e ↦ e.kind.optionValue? key) ↔
      (key, value) ∈ d.settings := by
    rw [settings_declarations]
    simp
  rw [← hmem, List.mem_filterMap]
  simp only [hkind]

/-- Edges start at states of the description. -/
private theorem source_mem_stateNames {e : Edge} (h : e ∈ d.edges) : e.source ∈ d.stateNames := by
  obtain ⟨item, hitem, he⟩ := List.mem_flatMap.1 h
  cases item with
  | option o | initial i | event ev => cases he
  | state s =>
    obtain ⟨entry, -, he⟩ := List.mem_flatMap.1 he
    rw [StateEntry.source_of_mem_edges he]
    exact mem_stateNames hitem

private theorem optionOf_declarations (key : String) :
    optionOf d.declarations key = d.optionValue key := by
  rw [optionOf, Declaration.lastOption, settings_declarations, List.getLast?_map, optionValue]

/-- The names of the generated code depend on the options that are set last. -/
private theorem emittedNames_declarations (inputPath : String) :
    (declaredBy inputPath d.declarations).emittedNames = d.generatedNames := by
  rw [Model.emittedNames_declaredBy, generatedNames]
  exact Model.generatedNames_congr fun key _ ↦ optionOf_declarations key

/-- The check of the whole, in terms of the description. -/
private theorem check_declarations_iff (hd : d.SingleTargets) (inputPath : String) :
    (declaredBy inputPath d.declarations).check = .ok () ↔
      2 ≤ d.stateNames.length ∧ d.initialNames ≠ [] ∧
        ∀ kind, ∀ name ∈ d.namesOf kind, name ∉ d.generatedNames := by
  simp only [Model.check_declaredBy_eq_ok_iff, stateNames_declarations, initialNames_declarations,
    emittedNames_declarations, mem_namesOf_declarations hd]

private theorem forall_namesOf_iff {P : String → Prop} :
    (∀ kind, ∀ name ∈ d.namesOf kind, P name) ↔
      ∀ name ∈ d.stateNames ++ d.eventNames ++ d.guardNames ++ d.callbackNames, P name := by
  simp only [List.mem_append]
  constructor
  · rintro h name (((hname | hname) | hname) | hname)
    · exact h .state name hname
    · exact h .event name hname
    · exact h .precondition name hname
    · exact h .callback name hname
  · intro h kind name hname
    cases kind <;> simp_all [namesOf]

/-- Declarations that are accepted and make a machine come from a well-formed description. -/
private theorem wellFormed_of_acceptable (hd : d.SingleTargets)
    (ha : Declaration.Acceptable d.declarations)
    (hcheck : 2 ≤ d.stateNames.length ∧ d.initialNames ≠ [] ∧
      ∀ kind, ∀ name ∈ d.namesOf kind, name ∉ d.generatedNames) : d.WellFormed := by
  have hc := ha.consistent
  have hfree : ∀ name ∈ d.stateNames ++ d.eventNames ++ d.guardNames ++ d.callbackNames,
      Config.isReserved name = false :=
    forall_namesOf_iff.1 fun kind name hname ↦
      ha.unambiguous.free kind name ((mem_namesOf_declarations hd).2 hname)
  have hne (kind other : NameKind) (hkind : kind ≠ other) {name : String}
      (hname : name ∈ d.namesOf kind) : name ∉ d.namesOf other := fun hother ↦
    hkind (ha.unambiguous.kind_eq kind other name ((mem_namesOf_declarations hd).2 hname)
      ((mem_namesOf_declarations hd).2 hother))
  have hlink {e : Edge} (he : e ∈ d.edges) : e.link ∈ linksFrom d.declarations e.source :=
    mem_linksFrom_iff.2 ⟨e, he, rfl, rfl⟩
  constructor
  case states_nodup => exact stateNames_declarations d ▸ hc.states_nodup
  case events_nodup => exact eventNames_declarations d ▸ hc.events_nodup
  case initial_nodup => exact initialNames_declarations d ▸ hc.initial_nodup
  case two_states => exact hcheck.1
  case initial_exists => exact hcheck.2.1
  case not_generated => exact forall_namesOf_iff.1 hcheck.2.2
  case state_ne_event => exact fun name hname ↦ hne .state .event (by decide) hname
  case guard_ne_callback => exact fun name hname ↦ hne .precondition .callback (by decide) hname
  case names_free =>
    intro name hname
    exact hfree name (List.mem_append_left _ (List.mem_append_left _ hname))
  case hooks_free =>
    intro name hname
    apply hfree name
    rw [List.append_assoc]
    exact List.mem_append_right _ hname
  case hook_ne_name =>
    intro name hname hother
    rcases List.mem_append.1 hname with hname | hname <;>
      rcases List.mem_append.1 hother with hother | hother
    · exact hne .precondition .state (by decide) hname hother
    · exact hne .precondition .event (by decide) hname hother
    · exact hne .callback .state (by decide) hname hother
    · exact hne .callback .event (by decide) hname hother
  case settings_valid =>
    rintro ⟨key, value⟩ hs
    obtain ⟨e, he, hkind⟩ := mem_settings_iff.1 hs
    exact ha.config_valid e he key value hkind
  case not_mixed =>
    intro hevents e he hnone
    apply hevents
    rw [← eventNames_declarations]
    exact hc.events_of_direct e.source e.link (hlink he) hnone
  case event_declared =>
    intro e he name hname
    rw [← eventNames_declarations]
    exact hc.event_declared e.source e.link (hlink he) name hname
  case target_declared =>
    intro e he
    rw [← stateNames_declarations]
    exact hc.target_declared e.source e.link (hlink he)
  case edges_nodup =>
    intro s
    have hkeys := hc.links_nodup s
    rw [linksFrom_declarations, List.map_map] at hkeys
    exact hkeys
  case initial_declared =>
    intro s hs
    rw [← initialNames_declarations] at hs
    rw [← stateNames_declarations]
    exact hc.initial_declared s hs

/-- The declarations of a well-formed description agree with each other. -/
private theorem WellFormed.consistent (h : d.WellFormed) (hd : d.SingleTargets) :
    Declaration.Consistent d.declarations := by
  constructor
  case states_nodup => exact stateNames_declarations d ▸ h.states_nodup
  case events_nodup => exact eventNames_declarations d ▸ h.events_nodup
  case initial_nodup => exact initialNames_declarations d ▸ h.initial_nodup
  case initial_declared =>
    rw [initialNames_declarations, stateNames_declarations]
    exact h.initial_declared
  case links_nodup =>
    intro s
    rw [linksFrom_declarations, List.map_map]
    exact h.edges_nodup s
  case source_declared =>
    intro s hs
    obtain ⟨link, hlink⟩ := List.exists_mem_of_ne_nil _ hs
    obtain ⟨e, he, rfl, -⟩ := mem_linksFrom_iff.1 hlink
    rw [stateNames_declarations]
    exact source_mem_stateNames he
  case target_declared =>
    intro s link hlink
    obtain ⟨e, he, -, rfl⟩ := mem_linksFrom_iff.1 hlink
    rw [stateNames_declarations]
    exact h.target_declared e he
  case event_declared =>
    intro s link hlink name hname
    obtain ⟨e, he, -, rfl⟩ := mem_linksFrom_iff.1 hlink
    rw [eventNames_declarations]
    exact h.event_declared e he name hname
  case events_of_direct =>
    intro s link hlink hnone
    obtain ⟨e, he, -, rfl⟩ := mem_linksFrom_iff.1 hlink
    rw [eventNames_declarations]
    cases hevents : d.eventNames with
    | nil => rfl
    | cons name names => exact absurd hnone (h.not_mixed (by simp [hevents]) e he)
  case guards_declared =>
    intro t ht
    obtain ⟨item, hitem, e, he, hsome⟩ := mem_items_of_filterMap_ne_nil
      (by intro kind; cases kind <;> simp [Group.ofKind]) ht
    refine declares_of_mem_hooks hd hitem he ?_
    cases hkind : e.kind <;> simp_all [hookTarget?]
  case callbacks_declared =>
    intro t ht
    obtain ⟨item, hitem, e, he, hsome⟩ := mem_items_of_filterMap_ne_nil
      (by intro kind; cases kind <;> simp [Group.ofKind]) ht
    refine declares_of_mem_hooks hd hitem he ?_
    cases hkind : e.kind <;> simp_all [hookTarget?]
  case options_valid =>
    intro key value hlast
    have hmem := List.mem_of_getLast? hlast
    rw [settings_declarations] at hmem
    obtain ⟨⟨key', value'⟩, hs, rfl⟩ := List.mem_map.1 hmem
    obtain ⟨hset, hkey⟩ := List.mem_filter.1 hs
    obtain rfl : key' = key := by simpa using hkey
    exact h.settings_valid _ hset

/-- No name of a well-formed description has two meanings. -/
private theorem WellFormed.unambiguous (h : d.WellFormed) (hd : d.SingleTargets) :
    Declaration.Unambiguous d.declarations where
  free := by
    simp only [mem_namesOf_declarations hd]
    rw [forall_namesOf_iff]
    intro name hname
    rw [List.append_assoc] at hname
    rcases List.mem_append.1 hname with hname | hname
    · exact h.names_free name hname
    · exact h.hooks_free name hname
  kind_eq := by
    intro kind other name hkind hother
    rw [mem_namesOf_declarations hd] at hkind hother
    have hstate := h.state_ne_event name
    have hhook := h.hook_ne_name name
    have hguard := h.guard_ne_callback name
    cases kind <;> cases other <;> simp_all [namesOf]

/-- A description makes a machine if and only if it is well-formed. -/
theorem build_declarations_iff (inputPath : String) (d : Description) (hd : d.SingleTargets) :
    (∃ ns, Model.build inputPath d.declarations = .ok ns) ↔ d.WellFormed := by
  rw [Model.build_eq_ok_iff (staged_declarations d), check_declarations_iff hd]
  constructor
  · rintro ⟨ha, hcheck⟩
    exact wellFormed_of_acceptable hd ha hcheck
  · intro h
    refine ⟨?_, h.two_states, h.initial_exists, forall_namesOf_iff.2 h.not_generated⟩
    exact
      { consistent := h.consistent hd
        unambiguous := h.unambiguous hd
        config_valid := fun e he key value hkind ↦
          h.settings_valid (key, value) (mem_settings_iff.2 ⟨e, he, hkind⟩)
        edges_without_callbacks := callbacksOn_transition_declarations }

/-- A turnstile that is written back to front: initial states and edges come before the states and
the event that they name, and a callback is used twice. -/
def turnstile : Description :=
  let ident (name : String) : Ident := ⟨name, .none⟩
  { items := [
      .initial ⟨[ident "locked"], .none⟩,
      .option ⟨ident "init-func", "turnstile_init", .none⟩,
      .state ⟨ident "locked", false,
        [.onEvent (ident "coin") ⟨[ident "unlocked"], [ident "has_credit"], .none⟩,
          .onEnter [ident "ring"]], .none⟩,
      .state ⟨ident "unlocked", true, [.exitPrecondition [ident "has_credit"]], .none⟩,
      .event ⟨ident "coin", [], [ident "ring"], .none⟩]
    span := .none }

theorem build_declarations_iff_turnstile :
    turnstile.SingleTargets ∧
      (∃ ns, Model.build "turnstile.fsm" turnstile.declarations = .ok ns) ∧
      turnstile.WellFormed := by
  have hsingle : turnstile.SingleTargets := by
    intro s hs event edge hedge
    simp only [turnstile, List.mem_cons, reduceCtorEq, Item.state.injEq, List.not_mem_nil,
      false_or, or_false] at hs
    rcases hs with rfl | rfl
    · simp only [List.mem_cons, StateEntry.onEvent.injEq, reduceCtorEq, List.not_mem_nil,
        or_false] at hedge
      exact ⟨_, by rw [hedge.2]⟩
    · simp at hedge
  have hok : (Model.build "turnstile.fsm" turnstile.declarations).isOk := by decide +kernel
  have hbuild : ∃ ns, Model.build "turnstile.fsm" turnstile.declarations = .ok ns := by
    cases h : Model.build "turnstile.fsm" turnstile.declarations with
    | ok ns => exact ⟨ns, rfl⟩
    | error e =>
      rw [h] at hok
      cases hok
  exact ⟨hsingle, hbuild, (build_declarations_iff "turnstile.fsm" turnstile hsingle).1 hbuild⟩

end Description

end StateGen
