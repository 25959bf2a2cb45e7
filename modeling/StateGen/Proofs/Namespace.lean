import StateGen.Generation
import StateGen.Proofs.Analysis
import StateGen.Proofs.Config
import StateGen.Proofs.Description.Names
import StateGen.Proofs.Emitter.Namespace

/-!
# The names in a namespace

Generated code is made of the names in a namespace and of names that its options determine. Every
name that the namespace of a description lists is a C identifier, means one thing, and is none of
those that the language of descriptions or the generated code needs for itself.
-/

namespace StateGen

open Declaration
open Model (NameKind Publishes)
open Settings (textAt namesAt)

/-! ## Reading names off a namespace -/

namespace Namespace

variable (ns : Namespace)

/-- The values of a table; none if there is no such table. -/
def tableValues (root : Value) (key : String) : List Value :=
  match root.get? key with
  | some (.map table) => table.values
  | _ => []

/-- The hooks in a table. -/
def hooksIn (table : String) : List String :=
  (tableValues ns.root table).flatMap fun hooks ↦ ((Machine.names hooks).toOption).getD []

/-- The guards of all edges. -/
def edgeGuards : List String :=
  (tableValues ns.root "transitions").flatMap fun
    | .map edges => edges.values.flatMap fun edge ↦ namesAt edge "preconds"
    | _ => []

/-- The names of a kind, wherever a namespace lists them. -/
def names : NameKind → List String
  | .state => ns.stateNames
  | .event => ns.eventNames
  | .precondition =>
    namesAt ns.root "precondition_names"
      ++ ["transition_entry_preconds", "transition_exit_preconds", "event_preconds"].flatMap
          ns.hooksIn
      ++ ns.edgeGuards
  | .callback =>
    namesAt ns.root "callback_names"
      ++ ["transition_entry_callbacks", "transition_exit_callbacks", "event_callbacks"].flatMap
          ns.hooksIn

/-- The functions, macros and tables of the generated code, named by the options of the
namespace. -/
def generatedNames : List String := Model.generatedNames (textAt ns.root)

end Namespace

/-! ## The names that were declared -/

namespace Namespace

variable {ns : Namespace} {inputPath : String} {ds : List Declaration} {kind : NameKind}
  {name : String}

private theorem namesOf_eq {table : OrderedMap Value} {key : String}
    (h : ns.root.get? key = some (.map table)) : ns.namesOf key = table.keys := by
  obtain ⟨root⟩ := ns
  cases root with
  | map fields =>
    have hfields : fields.get? key = some (.map table) := h
    simp [namesOf, Value.get, Value.asMap, bind, Except.bind, hfields, pure, Except.pure]
  | str | int | seq => cases h

private theorem namesOf_eq_nil {key : String} (h : ns.root.get? key = none) :
    ns.namesOf key = [] := by
  obtain ⟨root⟩ := ns
  cases root with
  | map fields =>
    have hfields : fields.get? key = none := h
    simp only [namesOf, Value.get, Value.asMap, bind, Except.bind, hfields]
    rfl
  | str | int | seq => rfl

/-- The states are listed in the order of their declarations. -/
theorem stateNames_of_publishes (hp : Publishes ns.root inputPath ds) :
    ns.stateNames = Declaration.stateNames ds := by
  rw [stateNames, namesOf_eq hp.states, OrderedMap.keys_mapValues, OrderedMap.keys_numbered]

/-- The events are listed in the order of their declarations. -/
theorem eventNames_of_publishes (hp : Publishes ns.root inputPath ds) :
    ns.eventNames = Declaration.eventNames ds := by
  have hevents := hp.events
  by_cases hnil : Declaration.eventNames ds = []
  · rw [if_pos hnil] at hevents
    rw [eventNames, namesOf_eq_nil hevents, hnil]
  · rw [if_neg hnil] at hevents
    rw [eventNames, namesOf_eq hevents, OrderedMap.keys_mapValues, OrderedMap.keys_numbered]

/-- A table of hooks lists those of every name. -/
theorem hooksIn_eq {hooks : String → List String} {names : List String} {key : String}
    (h : ns.root.get? key = some (Model.hookTable (.table hooks names))) :
    ns.hooksIn key = names.flatMap hooks := by
  rw [Model.hookTable, OrderedMap.table, OrderedMap.mapValues_tabulate] at h
  rw [hooksIn, tableValues, h]
  simp [OrderedMap.tabulate, OrderedMap.values, List.flatMap_map, Machine.names_ofStrings,
    Except.toOption]

/-- The guards of the edges are those of every declared edge. -/
theorem edgeGuards_eq (hp : Publishes ns.root inputPath ds) :
    ns.edgeGuards = (Declaration.stateNames ds).flatMap fun s ↦
      (linksFrom ds s).flatMap fun e ↦ guardsOn ds (.transition s e.key) := by
  have htransitions := hp.transitions
  rw [Model.transitionTable, OrderedMap.table, OrderedMap.mapValues_tabulate] at htransitions
  rw [edgeGuards, tableValues, htransitions]
  simp [OrderedMap.tabulate, OrderedMap.values, OrderedMap.mapValues, Model.edgesDeclaredBy,
    List.flatMap_map, Emitter.namesAt_eq (Model.Edge.get?_preconditions _)]

/-- A namespace lists exactly the declared names, each under its kind. -/
theorem mem_names_iff (hp : Publishes ns.root inputPath ds) :
    name ∈ ns.names kind ↔ name ∈ Declaration.namesOf ds kind := by
  cases kind with
  | state => rw [names, stateNames_of_publishes hp, Declaration.namesOf]
  | event => rw [names, eventNames_of_publishes hp, Declaration.namesOf]
  | precondition =>
    have hlisted : name ∈ namesAt ns.root "precondition_names" ↔ name ∈ guardUses ds := by
      rw [Emitter.namesAt_eq hp.guardNames, Model.mem_foldl_appendNew]
      simp
    simp only [names, Declaration.namesOf, List.mem_append, hlisted, List.flatMap_cons,
      List.flatMap_nil, hooksIn_eq hp.entryGuards, hooksIn_eq hp.exitGuards,
      hooksIn_eq hp.eventGuards, edgeGuards_eq hp, List.mem_flatMap, List.not_mem_nil]
    constructor
    · rintro ((h | ⟨_, -, h⟩ | ⟨_, -, h⟩ | ⟨_, -, h⟩ | h) | ⟨_, -, _, -, h⟩)
      · exact h
      · exact mem_guardUses_iff.2 ⟨_, h⟩
      · exact mem_guardUses_iff.2 ⟨_, h⟩
      · exact mem_guardUses_iff.2 ⟨_, h⟩
      · exact h.elim
      · exact mem_guardUses_iff.2 ⟨_, h⟩
    · intro h
      exact .inl (.inl h)
  | callback =>
    have hlisted : name ∈ namesAt ns.root "callback_names" ↔ name ∈ callbackUses ds := by
      rw [Emitter.namesAt_eq hp.callbackNames, Model.mem_foldl_appendNew]
      simp
    simp only [names, Declaration.namesOf, List.mem_append, hlisted, List.flatMap_cons,
      List.flatMap_nil, hooksIn_eq hp.entryCallbacks, hooksIn_eq hp.exitCallbacks,
      hooksIn_eq hp.eventCallbacks, List.mem_flatMap, List.not_mem_nil]
    constructor
    · rintro (h | ⟨_, -, h⟩ | ⟨_, -, h⟩ | ⟨_, -, h⟩ | h)
      · exact h
      · exact mem_callbackUses_iff.2 ⟨_, h⟩
      · exact mem_callbackUses_iff.2 ⟨_, h⟩
      · exact mem_callbackUses_iff.2 ⟨_, h⟩
      · exact h.elim
    · exact .inl

/-- The names of the generated code are those that the model checks declared names against. -/
theorem generatedNames_of_publishes (hp : Publishes ns.root inputPath ds) :
    ns.generatedNames = (Model.declaredBy inputPath ds).emittedNames := by
  rw [Model.emittedNames_declaredBy, generatedNames]
  exact Model.generatedNames_congr fun key hkey ↦ Emitter.textAt_eq (hp.option key hkey)

end Namespace

/-! ## The names of a description -/

namespace Generation

variable {file : SourceFile} {o : Options} {ns : Namespace}

/-- Only options are set ahead of a description. -/
theorem Options.onlyOptions_presetDeclarations (o : Options) :
    OnlyOptions o.presetDeclarations := by
  intro d h
  unfold presetDeclarations at h
  split at h
  · cases h
  · simp only [List.mem_cons, List.not_mem_nil, or_false] at h
    rcases h with rfl | rfl <;> exact ⟨_, _, rfl⟩

private theorem staged_preset (d : Description) :
    Staged (o.presetDeclarations ++ d.declarations) := by
  have hzero : ∀ e ∈ o.presetDeclarations, e.kind.stage = 0 := by
    intro e he
    obtain ⟨key, value, hkind⟩ := o.onlyOptions_presetDeclarations e he
    rw [hkind]
    rfl
  refine List.pairwise_append.2 ⟨?_, d.staged_declarations, fun a ha b _ ↦ ?_⟩
  · apply List.pairwise_of_forall_mem_list
    intro a ha b _
    have := hzero a ha
    omega
  · have := hzero a ha
    omega

/-- What is preset names nothing. -/
private theorem mem_declarations_of_named {d : Description} {e : Declaration}
    {named : NameKind × String} (h : e ∈ o.presetDeclarations ++ d.declarations)
    (hnamed : e.kind.named? = some named) : e ∈ d.declarations := by
  refine (List.mem_append.1 h).resolve_left fun hpreset ↦ ?_
  obtain ⟨key, value, hkind⟩ := o.onlyOptions_presetDeclarations e hpreset
  rw [hkind] at hnamed
  cases hnamed

/-- A declared name is an identifier that the text has as a word, and so no keyword. -/
private theorem spelled_of_named (hreadable : file.IsReadable) {kind : NameKind} {name : String}
    (h : name ∈ Declaration.namesOf (o.presetDeclarations ++ file.description.declarations) kind) :
    Text.isIdentifier name ∧ ∀ k : Keyword, k.text ≠ name := by
  obtain ⟨e, he, hnamed⟩ := mem_namesOf_iff.1 h
  obtain ⟨items, finish, -, hdescription, hlexed⟩ := hreadable.exists_derivation
  have hmem := mem_declarations_of_named he hnamed
  rw [hdescription] at hmem
  obtain ⟨i, rfl, -, hidentifier, hword⟩ :=
    Description.Derivation.spells hmem (Declaration.Kind.quoted?_of_named? hnamed)
  exact ⟨hidentifier, (hlexed _ hword).2 i.name rfl⟩

/-- States and events are those of the description. -/
private theorem names_preset (d : Description) :
    Declaration.stateNames (o.presetDeclarations ++ d.declarations) = d.stateNames ∧
      Declaration.eventNames (o.presetDeclarations ++ d.declarations) = d.eventNames := by
  have hpreset := o.onlyOptions_presetDeclarations
  rw [← d.stateNames_declarations, ← d.eventNames_declarations]
  exact ⟨hpreset.filterMap_append fun _ _ ↦ rfl, hpreset.filterMap_append fun _ _ ↦ rfl⟩

/-- Whatever a description says and whatever is preset, the names in its namespace are safe to
generate code from: each is an identifier, and no keyword, reserved name or name of the generated
code itself; none has two kinds, and no state or event is declared twice. -/
theorem published_names_are_safe (file : SourceFile) (o : Options) (ns : Namespace)
    (h : (analysisFor file o).toExcept = .ok ns) :
    (∀ kind, ∀ name ∈ ns.names kind,
        (∃ first rest, name.toList = first :: rest ∧ (first.isAlpha ∨ first = '_') ∧
          ∀ c ∈ rest, c.isAlphanum ∨ c = '_') ∧
        (∀ k : Keyword, k.text ≠ name) ∧ name ∉ Config.reservedNames ∧
        name ∉ ns.generatedNames) ∧
      (∀ kind other name, name ∈ ns.names kind → name ∈ ns.names other → kind = other) ∧
      ns.stateNames = file.description.stateNames ∧ file.description.stateNames.Nodup ∧
      ns.eventNames = file.description.eventNames ∧ file.description.eventNames.Nodup := by
  obtain ⟨hreadable, hbuild⟩ := result_analyze_eq_some_iff.1 (Analysis.toExcept_eq_ok_iff.1 h)
  obtain ⟨hacceptable, hcheck⟩ := (Model.build_eq_ok_iff (staged_preset _)).1 ⟨ns, hbuild⟩
  obtain ⟨hconsistent, -, hns⟩ := Model.eq_publish_of_build hbuild
  have hp : Publishes ns.root file.name
      (o.presetDeclarations ++ file.description.declarations) := by
    rw [hns]
    exact Model.publishes_declaredBy
  have hgenerated := (Model.check_declaredBy_eq_ok_iff.1 hcheck).2.2
  obtain ⟨hstates, hevents⟩ := names_preset (o := o) file.description
  refine ⟨fun kind name hname ↦ ?_, fun kind other name hkind hother ↦ ?_, ?_, ?_, ?_, ?_⟩
  · have hdeclared := (Namespace.mem_names_iff hp).1 hname
    obtain ⟨hidentifier, hkeyword⟩ := spelled_of_named hreadable hdeclared
    refine ⟨Text.isIdentifier_iff.1 hidentifier, hkeyword, ?_, ?_⟩
    · simpa [Config.isReserved] using hacceptable.unambiguous.free kind name hdeclared
    · rw [Namespace.generatedNames_of_publishes hp]
      exact hgenerated kind name hdeclared
  · exact hacceptable.unambiguous.kind_eq kind other name
      ((Namespace.mem_names_iff hp).1 hkind) ((Namespace.mem_names_iff hp).1 hother)
  · rw [Namespace.stateNames_of_publishes hp, hstates]
  · rw [← hstates]
    exact hconsistent.states_nodup
  · rw [Namespace.eventNames_of_publishes hp, hevents]
  · rw [← hevents]
    exact hconsistent.events_nodup

private def columns (first last : Nat) : Span := ⟨1, first, 1, last⟩

/-- A kettle that heats up if it is filled, and hums when it is hot. -/
private def kettle : SourceFile where
  name := "kettle.fsm"
  text := "event press { precondition filled; } state cold initial { on press -> hot; } "
    ++ "state hot { on-enter hum; }"

private def kettleItems : Description.Derivation :=
  [.event (columns 1 5) ⟨⟨"press", columns 7 11⟩, by decide⟩
      (.block (columns 13 13)
        [.precondition (columns 15 26)
          ⟨⟨⟨⟨"filled", columns 28 33⟩, by decide⟩, []⟩, columns 34 34⟩]
        (columns 36 36)),
    .state (columns 38 42) ⟨⟨"cold", columns 44 47⟩, by decide⟩ (some (columns 49 55))
      (.block (columns 57 57)
        [.onEvent (columns 59 60) ⟨⟨"press", columns 62 66⟩, by decide⟩ (columns 68 69)
          ⟨⟨"hot", columns 71 73⟩, by decide⟩ (.semicolon (columns 74 74))]
        (columns 76 76)),
    .state (columns 78 82) ⟨⟨"hot", columns 84 86⟩, by decide⟩ none
      (.block (columns 88 88)
        [.hooks .onEnter (columns 90 97)
          ⟨⟨⟨⟨"hum", columns 99 101⟩, by decide⟩, []⟩, columns 102 102⟩]
        (columns 104 104))]

private theorem lex_kettle :
    Token.lex kettle = (kettleItems.tokens ++ [⟨.eof, columns 105 105⟩], .empty) := by
  decide +kernel

/-- The kettle has a namespace, in which the guard and the callback stand twice: in the list of all
of them, and in the table of what they are attached to. -/
theorem published_names_are_safe_kettle :
    ∃ ns, (analysisFor kettle { output := some "kettle.c" }).toExcept = .ok ns ∧
      ns.names .precondition = ["filled", "filled"] ∧ ns.names .callback = ["hum", "hum"] ∧
      (∀ k : Keyword, k.text ≠ "filled") ∧ "hum" ∉ ns.generatedNames ∧
      ns.stateNames = kettle.description.stateNames := by
  obtain ⟨hreadable, hdescription⟩ :=
    SourceFile.isReadable_of_derivation lex_kettle (by decide) rfl
  obtain ⟨ns, hns, hguards, hcallbacks⟩ :
      ∃ ns, Model.build kettle.name
          (Options.presetDeclarations { output := some "kettle.c" }
            ++ kettle.description.declarations) = .ok ns ∧
        ns.names .precondition = ["filled", "filled"] ∧ ns.names .callback = ["hum", "hum"] := by
    rw [hdescription]
    exact ⟨_, rfl, by decide +kernel, by decide +kernel⟩
  have hok : (analysisFor kettle { output := some "kettle.c" }).toExcept = .ok ns :=
    Analysis.toExcept_eq_ok_iff.2 (result_analyze_eq_some_iff.2 ⟨hreadable, hns⟩)
  obtain ⟨hsafe, -, hstates, -⟩ := published_names_are_safe kettle _ ns hok
  refine ⟨ns, hok, hguards, hcallbacks, ?_, ?_, hstates⟩
  · exact (hsafe .precondition "filled" (by rw [hguards]; decide)).2.1
  · exact (hsafe .callback "hum" (by rw [hcallbacks]; decide)).2.2.2

end Generation

end StateGen
