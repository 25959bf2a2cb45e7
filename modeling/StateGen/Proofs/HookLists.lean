import StateGen.Proofs.Model.Acceptance
import StateGen.Proofs.Namespace

/-!
# The lists of hooks are exact

The names of guards and of callbacks are kept in two lists next to the tables that say where each of
them is attached. The lists and the tables agree: each list has every name of its tables once, in
the order of first use, and no other name, and no name is in both.
-/

namespace StateGen

open Declaration Model

/-! ## First uses -/

/-- The names are those that are used, each once, in the order of their first uses. -/
structure FirstUses (uses names : List String) : Prop where
  mem_iff : ∀ name, name ∈ names ↔ name ∈ uses
  ordered : names.Pairwise fun a b ↦ uses.idxOf a < uses.idxOf b

theorem FirstUses.nodup {uses names : List String} (h : FirstUses uses names) : names.Nodup :=
  h.ordered.imp fun hab heq ↦ (heq ▸ hab).false

/-- One more use leaves the places of the earlier first uses as they are, and a new name comes
behind them. -/
private theorem FirstUses.appendNew {uses names : List String} (h : FirstUses uses names)
    (name : String) : FirstUses (uses ++ [name]) (appendNew names name) := by
  have hplace {a : String} (ha : a ∈ names) : (uses ++ [name]).idxOf a = uses.idxOf a :=
    List.idxOf_append_of_mem ((h.mem_iff a).1 ha)
  have hordered : names.Pairwise fun a b ↦
      (uses ++ [name]).idxOf a < (uses ++ [name]).idxOf b := by
    refine h.ordered.imp_of_mem fun ha hb hab ↦ ?_
    rwa [hplace ha, hplace hb]
  rw [Model.appendNew]
  split
  · next hmem =>
    have hused : name ∈ uses := (h.mem_iff name).1 (List.contains_iff_mem.1 hmem)
    refine ⟨fun n ↦ ?_, hordered⟩
    rw [h.mem_iff, List.mem_append, List.mem_singleton]
    exact ⟨.inl, fun hn ↦ hn.elim id fun heq ↦ heq ▸ hused⟩
  · next hmem =>
    have hfresh : name ∉ uses := mt (h.mem_iff name).2 (mt List.contains_iff_mem.2 hmem)
    refine ⟨fun n ↦ by rw [List.mem_append, List.mem_append, h.mem_iff], ?_⟩
    rw [List.pairwise_append]
    refine ⟨hordered, List.pairwise_singleton .., fun a ha b hb ↦ ?_⟩
    obtain rfl := List.mem_singleton.1 hb
    rw [hplace ha, List.idxOf_append_of_notMem hfresh, List.idxOf_cons_self]
    exact List.idxOf_lt_length_of_mem ((h.mem_iff a).1 ha)

/-- Appending the names that are new collects the first uses. -/
theorem firstUses_foldl_appendNew (uses : List String) :
    FirstUses uses (uses.foldl Model.appendNew []) := by
  induction uses using List.reverseRecOn with
  | nil => exact ⟨fun _ ↦ Iff.rfl, List.Pairwise.nil⟩
  | append_singleton uses name ih =>
    rw [List.foldl_append]
    exact ih.appendNew name

/-! ## Hooks that are used -/

namespace Declaration

variable {ds : List Declaration} {name : String}

/-- A guard that is used is attached to a declared state, event or edge. -/
theorem Consistent.mem_guardUses_iff (hc : Consistent ds) :
    name ∈ guardUses ds ↔
      (∃ s ∈ stateNames ds, name ∈ guardsOn ds (.entry s)) ∨
      (∃ s ∈ stateNames ds, name ∈ guardsOn ds (.exit s)) ∨
      (∃ e ∈ eventNames ds, name ∈ guardsOn ds (.event e)) ∨
      ∃ s ∈ stateNames ds, ∃ e ∈ linksFrom ds s,
        name ∈ guardsOn ds (.transition s e.key) := by
  rw [Declaration.mem_guardUses_iff]
  constructor
  · rintro ⟨target, h⟩
    have hdeclared := hc.guards_declared target (List.ne_nil_of_mem h)
    cases target with
    | entry s => exact .inl ⟨s, hdeclared, h⟩
    | exit s => exact .inr (.inl ⟨s, hdeclared, h⟩)
    | event e => exact .inr (.inr (.inl ⟨e, hdeclared, h⟩))
    | transition s via =>
      obtain ⟨e, he, rfl⟩ := hdeclared
      exact .inr (.inr (.inr ⟨s, hc.source_declared s (List.ne_nil_of_mem he), e, he, h⟩))
  · rintro (⟨s, -, h⟩ | ⟨s, -, h⟩ | ⟨e, -, h⟩ | ⟨s, -, e, -, h⟩)
    all_goals exact ⟨_, h⟩

/-- A callback that is used is attached to a declared state or event, since edges have none. -/
theorem Acceptable.mem_callbackUses_iff (ha : Acceptable ds) :
    name ∈ callbackUses ds ↔
      (∃ s ∈ stateNames ds, name ∈ callbacksOn ds (.entry s)) ∨
      (∃ s ∈ stateNames ds, name ∈ callbacksOn ds (.exit s)) ∨
      ∃ e ∈ eventNames ds, name ∈ callbacksOn ds (.event e) := by
  rw [Declaration.mem_callbackUses_iff]
  constructor
  · rintro ⟨target, h⟩
    have hdeclared := ha.consistent.callbacks_declared target (List.ne_nil_of_mem h)
    cases target with
    | entry s => exact .inl ⟨s, hdeclared, h⟩
    | exit s => exact .inr (.inl ⟨s, hdeclared, h⟩)
    | event e => exact .inr (.inr ⟨e, hdeclared, h⟩)
    | transition s via =>
      rw [ha.edges_without_callbacks] at h
      cases h
  · rintro (⟨s, -, h⟩ | ⟨s, -, h⟩ | ⟨e, -, h⟩)
    all_goals exact ⟨_, h⟩

end Declaration

/-! ## Tables and lists of hooks -/

namespace Namespace

/-- The tables of the guards of states and events. -/
def guardTables : List String :=
  ["transition_entry_preconds", "transition_exit_preconds", "event_preconds"]

/-- The tables of the callbacks of states and events. -/
def callbackTables : List String :=
  ["transition_entry_callbacks", "transition_exit_callbacks", "event_callbacks"]

/-- The lists of hooks in a namespace are exact for its tables, and follow the declarations. -/
structure ListsHooks (ns : Namespace) (ds : List Declaration) (guards callbacks : List String) :
    Prop where
  guardNames : ns.root.get? "precondition_names" = some (.ofStrings guards)
  callbackNames : ns.root.get? "callback_names" = some (.ofStrings callbacks)
  guards_nodup : guards.Nodup
  callbacks_nodup : callbacks.Nodup
  mem_guards_iff : ∀ name, name ∈ guards ↔
    name ∈ guardTables.flatMap ns.hooksIn ∨ name ∈ ns.edgeGuards
  mem_callbacks_iff : ∀ name, name ∈ callbacks ↔ name ∈ callbackTables.flatMap ns.hooksIn
  guards_first : FirstUses (guardUses ds) guards
  callbacks_first : FirstUses (callbackUses ds) callbacks
  disjoint : guards.Disjoint callbacks

variable {ns : Namespace} {inputPath : String} {ds : List Declaration}

/-- The lists that the model keeps are exact for the tables that it keeps next to them. -/
theorem listsHooks_of_publishes (ha : Acceptable ds) (hp : Publishes ns.root inputPath ds) :
    ListsHooks ns ds ((guardUses ds).foldl appendNew [])
      ((callbackUses ds).foldl appendNew []) := by
  have hguards := firstUses_foldl_appendNew (guardUses ds)
  have hcallbacks := firstUses_foldl_appendNew (callbackUses ds)
  constructor
  case guardNames => exact hp.guardNames
  case callbackNames => exact hp.callbackNames
  case guards_nodup => exact hguards.nodup
  case callbacks_nodup => exact hcallbacks.nodup
  case mem_guards_iff =>
    intro name
    rw [hguards.mem_iff, ha.consistent.mem_guardUses_iff, guardTables, edgeGuards_eq hp]
    simp only [List.flatMap_cons, List.flatMap_nil, List.append_nil, hooksIn_eq hp.entryGuards,
      hooksIn_eq hp.exitGuards, hooksIn_eq hp.eventGuards, List.mem_append, List.mem_flatMap,
      or_assoc]
  case mem_callbacks_iff =>
    intro name
    rw [hcallbacks.mem_iff, ha.mem_callbackUses_iff, callbackTables]
    simp only [List.flatMap_cons, List.flatMap_nil, List.append_nil, hooksIn_eq hp.entryCallbacks,
      hooksIn_eq hp.exitCallbacks, hooksIn_eq hp.eventCallbacks, List.mem_append, List.mem_flatMap]
  case guards_first => exact hguards
  case callbacks_first => exact hcallbacks
  case disjoint =>
    intro name hguard hcallback
    cases ha.unambiguous.kind_eq .precondition .callback name ((hguards.mem_iff name).1 hguard)
      ((hcallbacks.mem_iff name).1 hcallback)

end Namespace

end StateGen
