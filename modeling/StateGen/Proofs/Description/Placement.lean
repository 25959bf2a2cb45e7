import Mathlib.Data.List.Nodup
import Mathlib.Data.List.Perm.Basic
import StateGen.Proofs.Description.Declared
import StateGen.Proofs.Model.Publish

/-!
# Where items are written

States with their initial states, events and options are three strands of a description. How the
strands are interleaved decides in which order hooks are attached and nothing else: the machine is
accepted or not whatever the interleaving, and its namespace changes only in the order in which
the names of guards and callbacks are listed.
-/

namespace StateGen

namespace Declaration

/-- The declarations are the same but for their order, and every list that the model keeps in
order is the same. -/
structure SameReadings (ds ds' : List Declaration) : Prop where
  perm : ds.Perm ds'
  states : stateNames ds = stateNames ds'
  events : eventNames ds = eventNames ds'
  initials : initialNames ds = initialNames ds'
  links : linksFrom ds = linksFrom ds'
  guards : guardsOn ds = guardsOn ds'
  callbacks : callbacksOn ds = callbacksOn ds'
  options : lastOption ds = lastOption ds'

namespace SameReadings

variable {ds ds' : List Declaration}

theorem symm (h : SameReadings ds ds') : SameReadings ds' ds :=
  ⟨h.perm.symm, h.states.symm, h.events.symm, h.initials.symm, h.links.symm, h.guards.symm,
    h.callbacks.symm, h.options.symm⟩

theorem hasLink_eq (h : SameReadings ds ds') : hasLink ds = hasLink ds' := by
  rw [hasLink, hasLink, h.perm.any_eq]

theorem declares (h : SameReadings ds ds') {t : HookTarget} (ht : Declares ds t) :
    Declares ds' t := by
  cases t with
  | entry state | exit state => simpa only [Declares, h.states] using ht
  | event event => simpa only [Declares, h.events] using ht
  | transition source via => simpa only [Declares, h.links] using ht

theorem mem_namesOf_iff (h : SameReadings ds ds') {kind : Model.NameKind} {name : String} :
    name ∈ namesOf ds' kind ↔ name ∈ namesOf ds kind :=
  ⟨mem_namesOf_of_subset h.perm.symm.subset, mem_namesOf_of_subset h.perm.subset⟩

theorem consistent (h : SameReadings ds ds') (hc : Consistent ds) : Consistent ds' where
  states_nodup := h.states ▸ hc.states_nodup
  events_nodup := h.events ▸ hc.events_nodup
  initial_nodup := h.initials ▸ hc.initial_nodup
  initial_declared := by
    rw [← h.initials, ← h.states]
    exact hc.initial_declared
  links_nodup := h.links ▸ hc.links_nodup
  source_declared := by
    rw [← h.links, ← h.states]
    exact hc.source_declared
  target_declared := by
    rw [← h.links, ← h.states]
    exact hc.target_declared
  event_declared := by
    rw [← h.links, ← h.events]
    exact hc.event_declared
  events_of_direct := by
    rw [← h.links, ← h.events]
    exact hc.events_of_direct
  guards_declared := by
    rw [← h.guards]
    exact fun t ht ↦ h.declares (hc.guards_declared t ht)
  callbacks_declared := by
    rw [← h.callbacks]
    exact fun t ht ↦ h.declares (hc.callbacks_declared t ht)
  options_valid := h.options ▸ hc.options_valid

theorem acceptable (h : SameReadings ds ds') (ha : Acceptable ds) : Acceptable ds' where
  consistent := h.consistent ha.consistent
  unambiguous :=
    { free := fun kind name hname ↦ ha.unambiguous.free kind name (h.mem_namesOf_iff.1 hname)
      kind_eq := fun kind other name hkind hother ↦
        ha.unambiguous.kind_eq kind other name (h.mem_namesOf_iff.1 hkind)
          (h.mem_namesOf_iff.1 hother) }
  config_valid := fun d hd ↦ ha.config_valid d (h.perm.mem_iff.2 hd)
  edges_without_callbacks := h.callbacks ▸ ha.edges_without_callbacks

end SameReadings

end Declaration

open Declaration

/-! ## The model and its namespace -/

namespace Namespace

/-- The keys under which the hooks are listed in the order of their first use. -/
def hookListKeys : List String := ["precondition_names", "callback_names"]

/-- Two entries have the same key and the same value, where lists of hooks count as the same if
one is a permutation of the other. -/
def SameEntry (e e' : String × Value) : Prop :=
  e.1 = e'.1 ∧
    (e.2 = e'.2 ∨
      e.1 ∈ hookListKeys ∧
        ∃ names names' : List String,
          e.2 = .ofStrings names ∧ e'.2 = .ofStrings names' ∧ names.Perm names')

/-- Two namespaces have the same entries in the same order, up to the order of the listed hooks. -/
def SameButHookOrder (ns ns' : Namespace) : Prop :=
  ∃ fields fields' : OrderedMap Value,
    ns.root = .map fields ∧ ns'.root = .map fields' ∧
      List.Forall₂ SameEntry fields.entries fields'.entries

end Namespace

namespace Model

open Namespace (SameEntry SameButHookOrder)

private theorem nodup_foldl_appendNew (names : List String) {seen : List String}
    (h : seen.Nodup) : (names.foldl appendNew seen).Nodup := by
  induction names generalizing seen with
  | nil => exact h
  | cons name names ih =>
    rw [List.foldl_cons]
    apply ih
    rw [appendNew]
    split
    · exact h
    · next hnew =>
      rw [List.contains_iff_mem] at hnew
      exact List.Nodup.append h (List.nodup_singleton name) (by simpa using hnew)

/-- The order of uses decides the order of the list and nothing else. -/
private theorem perm_foldl_appendNew {names names' : List String} (h : names.Perm names') :
    (names.foldl appendNew []).Perm (names'.foldl appendNew []) := by
  rw [List.perm_ext_iff_of_nodup (nodup_foldl_appendNew _ List.nodup_nil)
    (nodup_foldl_appendNew _ List.nodup_nil)]
  intro name
  rw [mem_foldl_appendNew, mem_foldl_appendNew, h.mem_iff]

variable {ds ds' : List Declaration}

/-- Of the model, only the lists of hooks can tell the difference. -/
theorem declaredBy_congr (inputPath : String) (h : SameReadings ds ds') :
    declaredBy inputPath ds' =
      { declaredBy inputPath ds with
        preconditionNames := (guardUses ds').foldl appendNew []
        callbackNames := (callbackUses ds').foldl appendNew [] } := by
  have hedges : edgesDeclaredBy ds' = edgesDeclaredBy ds := by
    funext source
    simp only [edgesDeclaredBy, h.states, h.links, h.guards]
  have hstyle : styleDeclaredBy ds' = styleDeclaredBy ds := by
    simp only [styleDeclaredBy, h.events, h.hasLink_eq]
  simp only [declaredBy, hedges, hstyle, h.states, h.events, h.initials, h.guards, h.callbacks,
    h.options]

theorem check_congr (inputPath : String) (h : SameReadings ds ds')
    (hcheck : (declaredBy inputPath ds).check = .ok ()) :
    (declaredBy inputPath ds').check = .ok () := by
  have hemitted :
      (declaredBy inputPath ds').emittedNames = (declaredBy inputPath ds).emittedNames := by
    rw [declaredBy_congr inputPath h]
    rfl
  rw [check_declaredBy_eq_ok_iff] at hcheck ⊢
  rw [← h.states, ← h.initials, hemitted]
  refine ⟨hcheck.1, hcheck.2.1, fun kind name hname ↦ ?_⟩
  exact hcheck.2.2 kind name (h.mem_namesOf_iff.1 hname)

private theorem forall₂_sameEntry_self (entries : List (String × Value)) :
    List.Forall₂ SameEntry entries entries :=
  List.forall₂_same.2 fun _ _ ↦ ⟨rfl, .inl rfl⟩

theorem publish_congr (inputPath : String) (h : SameReadings ds ds') :
    SameButHookOrder (declaredBy inputPath ds).publish (declaredBy inputPath ds').publish := by
  have hguards : (guardUses ds).Perm (guardUses ds') := h.perm.filterMap _
  have hcallbacks : (callbackUses ds).Perm (callbackUses ds') := h.perm.filterMap _
  refine ⟨_, _, rfl, rfl, ?_⟩
  rw [declaredBy_congr inputPath h]
  -- Configuration and tables are the same; of the derived entries, all but the last two are.
  refine List.rel_append (forall₂_sameEntry_self _) ?_
  refine List.rel_append (forall₂_sameEntry_self _) ?_
  refine .cons ⟨rfl, .inl rfl⟩ <| .cons ⟨rfl, .inl rfl⟩ <| .cons ⟨rfl, .inl rfl⟩ <|
    .cons ⟨rfl, .inl rfl⟩ <| .cons ⟨rfl, .inl rfl⟩ <| .cons ⟨rfl, .inr ⟨.head _, ?_⟩⟩ <|
    .cons ⟨rfl, .inr ⟨.tail _ (.head _), ?_⟩⟩ .nil
  · exact ⟨_, _, rfl, rfl, perm_foldl_appendNew hguards⟩
  · exact ⟨_, _, rfl, rfl, perm_foldl_appendNew hcallbacks⟩

end Model

/-! ## Strands of a description -/

namespace Description

/-- The parts of a description that do not depend on how they are interleaved. -/
inductive Strand where
  | states
  | events
  | options
deriving DecidableEq

/-- The strand of an item; lists of initial states belong to the states. -/
def Item.strand : Item → Strand
  | .state _ | .initial _ => .states
  | .event _ => .events
  | .option _ => .options

/-- Two descriptions have the same strands. -/
def SameStrands (d d' : Description) : Prop :=
  ∀ s, d.items.filter (·.strand = s) = d'.items.filter (·.strand = s)

/-- The strand that says what happens at a target. -/
def hookStrand : HookTarget → Strand
  | .event _ => .events
  | .entry _ | .exit _ | .transition _ _ => .states

private theorem flatMap_filter_strand {β : Type} {f : Item → List β} {s : Strand}
    (hf : ∀ item, item.strand ≠ s → f item = []) (items : List Item) :
    (items.filter (·.strand = s)).flatMap f = items.flatMap f := by
  induction items with
  | nil => rfl
  | cons item items ih =>
    by_cases hitem : item.strand = s
    · rw [List.filter_cons_of_pos (by simpa using hitem), List.flatMap_cons, List.flatMap_cons, ih]
    · rw [List.filter_cons_of_neg (by simpa using hitem), ih, List.flatMap_cons, hf item hitem,
        List.nil_append]

private theorem StateEntry.hookStrand_of_mem {state : String} {entry : StateEntry}
    {e : Declaration} (he : e ∈ entry.hooks state) {t : HookTarget}
    (ht : hookTarget? e.kind = some t) : hookStrand t = .states := by
  cases entry <;>
    simp only [hooks, preconditions, callbacks, List.mem_flatMap, List.mem_map] at he
  case nextState =>
    obtain ⟨_, -, _, -, rfl⟩ := he
    cases ht
    rfl
  all_goals
    obtain ⟨_, -, rfl⟩ := he
    cases ht
    rfl

/-- Hooks are written in the strand of what they are attached to. -/
private theorem Item.hookStrand_of_mem {item : Item} {e : Declaration} (he : e ∈ item.hooks)
    {t : HookTarget} (ht : hookTarget? e.kind = some t) : hookStrand t = item.strand := by
  cases item with
  | option o | initial i => cases he
  | event ev =>
    simp only [hooks, preconditions, callbacks, List.mem_append, List.mem_map] at he
    obtain ⟨_, -, rfl⟩ | ⟨_, -, rfl⟩ := he <;>
    · cases ht
      rfl
  | state s =>
    obtain ⟨entry, -, he⟩ := List.mem_flatMap.1 he
    exact StateEntry.hookStrand_of_mem he ht

namespace SameStrands

variable {d d' : Description}

theorem flatMap_eq {β : Type} (h : SameStrands d d') (s : Strand) {f : Item → List β}
    (hf : ∀ item, item.strand ≠ s → f item = []) : d.items.flatMap f = d'.items.flatMap f := by
  rw [← flatMap_filter_strand hf d.items, h s, flatMap_filter_strand hf d'.items]

theorem perm_items (h : SameStrands d d') : d.items.Perm d'.items := by
  rw [List.perm_iff_count]
  intro item
  have hcount (items : List Item) :
      (items.filter (·.strand = item.strand)).count item = items.count item :=
    List.count_filter (by simp)
  rw [← hcount d.items, h, hcount]

theorem perm_declarations (h : SameStrands d d') : d.declarations.Perm d'.declarations := by
  have hgroup (f : Item → List Declaration) :
      (d.items.flatMap f).Perm (d'.items.flatMap f) := h.perm_items.flatMap fun _ _ ↦ .refl _
  unfold declarations
  exact ((((hgroup _).append (hgroup _)).append (hgroup _)).append (hgroup _)).append (hgroup _)
    |>.append (hgroup _)

/-- What only one strand says does not depend on the others. -/
theorem filterMap_eq {α : Type} (h : SameStrands d d') (f : Declaration.Kind → Option α)
    (g : Group) (s : Strand) (hf : ∀ kind, (f kind).isSome → Group.ofKind kind = g)
    (hs : ∀ item, item.strand ≠ s → ∀ e ∈ g.ofItem item, f e.kind = none) :
    (d.declarations.filterMap fun e ↦ f e.kind) = d'.declarations.filterMap fun e ↦ f e.kind := by
  rw [filterMap_declarations d f g hf, filterMap_declarations d' f g hf]
  exact h.flatMap_eq s fun item hitem ↦ List.filterMap_eq_nil_iff.2 (hs item hitem)

/-- The hooks of one target stand in one strand. -/
private theorem hooks_eq (h : SameStrands d d') (t : HookTarget)
    {f : Declaration.Kind → Option String}
    (hf : ∀ kind, (f kind).isSome → hookTarget? kind = some t) :
    (d.declarations.filterMap fun e ↦ f e.kind) =
      d'.declarations.filterMap fun e ↦ f e.kind := by
  refine h.filterMap_eq f .hooks (hookStrand t) (fun kind hkind ↦ ?_) fun item hitem e he ↦ ?_
  · have ht := hf kind hkind
    cases kind <;> simp_all [hookTarget?, Group.ofKind]
  · by_contra hsome
    have ht := hf e.kind (Option.isSome_iff_ne_none.2 hsome)
    exact hitem (Item.hookStrand_of_mem he ht).symm

/-- The declarations differ in the order of hooks on different targets only. -/
theorem sameReadings (h : SameStrands d d') :
    SameReadings d.declarations d'.declarations where
  perm := h.perm_declarations
  states := h.filterMap_eq _ .states .states
    (by intro kind; cases kind <;> simp [Group.ofKind])
    (by rintro (_ | _ | _ | _) <;> simp [Item.strand, Group.ofItem, Item.states])
  events := h.filterMap_eq _ .events .events
    (by intro kind; cases kind <;> simp [Group.ofKind])
    (by rintro (_ | _ | _ | _) <;> simp [Item.strand, Group.ofItem, Item.events])
  initials := h.filterMap_eq _ .initials .states
    (by intro kind; cases kind <;> simp [Group.ofKind])
    (by rintro (_ | _ | _ | _) <;> simp [Item.strand, Group.ofItem, Item.initials])
  links := funext fun source ↦ h.filterMap_eq _ .transitions .states
    (by intro kind; cases kind <;> simp [Group.ofKind])
    (by rintro (_ | _ | _ | _) <;> simp [Item.strand, Group.ofItem, Item.transitions])
  guards := funext fun t ↦ h.hooks_eq t
    (by intro kind; cases kind <;> simp [hookTarget?])
  callbacks := funext fun t ↦ h.hooks_eq t
    (by intro kind; cases kind <;> simp [hookTarget?])
  options := funext fun key ↦ congrArg List.getLast? <| h.filterMap_eq _ .config .options
    (by intro kind; cases kind <;> simp [Group.ofKind])
    (by rintro (_ | _ | _ | _) <;> simp [Item.strand, Group.ofItem, Item.config])

end SameStrands

/-- However states, events and options are interleaved, the same descriptions make a machine, and
their namespaces have the same entries in the same order, up to the order in which the names of
guards and callbacks are listed. -/
theorem build_of_sameStrands (inputPath : String) (d d' : Description) (h : SameStrands d d') :
    ((∃ ns, Model.build inputPath d.declarations = .ok ns) ↔
        ∃ ns', Model.build inputPath d'.declarations = .ok ns') ∧
      ∀ ns ns', Model.build inputPath d.declarations = .ok ns →
        Model.build inputPath d'.declarations = .ok ns' → ns.SameButHookOrder ns' := by
  have hsame := h.sameReadings
  constructor
  · rw [Model.build_eq_ok_iff (staged_declarations d),
      Model.build_eq_ok_iff (staged_declarations d')]
    constructor
    · rintro ⟨ha, hcheck⟩
      exact ⟨hsame.acceptable ha, Model.check_congr inputPath hsame hcheck⟩
    · rintro ⟨ha, hcheck⟩
      exact ⟨hsame.symm.acceptable ha, Model.check_congr inputPath hsame.symm hcheck⟩
  · intro ns ns' hns hns'
    obtain ⟨-, -, rfl⟩ := Model.eq_publish_of_build hns
    obtain ⟨-, -, rfl⟩ := Model.eq_publish_of_build hns'
    exact Model.publish_congr inputPath hsame

/-- A printer whose event is declared behind the states; it has a guard of its own, as one of the
states has. -/
private def printer : Description :=
  let ident (name : String) : Ident := ⟨name, .none⟩
  { items := [
      .state ⟨ident "idle", true,
        [.entryPrecondition [ident "has_paper"],
          .onEvent (ident "submit") ⟨[ident "busy"], [], .none⟩], .none⟩,
      .state ⟨ident "busy", false, [], .none⟩,
      .event ⟨ident "submit", [ident "is_paid"], [], .none⟩,
      .option ⟨ident "fsm-struct", "printer", .none⟩]
    span := .none }

/-- The printer with its option and its event in front. -/
private def reorderedPrinter : Description :=
  { printer with items := printer.items.rotate 2 }

/-- Both ways to write the printer make the same machine, with its guards listed the other way
round. -/
theorem build_of_sameStrands_printer :
    SameStrands printer reorderedPrinter ∧
      ∃ ns ns', Model.build "printer.fsm" printer.declarations = .ok ns ∧
        Model.build "printer.fsm" reorderedPrinter.declarations = .ok ns' ∧
        ns.SameButHookOrder ns' ∧
        ns.root.get? "precondition_names" = some (.ofStrings ["has_paper", "is_paid"]) ∧
        ns'.root.get? "precondition_names" = some (.ofStrings ["is_paid", "has_paper"]) := by
  have hsame : SameStrands printer reorderedPrinter := by
    intro s
    cases s <;> rfl
  have hguards {d : Description} {ns : Namespace}
      (h : Model.build "printer.fsm" d.declarations = .ok ns) :
      ns.root.get? "precondition_names" =
        some (.ofStrings ((Declaration.guardUses d.declarations).foldl Model.appendNew [])) := by
    obtain ⟨-, -, rfl⟩ := Model.eq_publish_of_build h
    exact Model.publishes_declaredBy.guardNames
  have hok : (Model.build "printer.fsm" printer.declarations).isOk := by decide +kernel
  obtain ⟨ns, hns⟩ : ∃ ns, Model.build "printer.fsm" printer.declarations = .ok ns := by
    cases h : Model.build "printer.fsm" printer.declarations with
    | ok ns => exact ⟨ns, rfl⟩
    | error e =>
      rw [h] at hok
      cases hok
  obtain ⟨haccepts, hnamespaces⟩ :=
    build_of_sameStrands "printer.fsm" printer reorderedPrinter hsame
  obtain ⟨ns', hns'⟩ := haccepts.1 ⟨ns, hns⟩
  refine ⟨hsame, ns, ns', hns, hns', hnamespaces ns ns' hns hns', ?_, ?_⟩
  · rw [hguards hns]
    rfl
  · rw [hguards hns']
    rfl

end Description

end StateGen
