import StateGen.Proofs.Machine.Loading
import StateGen.Proofs.Model.Invariant

/-!
# Names of numbers

A loaded machine tells the names of states and events by their numbers. Its namespace says the same
in other words: a table gives every name its number, and two bounds tell which numbers there are. A
number has a name if and only if it is within the bounds, and then it is the number that the table
gives to this name and to no other.
-/

namespace StateGen.Machine

open Declaration

/-- The keys of the namespace that tell about the numbers of states or of events. -/
structure NumberKeys where
  table : String
  low : String
  high : String

/-- The keys that tell about states. -/
def NumberKeys.states : NumberKeys := ⟨"states", "min_state_valid", "max_state_valid"⟩

/-- The keys that tell about events. -/
def NumberKeys.events : NumberKeys := ⟨"events", "min_event_valid", "max_event_valid"⟩

/-- The ways from a number to its name, and back. -/
structure Lookups where
  name? : Int → Option String
  /-- The name of a number, also where there is none. -/
  nameD : Int → String
  index : String → Option Nat

/-- The lookups of states. -/
def Spec.stateLookups (spec : Spec) : Lookups := ⟨spec.stateName?, spec.stateNameD, spec.stateIndex⟩

/-- The lookups of events. -/
def Spec.eventLookups (spec : Spec) : Lookups := ⟨spec.eventName?, spec.eventNameD, spec.eventIndex⟩

namespace Lookups

/-- The lookups agree with a namespace that publishes the bounds `low` and `high`. -/
structure Agree (l : Lookups) (root : Value) (keys : NumberKeys) (invalid : String)
    (low high : Int) : Prop where
  low_published : root.get? keys.low = some (.int low)
  high_published : root.get? keys.high = some (.int high)
  named_iff : ∀ o, (∃ name, l.name? o = some name) ↔ low ≤ o ∧ o ≤ high
  number : ∀ o name, l.name? o = some name ↔ root.follow [keys.table, name] = .ok (.int o)
  index : ∀ o name, l.name? o = some name → ∃ n : Nat, l.index name = some n ∧ o = n
  safe : ∀ o name, l.name? o = some name → l.nameD o = name
  safe_outside : ∀ o, ¬ (low ≤ o ∧ o ≤ high) → l.nameD o = invalid
  distinct : ∀ o o' name, l.name? o = some name → l.name? o' = some name → o = o'

/-- The lookups in a list of names that are numbered from zero on. -/
def ofNames (names : List String) (invalid : String) : Lookups where
  name? o := if 0 ≤ o then names[o.toNat]? else none
  nameD o := (if 0 ≤ o then names[o.toNat]? else none).getD invalid
  index name := names.findIdx? (· == name)

variable {names : List String} {invalid : String}

theorem name?_ofNames_iff {o : Int} {name : String} :
    (ofNames names invalid).name? o = some name ↔ ∃ i : Nat, o = i ∧ names[i]? = some name := by
  simp only [ofNames]
  constructor
  · intro h
    by_cases ho : 0 ≤ o
    · rw [if_pos ho] at h
      exact ⟨o.toNat, (Int.toNat_of_nonneg ho).symm, h⟩
    · rw [if_neg ho] at h
      cases h
  · rintro ⟨i, rfl, h⟩
    rw [if_pos (Int.natCast_nonneg i), Int.toNat_natCast]
    exact h

theorem nameD_ofNames (o : Int) :
    (ofNames names invalid).nameD o = ((ofNames names invalid).name? o).getD invalid := rfl

/-- A number has a name if and only if it is below the number of names. -/
theorem named_ofNames_iff {o : Int} :
    (∃ name, (ofNames names invalid).name? o = some name) ↔ 0 ≤ o ∧ o ≤ names.length - 1 := by
  constructor
  · rintro ⟨name, h⟩
    obtain ⟨i, rfl, hi⟩ := name?_ofNames_iff.1 h
    have hlt := (List.getElem?_eq_some_iff.1 hi).1
    omega
  · rintro ⟨hlow, hhigh⟩
    have hlt : o.toNat < names.length := by omega
    refine ⟨names[o.toNat], name?_ofNames_iff.2 ⟨o.toNat, by omega, ?_⟩⟩
    exact List.getElem?_eq_getElem hlt

/-- Lookups in the keys of a numbering agree with a namespace that publishes it. -/
theorem agree_ofNames {root : Value} {keys : NumberKeys} {table : OrderedMap Nat}
    (htable : table.IsNumbering)
    (hpublished : root.get? keys.table = some (.map (table.mapValues Model.ordinal)))
    (hlow : root.get? keys.low = some (.int 0))
    (hhigh : root.get? keys.high = some (.int (table.size - 1))) (invalid : String) :
    (ofNames table.keys invalid).Agree root keys invalid 0 (table.size - 1) := by
  have hlength : table.keys.length = table.size := List.length_map ..
  have hfollow : ∀ name o, root.follow [keys.table, name] = .ok (.int o) ↔
      ∃ i : Nat, o = i ∧ table.get? name = some i := by
    intro name o
    have hvalue : (Value.map (table.mapValues Model.ordinal)).get? name =
        (table.get? name).map Model.ordinal := OrderedMap.get?_mapValues ..
    rw [Value.follow_of_get? hpublished, Value.follow]
    cases hname : table.get? name with
    | none =>
      rw [hname, Option.map_none] at hvalue
      refine iff_of_false (fun h ↦ ?_) (by simp)
      obtain ⟨v, hv, -⟩ := bind_eq_ok h
      rw [Value.get_eq_ok_iff, hvalue] at hv
      cases hv
    | some i =>
      rw [hname, Option.map_some] at hvalue
      rw [Value.get_eq_ok_iff.2 hvalue]
      simp [bind, Except.bind, Value.follow, Model.ordinal, eq_comm]
  constructor
  case low_published => exact hlow
  case high_published => exact hhigh
  case named_iff =>
    intro o
    rw [named_ofNames_iff, hlength]
  case number =>
    intro o name
    rw [name?_ofNames_iff, hfollow]
    constructor
    · rintro ⟨i, rfl, hi⟩
      exact ⟨i, rfl, htable.position i name hi⟩
    · rintro ⟨i, rfl, hi⟩
      -- The name stands somewhere among the keys, and there it has its only number.
      have hmem : name ∈ table.keys :=
        (table.isSome_get?_iff_mem_keys name).1 (Option.isSome_of_eq_some hi)
      obtain ⟨j, hj⟩ := List.getElem?_of_mem hmem
      have hij : some j = some i := (htable.position j name hj).symm.trans hi
      exact ⟨i, rfl, Option.some.inj hij ▸ hj⟩
  case index =>
    intro o name h
    obtain ⟨i, rfl, hi⟩ := name?_ofNames_iff.1 h
    refine ⟨i, ?_, rfl⟩
    have hnodup : (table.keys.map id).Nodup := by
      rw [List.map_id]
      exact htable.nodup
    exact findIdx?_name hnodup hi
  case safe =>
    intro o name h
    rw [nameD_ofNames, h, Option.getD_some]
  case safe_outside =>
    intro o h
    have hnone : (ofNames table.keys invalid).name? o = none := by
      apply Option.eq_none_iff_forall_ne_some.2
      intro name hname
      apply h
      rw [← hlength]
      exact named_ofNames_iff.1 ⟨name, hname⟩
    rw [nameD_ofNames, hnone, Option.getD_none]
  case distinct =>
    intro o o' name h h'
    obtain ⟨i, rfl, hi⟩ := name?_ofNames_iff.1 h
    obtain ⟨j, rfl, hj⟩ := name?_ofNames_iff.1 h'
    have hij := (htable.position i name hi).symm.trans (htable.position j name hj)
    rw [Option.some.inj hij]

end Lookups

/-- States are looked up among their names. -/
theorem Spec.stateLookups_eq (spec : Spec) :
    spec.stateLookups = .ofNames (spec.states.map State.name) spec.invalidName := by
  simp [stateLookups, Lookups.ofNames, stateName?, stateNameD, stateIndex, List.findIdx?_map,
    Function.comp_def, funext_iff]

/-- Events are looked up among their names. -/
theorem Spec.eventLookups_eq (spec : Spec) :
    spec.eventLookups = .ofNames (spec.events.map Event.name) spec.invalidName := by
  simp [eventLookups, Lookups.ofNames, eventName?, eventNameD, eventIndex, List.findIdx?_map,
    Function.comp_def, funext_iff]

/-- Whatever was declared and whatever of it was rejected: the machine that is loaded from the
published namespace names exactly the numbers within the published bounds, each as the published
table does, and gives the published invalid name for all others. A machine without events names no
event. -/
theorem lookups_agree_with_bounds (inputPath : String) (ds : List Declaration) (ns : Namespace)
    (hns : ((Model.initial inputPath).applyEach ds).finalize = .ok ns) :
    ∃ spec invalid, Spec.ofNamespace ns.root = .ok spec ∧
      ns.root.get? "invalid_name" = some (.str invalid) ∧
      (∃ low high, spec.stateLookups.Agree ns.root .states invalid low high) ∧
      (((Model.initial inputPath).applyEach ds).events.keys ≠ [] →
        ∃ low high, spec.eventLookups.Agree ns.root .events invalid low high) ∧
      (((Model.initial inputPath).applyEach ds).events.keys = [] →
        ∀ o, spec.eventName? o = none ∧ spec.eventNameD o = invalid) := by
  rw [Model.initial_eq_declaredBy] at hns ⊢
  obtain ⟨accepted, -, hc, hmodel⟩ := Model.applyEach_declaredBy ds Model.consistent_nil
  rw [List.nil_append] at hc hmodel
  rw [hmodel] at hns ⊢
  have hbounds := Model.publishesBounds_of_finalize hns
  have hwf : (Model.declaredBy inputPath accepted).WellFormed := Model.wellFormed_declaredBy hc
  obtain ⟨-, rfl⟩ := Model.finalize_eq_ok_iff.1 hns
  have hp : Model.Publishes (Model.declaredBy inputPath accepted).publish.root inputPath accepted :=
    Model.publishes_declaredBy
  have hstates : (Spec.declaredBy accepted).states.map State.name =
      (Model.declaredBy inputPath accepted).states.keys := by
    simp [Spec.declaredBy, State.declaredBy, Function.comp_def]
  have hevents : (Spec.declaredBy accepted).events.map Event.name =
      (Model.declaredBy inputPath accepted).events.keys := by
    simp [Spec.declaredBy, Event.declaredBy, Function.comp_def]
  refine ⟨Spec.declaredBy accepted, optionOf accepted "invalid_name",
    ofNamespace_eq_declaredBy hc hp, hp.option _ (by simp [Config.keys, Config.defaults]), ?_, ?_,
    ?_⟩
  · rw [Spec.stateLookups_eq, hstates]
    exact ⟨_, _, Lookups.agree_ofNames hwf.states hbounds.states hbounds.stateBounds.1
      hbounds.stateBounds.2 _⟩
  · intro hne
    obtain ⟨htable, -, hlow, hhigh⟩ := hbounds.events hne
    rw [Spec.eventLookups_eq, hevents]
    exact ⟨_, _, Lookups.agree_ofNames hwf.events htable hlow hhigh _⟩
  · intro hnil o
    have hnone : (Spec.declaredBy accepted).events = [] := by
      rw [hnil] at hevents
      exact List.map_eq_nil_iff.1 hevents
    have hname : (Spec.declaredBy accepted).eventName? o = none := by simp [Spec.eventName?, hnone]
    exact ⟨hname, by rw [Spec.eventNameD, hname]; rfl⟩

/-- A pump whose states are declared on both sides of an event, one of them twice. -/
private def pump : List Declaration :=
  [⟨.config "invalid_name" "?", .none⟩, ⟨.state "idle", .none⟩, ⟨.event "start", .none⟩,
    ⟨.state "idle", .none⟩, ⟨.state "pumping", .none⟩, ⟨.initial "idle", .none⟩,
    ⟨.transition "idle" (some "start") "pumping", .none⟩]

/-- The pump names its two states and its event, and everything else by the mark. -/
theorem lookups_agree_with_bounds_pump :
    ∃ ns spec, ((Model.initial "pump.fsm").applyEach pump).finalize = .ok ns ∧
      Spec.ofNamespace ns.root = .ok spec ∧
      spec.stateLookups.Agree ns.root .states "?" 0 1 ∧
      spec.stateName? 1 = some "pumping" ∧ spec.stateIndex "pumping" = some 1 ∧
      spec.stateNameD 2 = "?" ∧ spec.eventName? 0 = some "start" ∧ spec.eventNameD (-1) = "?" := by
  have hns : ∃ ns, ((Model.initial "pump.fsm").applyEach pump).finalize = .ok ns ∧
      ns.root.get? "invalid_name" = some (.str "?") ∧
      ns.root.get? "min_state_valid" = some (.int 0) ∧
      ns.root.get? "max_state_valid" = some (.int 1) ∧
      ns.root.get? "min_event_valid" = some (.int 0) ∧
      ns.root.follow ["states", "pumping"] = .ok (.int 1) ∧
      ns.root.follow ["events", "start"] = .ok (.int 0) :=
    ⟨_, rfl, rfl, rfl, rfl, rfl, rfl, rfl⟩
  obtain ⟨ns, hns, hinvalid, hlow, hhigh, heventLow, hpumping, hstart⟩ := hns
  obtain ⟨spec, invalid, hload, hmark, ⟨low, high, hstates⟩, hevents, -⟩ :=
    lookups_agree_with_bounds "pump.fsm" pump ns hns
  obtain ⟨eventLow, eventHigh, hevents⟩ := hevents (by decide)
  obtain rfl : "?" = invalid := by simpa [hinvalid] using hmark
  obtain rfl : 0 = low := by simpa [NumberKeys.states, hlow] using hstates.low_published
  obtain rfl : 1 = high := by simpa [NumberKeys.states, hhigh] using hstates.high_published
  obtain rfl : 0 = eventLow := by simpa [NumberKeys.events, heventLow] using hevents.low_published
  have hname : spec.stateLookups.name? 1 = some "pumping" := (hstates.number 1 "pumping").2 hpumping
  obtain ⟨n, hindex, hn⟩ := hstates.index 1 "pumping" hname
  obtain rfl : n = 1 := by omega
  have hbefore : spec.eventLookups.nameD (-1) = "?" := hevents.safe_outside (-1) (by omega)
  exact ⟨ns, spec, hns, hload, hstates, hname, hindex, hstates.safe_outside 2 (by omega),
    (hevents.number 0 "start").2 hstart, hbefore⟩

end StateGen.Machine
