import Mathlib.Data.List.Basic
import StateGen.Proofs.Machine.Loading
import StateGen.Proofs.Machine.Reachability

/-!
# Unreachable states are never entered

A model tells which of its states are neither initial nor the target of an edge, by their names. The
machine that is loaded from its namespace starts and moves by numbers. The number of such a state is
one that no run arrives at, and no hook is ever called about it.
-/

namespace StateGen.Machine

open Declaration

/-- Every call of a hook in the course of a run. -/
def callsMade (m : Machine) : List Attempt → List Call
  | [] => []
  | a :: attempts => (a.outcome m).calls ++ callsMade (a.outcome m).machine attempts

/-! ## What hooks are told -/

/-- Guards are asked in order, so those that are asked are the first ones. -/
theorem asked_isPrefix {σ : Type} (hooks : Hooks σ) (calls : List Call) (s : σ) :
    (askGuards hooks calls s).asked <+: calls := by
  induction calls generalizing s with
  | nil => exact List.prefix_rfl
  | cons call calls ih =>
    rw [askGuards]
    split
    · exact List.prefix_append [call] calls
    · next s' _ => exact List.cons_prefix_cons.2 ⟨rfl, ih s'⟩

/-- Each call of a transition tells the current state and the target of the edge. -/
private theorem occasion_of_mem_callsOn {m : Machine} {t : Transition} {phase : Phase}
    {hooks : List String} {c : Call} (h : c ∈ m.callsOn t phase hooks) :
    c.occasion.current = m.current ∧ c.occasion.next = t.edge.target := by
  obtain ⟨hook, -, rfl⟩ := List.mem_map.1 h
  exact ⟨rfl, rfl⟩

/-- A call of `advance` makes calls only about the current state and a state that an edge leads
to. -/
theorem occasion_of_mem_calls {m : Machine} {a : Attempt} {c : Call}
    (h : c ∈ (a.outcome m).calls) :
    c.occasion.current = m.current ∧ m.spec.Leads m.current c.occasion.next := by
  unfold Attempt.outcome advance at h
  cases ht : m.transition? a.request with
  | none =>
    rw [ht] at h
    cases h
  | some t =>
    have hcall : c ∈ m.guardCalls t ∨ c ∈ m.callbackCalls t := by
      have hasked := (asked_isPrefix a.hooks (m.guardCalls t) a.state).subset
      simp only [ht] at h
      split at h
      · rcases List.mem_append.1 h with h | h
        · exact .inl (hasked h)
        · exact .inr h
      · exact .inl (hasked h)
    have hoccasion : c.occasion.current = m.current ∧ c.occasion.next = t.edge.target := by
      rcases hcall with hcall | hcall
      · simp only [guardCalls, List.mem_append] at hcall
        rcases hcall with ((hcall | hcall) | hcall) | hcall <;>
          exact occasion_of_mem_callsOn hcall
      · unfold callbackCalls at hcall
        rcases List.mem_append.1 hcall with hcall | hcall
        · exact occasion_of_mem_callsOn hcall
        · split at hcall <;> rcases List.mem_append.1 hcall with hcall | hcall <;>
            exact occasion_of_mem_callsOn hcall
    obtain ⟨hsource, hedge, -, -⟩ := transition?_eq_some ht
    refine ⟨hoccasion.1, t.source, hsource, t.edge, hedge, ?_⟩
    exact hoccasion.2.symm

/-! ## States that nothing leads to -/

/-- A number that is not initial and that no edge leads to. -/
structure Spec.Isolated (spec : Spec) (n : Nat) : Prop where
  notInitial : n ∉ spec.initial
  noEdge : ∀ i, ¬ spec.Leads i n

/-- Calls that do not mention a state. -/
def Avoids (n : Nat) (calls : List Call) : Prop :=
  ∀ c ∈ calls, c.occasion.current ≠ n ∧ c.occasion.next ≠ n

section

variable {spec : Spec} {n i : Nat} {m : Machine}

/-- The machine is somewhere else: it is where it started or where an edge leads. -/
theorem Spec.Isolated.current_ne (h : spec.Isolated n) (hi : i ∈ spec.initial)
    (hm : OnGraph spec i m) : m.current ≠ n := by
  intro hn
  have hreach : Relation.ReflTransGen spec.Leads i n := hn ▸ hm.reachable
  rcases hreach.cases_tail with heq | ⟨j, -, hlead⟩
  · apply h.notInitial
    rw [heq]
    exact hi
  · exact h.noEdge j hlead

/-- One call of `advance` tells no hook about the state. -/
theorem Spec.Isolated.avoids_outcome (h : spec.Isolated n) (hi : i ∈ spec.initial)
    (hm : OnGraph spec i m) (a : Attempt) : Avoids n (a.outcome m).calls := by
  intro c hc
  obtain ⟨hcurrent, hlead⟩ := occasion_of_mem_calls hc
  constructor
  · rw [hcurrent]
    exact h.current_ne hi hm
  · intro hnext
    rw [hm.spec_eq, hnext] at hlead
    exact h.noEdge m.current hlead

/-- Nor does a whole run. -/
theorem Spec.Isolated.avoids_callsMade (h : spec.Isolated n) (hi : i ∈ spec.initial)
    (hm : OnGraph spec i m) (attempts : List Attempt) : Avoids n (m.callsMade attempts) := by
  induction attempts generalizing m with
  | nil =>
    intro c hc
    cases hc
  | cons a attempts ih =>
    intro c hc
    rcases List.mem_append.1 hc with hc | hc
    · exact h.avoids_outcome hi hm a c hc
    · exact ih (hm.outcome a) c hc

end

/-! ## From names to numbers -/

section

variable {inputPath : String} {ds : List Declaration} {s : String}

/-- The targets of edges are those of the declared ones. -/
private theorem targets_declaredBy :
    (Model.declaredBy inputPath ds).transitions.values.flatMap
        (fun edges ↦ edges.values.map Model.Edge.target) =
      (stateNames ds).flatMap fun source ↦ (linksFrom ds source).map Link.target := by
  simp [Model.declaredBy, OrderedMap.values, OrderedMap.table, OrderedMap.tabulate,
    Model.edgesDeclaredBy, List.flatMap_map, Function.comp_def]

/-- A state is reported if it is declared, not initial, and the target of no declared edge. -/
theorem mem_unreachableStates_iff (hc : Consistent ds) :
    s ∈ (Model.declaredBy inputPath ds).unreachableStates ↔
      s ∈ stateNames ds ∧ s ∉ initialNames ds ∧
        ∀ source, ∀ e ∈ linksFrom ds source, e.target ≠ s := by
  have htargets : s ∉ (stateNames ds).flatMap (fun source ↦ (linksFrom ds source).map Link.target) ↔
      ∀ source, ∀ e ∈ linksFrom ds source, e.target ≠ s := by
    simp only [List.mem_flatMap, List.mem_map, not_exists, not_and]
    constructor
    · intro h source e he
      exact h source (hc.source_declared source (List.ne_nil_of_mem he)) e he
    · intro h source _ e he
      exact h source e he
  rw [← htargets]
  simp only [Model.unreachableStates, targets_declaredBy, Model.keys_states_declaredBy,
    List.mem_filter, Bool.and_eq_true, Bool.not_eq_true', List.contains_eq_mem,
    decide_eq_false_iff_not]
  rfl

/-- The number of a state that is reported is not initial, and no edge leads to it. -/
theorem isolated_of_mem_unreachableStates (hc : Consistent ds)
    (hs : s ∈ (Model.declaredBy inputPath ds).unreachableStates) :
    (Spec.declaredBy ds).Isolated ((stateNames ds).idxOf s) := by
  obtain ⟨hstate, hinitial, hedge⟩ := (mem_unreachableStates_iff hc).1 hs
  constructor
  · intro h
    obtain ⟨name, hname, heq⟩ := List.mem_map.1 h
    have hsame : name = s := (List.idxOf_inj (hc.initial_declared name hname)).1 heq
    exact hinitial (hsame ▸ hname)
  · rintro i ⟨state, hstate', e, he, htarget⟩
    have hmem : state ∈ (Spec.declaredBy ds).states := List.mem_of_getElem? hstate'
    obtain ⟨source, -, rfl⟩ := List.mem_map.1 hmem
    obtain ⟨link, hlink, rfl⟩ := List.mem_map.1 he
    apply hedge source link hlink
    exact (List.idxOf_inj (hc.target_declared source link hlink)).1 htarget

/-- A declared state has the number that its name has among the names. -/
theorem stateIndex_declaredBy (hs : s ∈ stateNames ds) :
    (Spec.declaredBy ds).stateIndex s = some ((stateNames ds).idxOf s) := by
  have hname : (fun state : State ↦ state.name == s) ∘ State.declaredBy ds = (· == s) := rfl
  rw [Spec.stateIndex, Spec.declaredBy, List.findIdx?_map, hname,
    List.findIdx?_eq_some_iff_findIdx_eq]
  exact ⟨List.idxOf_lt_length_of_mem hs, rfl⟩

/-- Where the machine is not at the number of a state, it is not in the state of that name. -/
theorem stateName_ne {i : Nat} {m : Machine} (hc : Consistent ds)
    (hm : OnGraph (Spec.declaredBy ds) i m) (hne : m.current ≠ (stateNames ds).idxOf s) :
    m.stateName ≠ s := by
  have hrange : m.current < (stateNames ds).length := by
    have hcurrent := hm.inRange
    rwa [Spec.declaredBy, List.length_map] at hcurrent
  have hname : m.stateName = (stateNames ds)[m.current] := by
    simp [stateName, state?, hm.spec_eq, Spec.declaredBy, State.declaredBy, hrange]
  intro heq
  apply hne
  rw [← heq, hname, hc.states_nodup.idxOf_getElem]

end

/-- A state that is reported as unreachable is never entered. Whatever is declared and however much
of it is rejected: the machine that is loaded from the published namespace knows the state by a
number, and wherever that machine starts, whatever is requested and whatever the hooks answer, it
never is in that state and calls no hook that is told of it. -/
theorem unreachable_never_entered (inputPath : String) (ds : List Declaration) (ns : Namespace)
    (hns : ((Model.initial inputPath).applyEach ds).finalize = .ok ns) (s : String)
    (hs : s ∈ ((Model.initial inputPath).applyEach ds).unreachableStates) :
    ∃ spec n, Spec.ofNamespace ns.root = .ok spec ∧ spec.stateIndex s = some n ∧
      ∀ initial m, start spec initial = .ok m → ∀ attempts : List Attempt,
        (m.run attempts).current ≠ n ∧ (m.run attempts).stateName ≠ s ∧
          ∀ c ∈ m.callsMade attempts, c.occasion.current ≠ n ∧ c.occasion.next ≠ n := by
  rw [Model.initial_eq_declaredBy] at hns hs
  obtain ⟨accepted, -, hc, hmodel⟩ := Model.applyEach_declaredBy ds Model.consistent_nil
  rw [List.nil_append] at hc hmodel
  rw [hmodel] at hns hs
  obtain ⟨-, rfl⟩ := Model.finalize_eq_ok_iff.1 hns
  have hstate : s ∈ stateNames accepted := ((mem_unreachableStates_iff hc).1 hs).1
  have hisolated := isolated_of_mem_unreachableStates hc hs
  refine ⟨Spec.declaredBy accepted, (stateNames accepted).idxOf s,
    ofNamespace_eq_declaredBy hc Model.publishes_declaredBy, stateIndex_declaredBy hstate, ?_⟩
  intro initial m hstart attempts
  obtain ⟨hinitial, hm⟩ := onGraph_of_start hstart
  have hne := hisolated.current_ne hinitial (hm.run attempts)
  exact ⟨hne, stateName_ne hc (hm.run attempts) hne,
    hisolated.avoids_callsMade hinitial hm attempts⟩

/-- A gate with a state `ghost` that has an edge of its own and hooks, but that nothing leads to:
the edge to it is declared before it and rejected. -/
def hauntedGate : List Declaration :=
  [⟨.state "shut", .none⟩, ⟨.state "ajar", .none⟩, ⟨.event "push", .none⟩,
    ⟨.transition "shut" (some "push") "ghost", .none⟩, ⟨.state "ghost", .none⟩,
    ⟨.initial "shut", .none⟩, ⟨.transition "shut" (some "push") "ajar", .none⟩,
    ⟨.transition "ghost" (some "push") "shut", .none⟩,
    ⟨.callback (.entry "ajar") "creak", .none⟩, ⟨.callback (.entry "ghost") "howl", .none⟩]

/-- The gate that runs. -/
private def gateSpec : Spec where
  states :=
    [⟨"shut", [], [], [], [], [⟨"push", 1, some 0, []⟩]⟩, ⟨"ajar", [], [], ["creak"], [], []⟩,
      ⟨"ghost", [], [], ["howl"], [], [⟨"push", 0, some 0, []⟩]⟩]
  events := [⟨"push", [], []⟩]
  initial := [0]
  eventDriven := true
  callbackOrder := .default
  invalidName := "[INVALID]"

/-- Pushing the gate opens it with a creak, and it is never where the ghost is. -/
theorem unreachable_never_entered_gate :
    ∃ ns, ((Model.initial "gate.fsm").applyEach hauntedGate).finalize = .ok ns ∧
      "ghost" ∈ ((Model.initial "gate.fsm").applyEach hauntedGate).unreachableStates ∧
      ∃ spec m, Spec.ofNamespace ns.root = .ok spec ∧ spec.stateIndex "ghost" = some 2 ∧
        start spec 0 = .ok m ∧
        m.callsMade [⟨.event 0, ⟨fun _ s ↦ (true, s), fun _ s ↦ s⟩, ()⟩] =
          [⟨"creak", ⟨.entryCallback, 0, 1, some 0⟩⟩] ∧
        ∀ attempts, (m.run attempts).current ≠ 2 ∧ Avoids 2 (m.callsMade attempts) := by
  have hghost : "ghost" ∈ ((Model.initial "gate.fsm").applyEach hauntedGate).unreachableStates := by
    decide
  have hns : ∃ ns, ((Model.initial "gate.fsm").applyEach hauntedGate).finalize = .ok ns ∧
      Spec.ofNamespace ns.root = .ok gateSpec := ⟨_, rfl, rfl⟩
  obtain ⟨ns, hns, hload⟩ := hns
  obtain ⟨spec, n, hspec, hindex, hnever⟩ :=
    unreachable_never_entered "gate.fsm" hauntedGate ns hns "ghost" hghost
  obtain rfl : gateSpec = spec := Except.ok.inj (hload.symm.trans hspec)
  obtain rfl : 2 = n := Option.some.inj hindex
  refine ⟨ns, hns, hghost, gateSpec, ⟨gateSpec, 0⟩, hload, rfl, rfl, rfl, fun attempts ↦ ?_⟩
  obtain ⟨hcurrent, -, hcalls⟩ := hnever 0 ⟨gateSpec, 0⟩ rfl attempts
  exact ⟨hcurrent, hcalls⟩

end StateGen.Machine
