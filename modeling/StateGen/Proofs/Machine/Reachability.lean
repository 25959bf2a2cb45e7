import Mathlib.Logic.Relation
import StateGen.Machine

/-!
# Runs stay on the graph

A specification may be written by hand, with edges and initial states that lead nowhere. Advancing a
machine moves it along an edge to a state that exists or leaves it where it is. So a machine that
starts at all is always in a state that exists and that its edges lead to.
-/

namespace StateGen.Machine

/-- An edge leads from one state to another; the second one need not exist. -/
def Spec.Leads (spec : Spec) (i j : Nat) : Prop :=
  ∃ s, spec.states[i]? = some s ∧ ∃ e ∈ s.edges, e.target = j

/-- A call of `advance`. Every call has hooks of its own, of any kind and in any state. -/
structure Attempt where
  {σ : Type}
  request : Request
  hooks : Hooks σ
  state : σ

/-- What becomes of a call. -/
def Attempt.outcome (a : Attempt) (m : Machine) : Outcome a.σ := m.advance a.request a.hooks a.state

/-- The machine after calls, one after the other. -/
def run (m : Machine) (calls : List Attempt) : Machine :=
  calls.foldl (fun m a ↦ (a.outcome m).machine) m

/-! ## One call -/

section

variable {m : Machine} {r : Request} {t : Transition}

/-- The parts of a transition come from the specification, and its target exists. -/
theorem transition?_eq_some (h : m.transition? r = some t) :
    m.state? = some t.source ∧ t.edge ∈ t.source.edges ∧ r.isServedBy t.edge ∧
      m.spec.states[t.edge.target]? = some t.target := by
  simp only [transition?, edge?, Option.bind_eq_bind, Option.bind_eq_some_iff] at h
  obtain ⟨source, hsource, edge, ⟨source', hsource', hfind⟩, target, htarget, ht⟩ := h
  have hsame : source' = source := Option.some.inj (hsource'.symm.trans hsource)
  subst hsame
  cases ht
  exact ⟨hsource, List.mem_of_find?_eq_some hfind, List.find?_some hfind, htarget⟩

/-- A call moves the machine to the target of its transition, or it fails and leaves the machine as
it was. -/
theorem outcome_cases (a : Attempt) (m : Machine) :
    (∃ t, m.transition? a.request = some t ∧ (a.outcome m).status = .ok ∧
        (a.outcome m).machine = ⟨m.spec, t.edge.target⟩) ∨
      ((a.outcome m).status ≠ .ok ∧ (a.outcome m).machine = m) := by
  unfold Attempt.outcome advance
  cases ht : m.transition? a.request with
  | none => exact .inr ⟨by simp, rfl⟩
  | some t =>
    by_cases hpassed : (askGuards a.hooks (m.guardCalls t) a.state).passed
    · simp only [hpassed, if_true]
      exact .inl ⟨t, rfl, trivial, rfl⟩
    · simp only [hpassed, Bool.false_eq_true, if_false]
      exact .inr ⟨by simp, trivial⟩

end

/-- The machine is in a state that exists and that edges lead to from state `i`. -/
structure OnGraph (spec : Spec) (i : Nat) (m : Machine) : Prop where
  spec_eq : m.spec = spec
  inRange : m.current < spec.states.length
  reachable : Relation.ReflTransGen spec.Leads i m.current

variable {spec : Spec} {i : Nat} {m : Machine}

/-- A machine starts where it is asked to, in a state that exists. -/
theorem onGraph_of_start (h : start spec i = .ok m) : i ∈ spec.initial ∧ OnGraph spec i m := by
  unfold start at h
  split at h
  · next hok =>
    cases h
    simp only [Bool.and_eq_true, decide_eq_true_eq, List.contains_iff_mem] at hok
    exact ⟨hok.2, rfl, hok.1, .refl⟩
  · cases h

/-- Every call keeps the machine on the graph. -/
theorem OnGraph.outcome (h : OnGraph spec i m) (a : Attempt) :
    OnGraph spec i (a.outcome m).machine := by
  rcases outcome_cases a m with ⟨t, ht, -, hmachine⟩ | ⟨-, hmachine⟩
  · obtain ⟨hsource, hedge, -, htarget⟩ := transition?_eq_some ht
    rw [state?, h.spec_eq] at hsource
    rw [h.spec_eq] at htarget
    rw [hmachine]
    refine ⟨h.spec_eq, ?_, h.reachable.tail ⟨t.source, hsource, t.edge, hedge, rfl⟩⟩
    exact (List.getElem?_eq_some_iff.1 htarget).1
  · rw [hmachine]
    exact h

/-- Every run keeps the machine on the graph. -/
theorem OnGraph.run (h : OnGraph spec i m) (calls : List Attempt) :
    OnGraph spec i (m.run calls) := by
  induction calls generalizing m with
  | nil => exact h
  | cons a calls ih => exact ih (h.outcome a)

/-- A machine that starts stays on the graph of its specification, whatever is requested and
whatever the hooks answer. After any number of calls it is in a state that exists, and the next call
changes the state only if it succeeds; then it follows an edge that serves the request. -/
theorem run_stays_on_graph (spec : Spec) (initial : Nat) (m : Machine)
    (h : start spec initial = .ok m) (calls : List Attempt) :
    initial ∈ spec.initial ∧
      Relation.ReflTransGen spec.Leads initial (m.run calls).current ∧
      (m.run calls).spec = spec ∧
      ∃ hstate : (m.run calls).current < spec.states.length,
        (m.run calls).state? = some spec.states[(m.run calls).current] ∧
        ∀ call : Attempt,
          let outcome := call.outcome (m.run calls)
          m.run (calls ++ [call]) = outcome.machine ∧
          (outcome.machine.current ≠ (m.run calls).current → outcome.status = .ok) ∧
          (outcome.status = .ok →
            ∃ e ∈ spec.states[(m.run calls).current].edges,
              call.request.isServedBy e ∧ e.target = outcome.machine.current) := by
  obtain ⟨hinitial, hstart⟩ := onGraph_of_start h
  have hrun : OnGraph spec initial (m.run calls) := hstart.run calls
  have hstate : (m.run calls).state? = some (spec.states.get ⟨_, hrun.inRange⟩) := by
    rw [state?, hrun.spec_eq]
    exact List.getElem?_eq_getElem hrun.inRange
  refine ⟨hinitial, hrun.reachable, hrun.spec_eq, hrun.inRange, hstate, fun call ↦ ?_⟩
  have hsnoc : m.run (calls ++ [call]) = (call.outcome (m.run calls)).machine := by
    simp only [Machine.run, List.foldl_append, List.foldl_cons, List.foldl_nil]
  refine ⟨hsnoc, ?_⟩
  rcases outcome_cases call (m.run calls) with ⟨t, ht, hok, hmachine⟩ | ⟨hfail, hmachine⟩
  · obtain ⟨hsource, hedge, hserves, -⟩ := transition?_eq_some ht
    rw [hstate] at hsource
    refine ⟨fun _ ↦ hok, fun _ ↦ ⟨t.edge, ?_, hserves, by rw [hmachine]⟩⟩
    rw [← Option.some.inj hsource] at hedge
    exact hedge
  · refine ⟨fun hne ↦ absurd ?_ hne, fun hok ↦ absurd hok hfail⟩
    rw [hmachine]

/-- A lamp with an edge to a state that does not exist, and an initial state that does not exist. -/
def brokenLamp : Spec where
  states :=
    [⟨"off", [], [], [], [], [⟨"press", 1, some 0, []⟩, ⟨"smash", 7, some 1, []⟩]⟩,
      ⟨"on", [], [], [], [], []⟩]
  events := [⟨"press", [], []⟩]
  initial := [9, 0]
  eventDriven := true
  callbackOrder := .default
  invalidName := ""

/-- A call with hooks that agree to everything. -/
private def agreed (r : Request) : Attempt := ⟨r, ⟨fun _ s ↦ (true, s), fun _ s ↦ s⟩, ()⟩

/-- The lamp does not start where there is no state. Smashing it changes nothing, and pressing it
afterwards turns it on. -/
theorem run_stays_on_graph_lamp :
    start brokenLamp 9 = .error .invalidState ∧ start brokenLamp 0 = .ok ⟨brokenLamp, 0⟩ ∧
      (run ⟨brokenLamp, 0⟩ [agreed (.event 1), agreed (.event 0)]).current = 1 ∧
      Relation.ReflTransGen brokenLamp.Leads 0 1 := by
  refine ⟨rfl, rfl, rfl, ?_⟩
  exact (run_stays_on_graph brokenLamp 0 ⟨brokenLamp, 0⟩ rfl
    [agreed (.event 1), agreed (.event 0)]).2.1

end StateGen.Machine
