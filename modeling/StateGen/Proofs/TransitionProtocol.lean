import StateGen.Machine

/-!
# The transition protocol

What one advance does, for arbitrary hooks. Without an edge, or with an edge whose target does not
exist, no hook is called. Otherwise the guards are asked in protocol order up to the first that
refuses; only if none does, the callbacks run and the target becomes the current state. The hooks
are state transformers, so a statement about the state they end in tells which calls were made and
in which order.
-/

namespace StateGen.Machine

variable {σ : Type}

/-- The state of the hooks after guards were asked in order, whatever they answered. -/
def Hooks.afterGuards (hooks : Hooks σ) (calls : List Call) (s : σ) : σ :=
  calls.foldl (fun s call ↦ (hooks.guard call s).2) s

/-- Every guard agrees when the guards are asked in order. -/
def Hooks.Agree (hooks : Hooks σ) : List Call → σ → Prop
  | [], _ => True
  | call :: calls, s => (hooks.guard call s).1 = true ∧ hooks.Agree calls (hooks.guard call s).2

/-- Guards that all agree are all asked. -/
theorem askGuards_of_agree (hooks : Hooks σ) {calls : List Call} {s : σ}
    (h : hooks.Agree calls s) :
    askGuards hooks calls s = ⟨true, calls, hooks.afterGuards calls s⟩ := by
  induction calls generalizing s with
  | nil => rfl
  | cons call calls ih =>
    obtain ⟨hcall, hcalls⟩ := h
    have hanswer : hooks.guard call s = (true, (hooks.guard call s).2) := Prod.ext hcall rfl
    rw [askGuards, hanswer]
    simp only [ih hcalls, Hooks.afterGuards, List.foldl_cons]

/-- A guard that refuses is the last one that is asked. -/
theorem askGuards_of_refusal (hooks : Hooks σ) {asked : List Call} {call : Call}
    (rest : List Call) {s : σ} (h : hooks.Agree asked s)
    (hcall : (hooks.guard call (hooks.afterGuards asked s)).1 = false) :
    askGuards hooks (asked ++ call :: rest) s =
      ⟨false, asked ++ [call], hooks.afterGuards (asked ++ [call]) s⟩ := by
  induction asked generalizing s with
  | nil =>
    have hanswer : hooks.guard call s = (false, (hooks.guard call s).2) := Prod.ext hcall rfl
    rw [List.nil_append, askGuards, hanswer]
    rfl
  | cons first asked ih =>
    obtain ⟨hfirst, hasked⟩ := h
    have hanswer : hooks.guard first s = (true, (hooks.guard first s).2) := Prod.ext hfirst rfl
    rw [List.cons_append, askGuards, hanswer]
    simp only [ih hasked hcall, Hooks.afterGuards, List.cons_append, List.foldl_cons]

/-- The transition that serves a request, read off the edge and its target. -/
theorem transition?_eq (m : Machine) (r : Request) (hm : m.current < m.spec.states.length) :
    m.transition? r =
      (m.spec.states[m.current].edges.find? r.isServedBy).bind fun e ↦
        m.spec.states[e.target]?.map fun target ↦
          { source := m.spec.states[m.current], edge := e, target,
            event := e.event.bind fun i ↦ m.spec.events[i]? } := by
  have hstate : m.state? = some m.spec.states[m.current] := List.getElem?_eq_getElem hm
  simp only [transition?, edge?, hstate, Option.bind_eq_bind, Option.bind_some]
  congr 1
  funext e
  cases m.spec.states[e.target]? <;> rfl

/-- One advance follows the protocol, for every specification, request and implementation of the
hooks. `guards` are all guards of the transition in protocol order and `callbacks` its callbacks in
the configured order, each with the phase, the states and the event that it is told. -/
theorem advance_follows_protocol (m : Machine) (hm : m.current < m.spec.states.length)
    (r : Request) (hooks : Hooks σ) (s : σ) :
    let source := m.spec.states[m.current]
    ((∀ e, source.edges.find? r.isServedBy = some e → m.spec.states[e.target]? = none) →
      m.advance r hooks s = ⟨.invalidTransition, m, s, []⟩) ∧
    ∀ e target, source.edges.find? r.isServedBy = some e →
      m.spec.states[e.target]? = some target →
      let event := e.event.bind fun i ↦ m.spec.events[i]?
      let calls (phase : Phase) (names : List String) : List Call :=
        names.map fun name ↦ ⟨name, ⟨phase, m.current, e.target, e.event⟩⟩
      let guards :=
        calls .exitGuard source.exitPreconditions
          ++ calls .eventGuard (event.elim [] Event.preconditions)
          ++ calls .edgeGuard e.preconditions
          ++ calls .entryGuard target.entryPreconditions
      let onEvent := calls .eventCallback (event.elim [] Event.callbacks)
      let onEnter := calls .entryCallback target.onEnter
      let callbacks :=
        calls .exitCallback source.onExit
          ++ match m.spec.callbackOrder with
            | .exitEventEntry => onEvent ++ onEnter
            | .exitEntryEvent => onEnter ++ onEvent
      (∀ asked call rest, guards = asked ++ call :: rest → hooks.Agree asked s →
        (hooks.guard call (hooks.afterGuards asked s)).1 = false →
        m.advance r hooks s =
          ⟨.precondition, m, hooks.afterGuards (asked ++ [call]) s, asked ++ [call]⟩) ∧
      (hooks.Agree guards s →
        m.advance r hooks s =
          ⟨.ok, ⟨m.spec, e.target⟩,
            callbacks.foldl (fun s call ↦ hooks.callback call s) (hooks.afterGuards guards s),
            guards ++ callbacks⟩) := by
  intro source
  have htransition := transition?_eq m r hm
  constructor
  · intro hnone
    have hrefused : m.transition? r = none := by
      rw [htransition, Option.bind_eq_none_iff]
      intro e hedge
      rw [hnone e hedge, Option.map_none]
    simp only [advance, hrefused]
  · intro e target hedge htarget event calls guards onEvent onEnter callbacks
    have htaken : m.transition? r = some ⟨source, e, target, event⟩ := by
      rw [htransition, hedge, Option.bind_some, htarget, Option.map_some]
    have hguards : m.guardCalls ⟨source, e, target, event⟩ = guards := by
      cases hevent : event <;> simp only [guardCalls, guards, hevent] <;> rfl
    have hcallbacks : m.callbackCalls ⟨source, e, target, event⟩ = callbacks := by
      cases hevent : event <;> cases horder : m.spec.callbackOrder <;>
        simp only [callbackCalls, callbacks, onEvent, hevent, horder] <;> rfl
    simp only [advance, htaken, hguards, hcallbacks]
    constructor
    · intro asked call rest hsplit hagree hrefuse
      rw [hsplit, askGuards_of_refusal hooks rest hagree hrefuse]
      rfl
    · intro hagree
      rw [askGuards_of_agree hooks hagree]
      rfl

/-- A door that asks one guard in every phase. -/
def guardedDoor : Spec where
  states :=
    [⟨"shut", [], ["unlocked"], [], ["creak"], [⟨"push", 1, some 0, ["strong"]⟩]⟩,
      ⟨"open", ["room"], [], ["lights"], [], []⟩]
  events := [⟨"push", ["awake"], ["count"]⟩]
  initial := [0]
  eventDriven := true
  callbackOrder := .exitEntryEvent
  invalidName := ""

/-- Hooks that count their calls; the guard that is asked third refuses. -/
def thirdRefuses : Hooks Nat where
  guard _ n := (n != 2, n + 1)
  callback _ n := n + 1

/-- The guard of the edge is the third one, and nothing follows its refusal. -/
theorem advance_follows_protocol_door :
    0 < guardedDoor.states.length ∧
    Machine.advance ⟨guardedDoor, 0⟩ (.event 0) thirdRefuses 0 =
      ⟨.precondition, ⟨guardedDoor, 0⟩, 3,
        [⟨"unlocked", .exitGuard, 0, 1, some 0⟩, ⟨"awake", .eventGuard, 0, 1, some 0⟩,
          ⟨"strong", .edgeGuard, 0, 1, some 0⟩]⟩ := by
  refine ⟨by decide, ?_⟩
  have hdoor := (advance_follows_protocol ⟨guardedDoor, 0⟩ (by decide) (.event 0)
    thirdRefuses 0).2 _ _ rfl rfl
  exact hdoor.1 [_, _] _ [_] rfl ⟨rfl, rfl, trivial⟩ rfl

end StateGen.Machine
