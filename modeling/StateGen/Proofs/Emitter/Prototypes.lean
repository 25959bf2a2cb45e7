import StateGen.Proofs.Emitter.Rendering
import StateGen.Proofs.HookLists

/-!
# The C source declares the hooks that it calls

The prototypes of the C source come from the lists of hooks, its calls from the tables. Since the
lists are exact, every hook that is called is declared once, with the type of its kind, and every
prototype is of a hook that is called.
-/

namespace StateGen.Emitter

open Declaration Machine
open Template (lines)

/-! ## Hooks that are called -/

/-- The guards that the functions of the C source ask. -/
def guardsAsked (spec : Spec) : List String :=
  spec.states.flatMap State.exitPreconditions
  ++ (if spec.eventDriven then spec.events.flatMap Event.preconditions else [])
  ++ spec.states.flatMap (fun s ↦ s.edges.flatMap Edge.preconditions)
  ++ spec.states.flatMap State.entryPreconditions

/-- The callbacks that the functions of the C source run. -/
def callbacksRun (spec : Spec) : List String :=
  spec.states.flatMap State.onExit
  ++ (if spec.eventDriven then spec.events.flatMap Event.callbacks else [])
  ++ spec.states.flatMap State.onEnter

section

variable {ds : List Declaration} {name : String}

/-- Without events the functions for them are left out, and there is nothing to call. -/
private theorem ite_eventDriven (f : Event → List String) :
    (if (Spec.declaredBy ds).eventDriven then (Spec.declaredBy ds).events.flatMap f else []) =
      (eventNames ds).flatMap fun e ↦ f (Event.declaredBy ds e) := by
  cases h : eventNames ds <;> simp [Spec.declaredBy, h, List.flatMap_map]

private theorem mem_guardsAsked_iff (hc : Consistent ds) :
    name ∈ guardsAsked (Spec.declaredBy ds) ↔ name ∈ guardUses ds := by
  rw [hc.mem_guardUses_iff, guardsAsked, ite_eventDriven]
  simp only [Spec.declaredBy, State.declaredBy, Event.declaredBy, Edge.declaredBy,
    List.flatMap_map, List.mem_append, List.mem_flatMap]
  -- The functions come in another order than the tables.
  grind

private theorem mem_callbacksRun_iff (ha : Acceptable ds) :
    name ∈ callbacksRun (Spec.declaredBy ds) ↔ name ∈ callbackUses ds := by
  rw [ha.mem_callbackUses_iff, callbacksRun, ite_eventDriven]
  simp only [Spec.declaredBy, State.declaredBy, Event.declaredBy, List.flatMap_map,
    List.mem_append, List.mem_flatMap]
  grind

end

/-! ## Pieces of the text -/

/-- A piece of text stands somewhere in another text. -/
def Occurs (piece text : String) : Prop := piece.toList <:+: text.toList

namespace Occurs

variable {piece s : String}

theorem refl (s : String) : Occurs s s := List.infix_rfl

theorem append_left (h : Occurs piece s) (rest : String) : Occurs piece (s ++ rest) := by
  rw [Occurs, String.toList_append]
  exact h.trans (List.infix_append' [] ..)

theorem append_right (h : Occurs piece s) (front : String) : Occurs piece (front ++ s) := by
  rw [Occurs, String.toList_append]
  exact h.trans (List.suffix_append ..).isInfix

section

variable {α : Type} {xs : List α} {f : α → String} {x : α} (hx : x ∈ xs) (h : Occurs piece (f x))
include hx h

/-- What stands in the text of an element stands in the texts of all of them. -/
theorem each : Occurs piece (each xs f) := by
  induction xs with
  | nil => cases hx
  | cons y ys ih =>
    rw [Emitter.each, List.map_cons, String.join_cons]
    rcases List.mem_cons.1 hx with rfl | hx
    · exact h.append_left _
    · exact (ih hx).append_right _

theorem between (front rest : String) : Occurs piece (front ++ Emitter.each xs f ++ rest) :=
  .append_left (.append_right (each hx h) front) rest

/-- A text that is left out without elements is there if there is one. -/
theorem unlessEmpty (front rest : String) :
    Occurs piece (if xs.isEmpty then "" else front ++ Emitter.each xs f ++ rest) := by
  have hsome : ¬ xs.isEmpty := by simpa using List.ne_nil_of_mem hx
  rw [if_neg hsome]
  exact between hx h front rest

end

theorem lines {ls : List String} {l : String} (hl : l ∈ ls) (h : Occurs piece l) :
    Occurs piece (lines ls) :=
  each hl (h.append_left "\n")

end Occurs

/-! ## Prototypes and calls in the text -/

/-- The prototype of a hook of a type. -/
def prototype (type name : String) : String := type ++ name ++ "(HOOK_PARAMS);"

/-- The test that asks a guard. -/
def guardCall (name : String) : String := name ++ "(HOOK_ARGS) != 0)"

/-- The statement that runs a callback. -/
def callbackCall (name : String) : String := name ++ "(HOOK_ARGS);"

section

variable {cfg : Settings} {spec : Spec} {name : String}

private theorem occurs_prototypes {head names : List String} {type : String} (h : name ∈ names) :
    Occurs (prototype type name) (prototypes head type names) := by
  rw [prototypes]
  refine .unlessEmpty h ?_ _ _
  exact .lines List.mem_cons_self (.refl _)

/-- The call of a hook stands in its line, behind the indentation. -/
private theorem occurs_call (front name rest : String) :
    Occurs (name ++ rest) (front ++ name ++ rest) := by
  rw [String.append_assoc]
  exact (Occurs.refl _).append_right front

private theorem occurs_guardFunction {α : Type} {hook subject : String} {xs : List α}
    {label : α → String} {guards : α → List String} (h : name ∈ xs.flatMap guards) :
    Occurs (guardCall name) (guardFunction cfg hook subject xs label guards) := by
  obtain ⟨x, hx, hname⟩ := List.mem_flatMap.1 h
  have harm : Occurs (guardCall name) (guardArm (label x) (guards x)) := by
    rw [guardArm]
    refine .unlessEmpty hname ?_ _ _
    exact .lines List.mem_cons_self (occurs_call ..)
  rw [guardFunction]
  refine .between hx ?_ _ _
  exact harm

private theorem occurs_edgeGuardFunction
    (h : name ∈ spec.states.flatMap fun s ↦ s.edges.flatMap Edge.preconditions) :
    Occurs (guardCall name) (edgeGuardFunction cfg spec) := by
  obtain ⟨s, hs, h⟩ := List.mem_flatMap.1 h
  obtain ⟨e, he, hname⟩ := List.mem_flatMap.1 h
  have harm : Occurs (guardCall name) (edgeGuardArm e) := by
    rw [edgeGuardArm]
    refine .unlessEmpty hname ?_ _ _
    exact .lines List.mem_cons_self (occurs_call ..)
  have harms : Occurs (guardCall name) (edgeGuardArms spec s) := by
    rw [edgeGuardArms]
    refine .between he ?_ _ _
    exact harm
  rw [edgeGuardFunction]
  refine .between hs ?_ _ _
  exact harms

private theorem occurs_callbackFunction {α : Type} {hook subject : String} {xs : List α}
    {label : α → String} {callbacks : α → List String} (h : name ∈ xs.flatMap callbacks) :
    Occurs (callbackCall name) (callbackFunction cfg hook subject xs label callbacks) := by
  obtain ⟨x, hx, hname⟩ := List.mem_flatMap.1 h
  have harm : Occurs (callbackCall name) (callbackArm (label x) (callbacks x)) := by
    rw [callbackArm]
    refine .unlessEmpty hname ?_ _ _
    exact .lines List.mem_cons_self (occurs_call ..)
  rw [callbackFunction]
  refine .between hx ?_ _ _
  exact harm

private theorem occurs_ifEventDriven {piece text : String} {hooks : List String}
    (h : name ∈ if spec.eventDriven then hooks else [])
    (htext : name ∈ hooks → Occurs piece text) : Occurs piece (ifEventDriven spec text) := by
  rw [ifEventDriven]
  split
  · next hdriven =>
    rw [if_pos hdriven] at h
    exact htext h
  · next hdriven =>
    rw [if_neg hdriven] at h
    cases h

/-- The test of every guard that is asked stands in one of the functions that ask guards. -/
theorem occurs_guardCall (h : name ∈ guardsAsked spec) :
    Occurs (guardCall name) (source cfg spec) := by
  simp only [guardsAsked, List.mem_append] at h
  unfold source
  -- The functions are counted from the end of the source.
  rcases h with ((h | h) | h) | h
  · iterate 7 refine .append_left ?_ _
    exact (occurs_guardFunction h).append_right _
  · iterate 6 refine .append_left ?_ _
    exact (occurs_ifEventDriven h occurs_guardFunction).append_right _
  · iterate 5 refine .append_left ?_ _
    exact (occurs_edgeGuardFunction h).append_right _
  · iterate 4 refine .append_left ?_ _
    exact (occurs_guardFunction h).append_right _

/-- The statement for every callback that is run stands in one of the functions that run
callbacks. -/
theorem occurs_callbackCall (h : name ∈ callbacksRun spec) :
    Occurs (callbackCall name) (source cfg spec) := by
  simp only [callbacksRun, List.mem_append] at h
  unfold source
  rcases h with (h | h) | h
  · iterate 3 refine .append_left ?_ _
    exact (occurs_callbackFunction h).append_right _
  · iterate 2 refine .append_left ?_ _
    exact (occurs_ifEventDriven h occurs_callbackFunction).append_right _
  · refine .append_left ?_ _
    exact (occurs_callbackFunction h).append_right _

theorem occurs_prototype_guard (h : name ∈ cfg.guardNames) :
    Occurs (prototype "int " name) (source cfg spec) := by
  unfold source
  iterate 16 refine .append_left ?_ _
  exact (occurs_prototypes h).append_right _

theorem occurs_prototype_callback (h : name ∈ cfg.callbackNames) :
    Occurs (prototype "void " name) (source cfg spec) := by
  unfold source
  iterate 15 refine .append_left ?_ _
  exact (occurs_prototypes h).append_right _

end

/-! ## Finished machines -/

/-- The C source of a machine has a prototype exactly for the hooks that its functions call: a guard
gives an `int`, a callback nothing. -/
structure DeclaresCalls (cfg : Settings) (spec : Spec) : Prop where
  mem_guardNames_iff : ∀ name, name ∈ cfg.guardNames ↔ name ∈ guardsAsked spec
  mem_callbackNames_iff : ∀ name, name ∈ cfg.callbackNames ↔ name ∈ callbacksRun spec
  guard : ∀ name ∈ guardsAsked spec,
    Occurs (prototype "int " name) (source cfg spec) ∧ Occurs (guardCall name) (source cfg spec)
  callback : ∀ name ∈ callbacksRun spec,
    Occurs (prototype "void " name) (source cfg spec) ∧
      Occurs (callbackCall name) (source cfg spec)

section

variable {inputPath : String} {ds : List Declaration} {ns : Namespace}

/-- Whatever was declared and whatever of it was rejected, the lists of hooks of a finished machine
are exact. The C source prints each list as prototypes, and these are the hooks that it calls. -/
theorem prototypes_are_exact (h : ((Model.initial inputPath).applyEach ds).finalize = .ok ns) :
    let cfg := Settings.ofNamespace ns.root
    ∃ guards callbacks, ns.ListsHooks ((Model.initial inputPath).accepted ds) guards callbacks ∧
      cfg.guardNames = guards ∧ cfg.callbackNames = callbacks ∧
      ∃ spec t, Spec.ofNamespace ns.root = .ok spec ∧
        Template.parse "source.m" Template.Builtin.source = .ok t ∧
        (t.render ns.root {}).result = .ok (Utf8.encode (source cfg spec)) ∧
        DeclaresCalls cfg spec := by
  intro cfg
  have ha : Acceptable ((Model.initial inputPath).accepted ds) :=
    Model.acceptable_accepted inputPath ds
  obtain ⟨hp, hspec, hd⟩ := describes_accepted h
  have hlists := Namespace.listsHooks_of_publishes ha hp
  have hguardNames := namesAt_eq hlists.guardNames
  have hcallbackNames := namesAt_eq hlists.callbackNames
  obtain ⟨t, ht, hresult⟩ := render_source "source.m" hd
  refine ⟨_, _, hlists, hguardNames, hcallbackNames, _, t, hspec, ht, ?_, ?_⟩
  · rw [hresult #[], Array.toList_empty, List.nil_append]
  have hguards (name : String) : name ∈ cfg.guardNames ↔
      name ∈ guardsAsked (Spec.declaredBy ((Model.initial inputPath).accepted ds)) := by
    rw [mem_guardsAsked_iff ha.consistent, ← hlists.guards_first.mem_iff, ← hguardNames]
    rfl
  have hcallbacks (name : String) : name ∈ cfg.callbackNames ↔
      name ∈ callbacksRun (Spec.declaredBy ((Model.initial inputPath).accepted ds)) := by
    rw [mem_callbacksRun_iff ha, ← hlists.callbacks_first.mem_iff, ← hcallbackNames]
    rfl
  exact
    { mem_guardNames_iff := hguards
      mem_callbackNames_iff := hcallbacks
      guard := fun name hname ↦
        ⟨occurs_prototype_guard ((hguards name).2 hname), occurs_guardCall hname⟩
      callback := fun name hname ↦
        ⟨occurs_prototype_callback ((hcallbacks name).2 hname), occurs_callbackCall hname⟩ }

/-- A hatch. A guard of a state that does not exist and a callback with the name of a guard are
rejected. -/
private def hatch : List Declaration :=
  [⟨.state "shut", .none⟩, ⟨.state "open", .none⟩, ⟨.initial "shut", .none⟩,
    ⟨.transition "shut" none "open", .none⟩, ⟨.precondition (.entry "ajar") "early", .none⟩,
    ⟨.precondition (.transition "shut" "open") "safe", .none⟩,
    ⟨.callback (.entry "open") "safe", .none⟩, ⟨.callback (.entry "open") "ring", .none⟩,
    ⟨.precondition (.entry "open") "calm", .none⟩, ⟨.precondition (.exit "shut") "safe", .none⟩]

/-- The hatch has two guards and a callback, and its C source calls these and no others. -/
theorem prototypes_are_exact_hatch :
    ∃ ns, ((Model.initial "hatch.fsm").applyEach hatch).finalize = .ok ns ∧
      ns.ListsHooks ((Model.initial "hatch.fsm").accepted hatch) ["safe", "calm"] ["ring"] ∧
      ∃ spec t, Spec.ofNamespace ns.root = .ok spec ∧
        Template.parse "source.m" Template.Builtin.source = .ok t ∧
        (t.render ns.root {}).result =
          .ok (Utf8.encode (source (.ofNamespace ns.root) spec)) ∧
        (∀ name, name ∈ ["safe", "calm"] ↔ name ∈ guardsAsked spec) ∧
        ∀ name, name ∈ ["ring"] ↔ name ∈ callbacksRun spec := by
  have hfinalize : ∃ ns, ((Model.initial "hatch.fsm").applyEach hatch).finalize = .ok ns ∧
      ns.root.get? "precondition_names" = some (.ofStrings ["safe", "calm"]) ∧
      ns.root.get? "callback_names" = some (.ofStrings ["ring"]) := ⟨_, rfl, rfl, rfl⟩
  obtain ⟨ns, hns, hguardNames, hcallbackNames⟩ := hfinalize
  obtain ⟨guards, callbacks, hlists, hguards, hcallbacks, spec, t, hspec, ht, hresult, hcalls⟩ :=
    prototypes_are_exact hns
  obtain rfl : guards = ["safe", "calm"] :=
    (namesAt_eq hlists.guardNames).symm.trans (namesAt_eq hguardNames)
  obtain rfl : callbacks = ["ring"] :=
    (namesAt_eq hlists.callbackNames).symm.trans (namesAt_eq hcallbackNames)
  exact ⟨ns, hns, hlists, spec, t, hspec, ht, hresult, hguards ▸ hcalls.mem_guardNames_iff,
    hcallbacks ▸ hcalls.mem_callbackNames_iff⟩

end

end StateGen.Emitter
