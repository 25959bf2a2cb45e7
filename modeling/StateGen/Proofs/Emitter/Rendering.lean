import StateGen.Proofs.Emitter.Namespace
import StateGen.Proofs.Model.Rejection
import StateGen.Proofs.Template.Filling
import StateGen.Proofs.Template.Trees

/-!
# Generated code and the machine that runs describe the same machine

Every section of a built-in template writes what the emitter writes for that section. So rendering
a built-in template against the namespace of a finished machine never fails, and the C source and
header are those that the emitter writes from the machine that is loaded from the namespace.
-/

namespace StateGen.Emitter

open Machine Template Template.Builtin

/-! ## Parts that occur several times -/

section

variable {env : Env} {cfg : Settings}

/-- A loop over numbered names that reads the names only. -/
private theorem writes_eachName {key value : String} {p : Path} {body : List Node}
    {names : List String} {f : String → String} (hp : p.resolve env = some (numbers names))
    (hbody : ∀ name ∈ names, ∀ number info,
      Writes (env.extend [(value, number), (key, .str name), (Renderer.loopVariable, info)]) body
        (f name)) :
    Writes env (Template.eachEntry key value p body) (each names f) := by
  have hmap := congrArg (List.map f) (List.zipIdx_map_fst 0 names)
  rw [List.map_map] at hmap
  rw [each, ← hmap]
  refine .eachEntry hp fun x hx info ↦ hbody x.1 ?_ _ info
  exact List.fst_mem_of_mem_zipIdx hx

private theorem writes_prototypes {head : List Line} {heads : List String} {type list : String}
    {names : List String} (hhead : List.Forall₂ (Line.Fills env) head heads)
    (hlist : env list = some (.ofStrings names)) :
    Writes env (SourceTree.prototypes head type list) (prototypes heads type names) := by
  have hpath : Path.resolve env ⟨list, []⟩ = _ := Path.resolve_name hlist
  refine .chooseAny hpath
    (.append (.append (.block hhead) (.each hpath fun name _ info ↦ .block ?_)) (.block ?_))
  all_goals repeat' constructor
  exact .string (by simp [Env.extend_cons])

private theorem writes_nameTable {enum table enumName : String} {names : List String}
    (henum : Shows env ⟨enum, []⟩ enumName) (htable : env table = some (numbers names)) :
    Writes env (SourceTree.nameTable enum table) (nameTable enumName names) := by
  refine .append (.append (.block ?_) (writes_eachName (Path.resolve_name htable)
    fun name _ number info ↦ .block ?_)) (.block ?_)
  all_goals repeat' first | assumption | constructor
  exact .string (by simp [Env.extend_cons])

private theorem writes_nameLookups {spec : Spec} {func safeFunc enum low high arg : String}
    {funcName safeName enumName : String} {count : Nat} (hfunc : Shows env ⟨func, []⟩ funcName)
    (hsafe : Shows env ⟨safeFunc, []⟩ safeName) (henum : Shows env ⟨enum, []⟩ enumName)
    (hlow : env low = some (.int 0)) (hhigh : env high = some (.int (count - 1 : Nat)))
    (hinvalid : env "invalid_name" = some (.str spec.invalidName)) :
    Writes env (SourceTree.nameLookups func safeFunc enum low high arg)
      (nameLookups spec funcName safeName enumName arg count) := by
  have hlow' : Shows env ⟨low, []⟩ "0" := .integer hlow
  have hhigh' : Shows env ⟨high, []⟩ (toString (count - 1)) := .integer hhigh
  have hinvalid' : Shows env ⟨"invalid_name", []⟩ spec.invalidName := .string hinvalid
  refine .block ?_
  repeat' first | assumption | constructor

private theorem writes_guardArm {key name : String} {guards : List String}
    (hname : env key = some (.str name)) (hguards : env "guards" = some (.ofStrings guards)) :
    Writes env (SourceTree.guardArm key) (guardArm name guards) := by
  have hpath : Path.resolve env ⟨"guards", []⟩ = _ := Path.resolve_name hguards
  refine .chooseAny hpath
    (.append (.append (.block ?_) (.each hpath fun guard _ info ↦ .block ?_)) (.block ?_))
  all_goals repeat' constructor
  · exact .string hname
  · exact .string (by simp [Env.extend_cons])

private theorem writes_guardFunction {α : Type} {xs : List α} {name : α → String}
    {guards : α → List String} {hook subject key table : String}
    (hstruct : Shows env ⟨"fsm_struct", []⟩ (cfg.option "fsm_struct")) (hkey : key ≠ "guards")
    (htable : env table = some (hooks xs name guards)) :
    Writes env (SourceTree.guardFunction hook subject key table)
      (guardFunction cfg hook subject xs name guards) := by
  refine .append (.append (.block ?_) (.eachEntry (Path.resolve_name htable)
    fun x _ info ↦ writes_guardArm (by simp [Env.extend_cons, hkey])
      (by simp [Env.extend_cons]))) (.block ?_)
  all_goals repeat' first | assumption | constructor

private theorem writes_callbackArm {key name : String} {callbacks : List String}
    (hname : env key = some (.str name))
    (hcallbacks : env "callbacks" = some (.ofStrings callbacks)) :
    Writes env (SourceTree.callbackArm key) (callbackArm name callbacks) := by
  have hpath : Path.resolve env ⟨"callbacks", []⟩ = _ := Path.resolve_name hcallbacks
  refine .chooseAny hpath
    (.append (.append (.block ?_) (.each hpath fun callback _ info ↦ .block ?_)) (.block ?_))
  all_goals repeat' constructor
  · exact .string hname
  · exact .string (by simp [Env.extend_cons])

private theorem writes_callbackFunction {α : Type} {xs : List α} {name : α → String}
    {callbacks : α → List String} {hook subject key table : String}
    (hstruct : Shows env ⟨"fsm_struct", []⟩ (cfg.option "fsm_struct")) (hkey : key ≠ "callbacks")
    (htable : env table = some (hooks xs name callbacks)) :
    Writes env (SourceTree.callbackFunction hook subject key table)
      (callbackFunction cfg hook subject xs name callbacks) := by
  refine .append (.append (.block ?_) (.eachEntry (Path.resolve_name htable)
    fun x _ info ↦ writes_callbackArm (by simp [Env.extend_cons, hkey])
      (by simp [Env.extend_cons]))) (.block ?_)
  all_goals repeat' first | assumption | constructor

end

/-! ## The C source -/

section

variable {root : Value} {spec : Spec} {cfg : Settings}

private theorem shows_option (h : Describes root spec cfg) {key : String}
    (hkey : key ∈ Config.keys) : Shows root.get? ⟨key, []⟩ (cfg.option key) :=
  .string (h.option key hkey)

private theorem resolve_eventDriven (h : Describes root spec cfg) :
    Path.resolve root.get? ⟨"event_driven", []⟩ = some (.ofBool spec.eventDriven) :=
  Path.resolve_name h.eventDriven

/-- A part for machines with events. -/
private theorem writes_ifEventDriven (h : Describes root spec cfg) {body : List Node} {s : String}
    (hbody : spec.eventDriven = true → Writes root.get? body s) :
    Writes root.get? (Builtin.ifEventDriven body) (ifEventDriven spec s) :=
  .choose (resolve_eventDriven h) hbody fun _ ↦ .nil

private theorem writes_sourceBanner (h : Describes root spec cfg) :
    Writes root.get? SourceTree.banner (sourceBanner cfg) := by
  have hpath : Shows root.get? ⟨"input_path", []⟩ cfg.inputPath := .string h.inputPath
  refine .block ?_
  repeat' first | assumption | constructor
  all_goals exact shows_option h (by simp [Config.keys, Config.defaults])

private theorem writes_hookMacros (h : Describes root spec cfg) :
    Writes root.get? SourceTree.hookMacros (hookMacros cfg spec) := by
  refine .append (.choose (resolve_eventDriven h) (fun _ ↦ .block ?_) (fun _ ↦ .block ?_))
    (.block ?_)
  all_goals repeat' constructor
  all_goals exact shows_option h (by simp [Config.keys, Config.defaults])

private theorem writes_struct (h : Describes root spec cfg) :
    Writes root.get? SourceTree.struct (struct cfg) := by
  refine .block ?_
  repeat' constructor
  all_goals exact shows_option h (by simp [Config.keys, Config.defaults])

private theorem writes_stateLookups (h : Describes root spec cfg) :
    Writes root.get? (SourceTree.nameLookups "state_ntop_func" "state_ntop_safe_func" "state_enum"
      "min_state_valid" "max_state_valid" "s")
      (nameLookups spec (cfg.option "state_ntop_func") (cfg.option "state_ntop_safe_func")
        (cfg.option "state_enum") "s" spec.states.length) := by
  refine writes_nameLookups ?_ ?_ ?_ h.minState h.maxState h.invalidName
  all_goals exact shows_option h (by simp [Config.keys, Config.defaults])

private theorem writes_eventLookups (h : Describes root spec cfg)
    (hdriven : spec.eventDriven = true) :
    Writes root.get? (SourceTree.nameLookups "event_ntop_func" "event_ntop_safe_func" "event_enum"
      "min_event_valid" "max_event_valid" "ev")
      (nameLookups spec (cfg.option "event_ntop_func") (cfg.option "event_ntop_safe_func")
        (cfg.option "event_enum") "ev" spec.events.length) := by
  refine writes_nameLookups ?_ ?_ ?_ (h.minEvent hdriven) (h.maxEvent hdriven) h.invalidName
  all_goals exact shows_option h (by simp [Config.keys, Config.defaults])

private theorem writes_init (h : Describes root spec cfg) :
    Writes root.get? SourceTree.init (init cfg spec) := by
  refine .append (.append (.block ?_) (.each (Path.resolve_name h.initial)
    fun name _ info ↦ .block (.cons (.put (.text _) ?_ _) .nil))) (.block ?_)
  · repeat' constructor
    all_goals exact shows_option h (by simp [Config.keys, Config.defaults])
  · exact .string (by simp [Env.extend_cons])
  · repeat' constructor

private theorem writes_accessors (h : Describes root spec cfg) :
    Writes root.get? SourceTree.accessors (accessors cfg) := by
  refine .block ?_
  repeat' constructor
  all_goals exact shows_option h (by simp [Config.keys, Config.defaults])

private theorem writes_edgeGuardArm {env : Env} {e : Edge} (hkey : env "key" = some (.str e.key))
    (hedge : env "edge" = some (edgeRecord spec e).toValue) :
    Writes env SourceTree.edgeGuardArm (edgeGuardArm e) := by
  have hpath : Path.resolve env ⟨"edge", [.key "preconds"]⟩ = _ :=
    Path.resolve_field hedge (Model.Edge.get?_preconditions _)
  refine .chooseAny hpath
    (.append (.append (.block ?_) (.each hpath fun guard _ info ↦ .block ?_)) (.block ?_))
  all_goals repeat' constructor
  · exact .string hkey
  · exact .string (by simp [Env.extend_cons])

/-- A loop over the edges of a state. -/
private theorem writes_eachEdge {env : Env} {s : State} {body : List Node} {f : Edge → String}
    (hedges : env "edges" = some (edges spec s))
    (hbody : ∀ e ∈ s.edges, ∀ env' : Env, env' "key" = some (.str e.key) →
      env' "edge" = some (edgeRecord spec e).toValue →
      (∀ name, name ≠ "key" → name ≠ "edge" → name ≠ Renderer.loopVariable → env' name = env name) →
      Writes env' body (f e)) :
    Writes env (Template.eachEntry "key" "edge" "edges" body) (each s.edges f) := by
  refine .eachEntry (Path.resolve_name hedges) fun e he info ↦ hbody e he _ ?_ ?_ ?_
  · simp [Env.extend_cons]
  · simp [Env.extend_cons]
  · intro name hkey hedge hloop
    simp [Env.extend_cons, Env.extend_nil, hkey, hedge, hloop]

/-- A loop over the states and their edges. -/
private theorem writes_eachState (h : Describes root spec cfg) {body : List Node}
    {f : State → String}
    (hbody : ∀ s ∈ spec.states, ∀ env : Env, env "state" = some (.str s.name) →
      env "edges" = some (edges spec s) → env "event_driven" = some (.ofBool spec.eventDriven) →
      Writes env body (f s)) :
    Writes root.get? (Template.eachEntry "state" "edges" "transitions" body)
      (each spec.states f) := by
  refine .eachEntry (Path.resolve_name h.transitions) fun s hs info ↦
    hbody s hs _ ?_ ?_ ?_
  · simp [Env.extend_cons]
  · simp [Env.extend_cons]
  · simp [Env.extend_cons, Env.extend_nil, h.eventDriven, Renderer.loopVariable]

private theorem writes_edgeGuardArms {env : Env} {s : State}
    (hstate : env "state" = some (.str s.name)) (hedges : env "edges" = some (edges spec s))
    (hdriven : env "event_driven" = some (.ofBool spec.eventDriven)) :
    Writes env SourceTree.edgeGuardArms (edgeGuardArms spec s) := by
  refine .append (.append (.append (.block ?_) (.choose (Path.resolve_name hdriven)
    (fun _ ↦ .block ?_) (fun _ ↦ .block ?_))) (writes_eachEdge hedges
      fun e _ env' hkey hedge _ ↦ writes_edgeGuardArm hkey hedge)) (.block ?_)
  all_goals repeat' constructor
  exact .string hstate

private theorem writes_edgeGuardFunction (h : Describes root spec cfg) :
    Writes root.get? SourceTree.edgeGuardFunction (edgeGuardFunction cfg spec) := by
  refine .append (.append (.block ?_) (writes_eachState h fun s _ env hstate hedges hdriven ↦
    writes_edgeGuardArms hstate hedges hdriven)) (.block ?_)
  all_goals repeat' constructor
  exact shows_option h (by simp [Config.keys, Config.defaults])

private theorem writes_lookupEnd {env : Env} : Writes env SourceTree.lookupEnd lookupEnd := by
  refine .block ?_
  repeat' constructor

private theorem writes_eventArm {env : Env} {s : State}
    (hstate : env "state" = some (.str s.name)) (hedges : env "edges" = some (edges spec s)) :
    Writes env SourceTree.eventArm (eventArm spec s) := by
  refine .append (.append (.block ?_)
    (writes_eachEdge hedges fun e _ env' hkey hedge _ ↦ .block ?_)) (.block ?_)
  all_goals repeat' constructor
  · exact .string hstate
  · exact .string hkey
  · exact .field hedge (Model.Edge.get?_target _)

private theorem writes_advanceByEvent (h : Describes root spec cfg) :
    Writes root.get? SourceTree.advanceByEvent (advanceByEvent cfg spec) := by
  refine .append (.append (.append (.append (.block ?_) (writes_eachState h
    fun s _ env hstate hedges _ ↦ writes_eventArm hstate hedges)) writes_lookupEnd) (.block ?_))
    (.choose (Path.resolve_name h.eventFirst) (fun _ ↦ .block ?_) (fun _ ↦ .block ?_))
  all_goals repeat' constructor
  all_goals exact shows_option h (by simp [Config.keys, Config.defaults])

private theorem writes_targetArm {env : Env} {s : State}
    (hstate : env "state" = some (.str s.name)) (hedges : env "edges" = some (edges spec s)) :
    Writes env SourceTree.targetArm (targetArm s) := by
  refine .append (.append (.block ?_)
    (writes_eachEdge hedges fun e _ env' hkey _ _ ↦ .block ?_)) (.block ?_)
  all_goals repeat' constructor
  · exact .string hstate
  · exact .string hkey

private theorem writes_advanceToTarget (h : Describes root spec cfg) :
    Writes root.get? SourceTree.advanceToTarget (advanceToTarget cfg spec) := by
  refine .append (.append (.append (.block ?_) (writes_eachState h
    fun s _ env hstate hedges _ ↦ writes_targetArm hstate hedges)) writes_lookupEnd) (.block ?_)
  all_goals repeat' constructor
  all_goals exact shows_option h (by simp [Config.keys, Config.defaults])

private theorem writes_advance (h : Describes root spec cfg) :
    Writes root.get? SourceTree.advance (advance cfg spec) := by
  refine .append (.append (.block ?_) (.choose (resolve_eventDriven h)
    (fun _ ↦ writes_advanceByEvent h) (fun _ ↦ writes_advanceToTarget h))) (.block ?_)
  all_goals repeat' constructor

/-- The tree of the C source writes what the emitter writes. -/
theorem writes_source (h : Describes root spec cfg) :
    Writes root.get? sourceTree (source cfg spec) := by
  have hstruct : Shows root.get? ⟨"fsm_struct", []⟩ _ :=
    shows_option h (by simp [Config.keys, Config.defaults])
  have hstates : Shows root.get? ⟨"state_enum", []⟩ _ :=
    shows_option h (by simp [Config.keys, Config.defaults])
  have hevents : Shows root.get? ⟨"event_enum", []⟩ _ :=
    shows_option h (by simp [Config.keys, Config.defaults])
  exact writes_sourceBanner h
    |>.append (writes_hookMacros h)
    |>.append (writes_prototypes (.cons (.text _) .nil) h.guardNames)
    |>.append (writes_prototypes .nil h.callbackNames)
    |>.append (writes_struct h)
    |>.append (writes_nameTable hstates h.states)
    |>.append (writes_ifEventDriven h fun hd ↦ writes_nameTable hevents (h.events hd))
    |>.append (writes_stateLookups h)
    |>.append (writes_ifEventDriven h fun hd ↦ writes_eventLookups h hd)
    |>.append (writes_init h)
    |>.append (writes_accessors h)
    |>.append (writes_guardFunction hstruct (by simp) h.exitGuards)
    |>.append (writes_ifEventDriven h fun _ ↦
      writes_guardFunction hstruct (by simp) h.eventGuards)
    |>.append (writes_edgeGuardFunction h)
    |>.append (writes_guardFunction hstruct (by simp) h.entryGuards)
    |>.append (writes_callbackFunction hstruct (by simp) h.exitCallbacks)
    |>.append (writes_ifEventDriven h fun _ ↦
      writes_callbackFunction hstruct (by simp) h.eventCallbacks)
    |>.append (writes_callbackFunction hstruct (by simp) h.entryCallbacks)
    |>.append (writes_advance h)

/-! ## The C header -/

private theorem writes_headerBanner (h : Describes root spec cfg) :
    Writes root.get? HeaderTree.banner (headerBanner cfg) := by
  have hpath : Shows root.get? ⟨"input_path", []⟩ cfg.inputPath := .string h.inputPath
  have hok : Shows root.get? ⟨"status_ok", []⟩ _ := .integer (h.status .ok)
  have hstate : Shows root.get? ⟨"status_invalid_state", []⟩ _ := .integer (h.status .invalidState)
  have htransition : Shows root.get? ⟨"status_invalid_transition", []⟩ _ :=
    .integer (h.status .invalidTransition)
  have hguard : Shows root.get? ⟨"status_precondition", []⟩ _ := .integer (h.status .precondition)
  refine .block ?_
  repeat' first | assumption | constructor
  all_goals exact shows_option h (by simp [Config.keys, Config.defaults])

private theorem writes_enumeration {env : Env} {enum table enumName : String} {names : List String}
    (henum : Shows env ⟨enum, []⟩ enumName) (htable : env table = some (numbers names)) :
    Writes env (HeaderTree.enumeration enum table) (enumeration enumName names) := by
  refine .append (.append (.block ?_) (.eachEntry (Path.resolve_name htable)
    fun x _ info ↦ .block ?_)) (.block ?_)
  all_goals repeat' first | assumption | constructor
  · exact .string (by simp [Env.extend_cons])
  · exact .integer (n := x.2) (by simp [Env.extend_cons])

private theorem writes_interface (h : Describes root spec cfg) :
    Writes root.get? HeaderTree.interface (interface cfg spec) := by
  refine .append (.block ?_)
    (.choose (resolve_eventDriven h) (fun _ ↦ .block ?_) (fun _ ↦ .block ?_))
  all_goals repeat' constructor
  all_goals exact shows_option h (by simp [Config.keys, Config.defaults])

private theorem writes_lookupPrototypes (h : Describes root spec cfg) :
    Writes root.get? HeaderTree.nameLookups (lookupPrototypes cfg spec) := by
  have hinvalid : Shows root.get? ⟨"invalid_name", []⟩ spec.invalidName := .string h.invalidName
  refine .append (.append (.block ?_) (writes_ifEventDriven h fun _ ↦ .block ?_)) (.block ?_)
  all_goals repeat' first | assumption | constructor
  all_goals exact shows_option h (by simp [Config.keys, Config.defaults])

/-- The tree of the C header writes what the emitter writes. -/
theorem writes_header (h : Describes root spec cfg) :
    Writes root.get? headerTree (header cfg spec) := by
  have hstates : Shows root.get? ⟨"state_enum", []⟩ _ :=
    shows_option h (by simp [Config.keys, Config.defaults])
  have hevents : Shows root.get? ⟨"event_enum", []⟩ _ :=
    shows_option h (by simp [Config.keys, Config.defaults])
  exact writes_headerBanner h
    |>.append (writes_enumeration hstates h.states)
    |>.append (writes_ifEventDriven h fun hd ↦ writes_enumeration hevents (h.events hd))
    |>.append (writes_interface h)
    |>.append (writes_lookupPrototypes h)

/-! ## The diagram -/

private theorem writes_arrow {env : Env} {s : State} {e : Edge}
    (hstate : env "state" = some (.str s.name))
    (hdriven : env "event_driven" = some (.ofBool spec.eventDriven))
    (hedge : env "edge" = some (edgeRecord spec e).toValue)
    (hevent : spec.eventDriven = true → (edgeRecord spec e).event = some e.key) :
    Writes env Builtin.arrow (arrow spec s e) := by
  have hsource : Shows env ⟨"state", []⟩ s.name := .string hstate
  have htarget : Shows env ⟨"edge", [.key "target"]⟩ (spec.stateNameD e.target) :=
    .field hedge (Model.Edge.get?_target _)
  refine .choose (Path.resolve_name hdriven) (fun hd ↦ .block ?_) (fun _ ↦ .block ?_)
  · have hlabel : Shows env ⟨"edge", [.key "event"]⟩ e.key := by
      refine .field hedge ?_
      rw [Model.Edge.get?_event, hevent hd, Option.map_some]
    repeat' first | assumption | constructor
  · repeat' first | assumption | constructor

private theorem writes_arrows (h : Describes root spec cfg) :
    Writes root.get? (Template.eachEntry "state" "edges" "transitions"
      (Template.eachEntry "key" "edge" "edges" Builtin.arrow))
      (each spec.states fun s ↦ each s.edges (arrow spec s)) := by
  refine writes_eachState h fun s hs env hstate hedges hdriven ↦
    writes_eachEdge hedges fun e he env' _ hedge hrest ↦
      writes_arrow ?_ ?_ hedge fun hd ↦ h.edgeEvent hd s hs e he
  · rw [hrest _ (by simp) (by simp) (by simp [Renderer.loopVariable]), hstate]
  · rw [hrest _ (by simp) (by simp) (by simp [Renderer.loopVariable]), hdriven]

/-- The tree of the diagram writes what the emitter writes. -/
theorem writes_graphviz (h : Describes root spec cfg) :
    Writes root.get? graphvizTree (graphviz cfg spec) := by
  have hpath : Shows root.get? ⟨"input_path", []⟩ cfg.inputPath := .string h.inputPath
  have hstruct : Shows root.get? ⟨"fsm_struct", []⟩ _ :=
    shows_option h (by simp [Config.keys, Config.defaults])
  refine .append (.append (.append (.append (.append (.block ?_)
    (.each (Path.resolve_name h.initial) fun name _ info ↦ .block ?_))
    (writes_eachName (Path.resolve_name h.states) fun name _ number info ↦ .block ?_))
    (.block ?_)) (writes_arrows h)) (.block ?_)
  all_goals repeat' first | assumption | constructor
  all_goals exact .string (by simp [Env.extend_cons])

end

/-! ## Finished machines -/

section

variable {inputPath : String} {ds : List Declaration} {ns : Namespace}

private theorem stateNames_ne_nil_of_check (h : (Model.declaredBy inputPath ds).check = .ok ()) :
    Declaration.stateNames ds ≠ [] := by
  intro hnil
  have hsize : (Model.declaredBy inputPath ds).states.size = 0 := by
    simp [Model.declaredBy, hnil]
  rw [Model.check, hsize] at h
  cases h

/-- The namespace of a finished machine is the one of its accepted declarations, and has the entries
of the machine that they declare. -/
theorem describes_accepted (h : ((Model.initial inputPath).applyEach ds).finalize = .ok ns) :
    let accepted := (Model.initial inputPath).accepted ds
    Model.Publishes ns.root inputPath accepted ∧
      Spec.ofNamespace ns.root = .ok (Spec.declaredBy accepted) ∧
      Describes ns.root (Spec.declaredBy accepted) (.ofNamespace ns.root) := by
  intro accepted
  have hc : Declaration.Consistent accepted := (Model.acceptable_accepted inputPath ds).consistent
  rw [Model.applyEach_eq_declaredBy] at h
  obtain ⟨hcheck, rfl⟩ := Model.finalize_eq_ok_iff.1 h
  have hp : Model.Publishes (Model.declaredBy inputPath accepted).publish.root inputPath accepted :=
    Model.publishes_declaredBy
  exact ⟨hp, ofNamespace_eq_declaredBy hc hp,
    describes_of_publishes hc (stateNames_ne_nil_of_check hcheck) hp⟩

/-- Whatever was declared and whatever of it was rejected, the namespace of a finished machine has
the entries of the machine that is loaded from it. -/
theorem describes_of_finalize (h : ((Model.initial inputPath).applyEach ds).finalize = .ok ns) :
    ∃ spec, Spec.ofNamespace ns.root = .ok spec ∧
      Describes ns.root spec (.ofNamespace ns.root) := by
  obtain ⟨-, hspec, hd⟩ := describes_accepted h
  exact ⟨_, hspec, hd⟩

/-- A template whose lines spell a tree renders to what the tree writes. -/
private theorem render_result {text : String} {ls : List String} {tree : List Node} {s : String}
    (name : String) (htext : text = lines ls) (hspells : Spells tree ls [])
    (hwrites : Writes ns.root.get? tree s) :
    ∃ t, parse name text = .ok t ∧ ∀ written,
      (t.render ns.root { written }).result = .ok (written.toList ++ Utf8.encode s) := by
  obtain ⟨t, hparse, hrender⟩ := hspells.render name
  refine ⟨t, by rw [htext, hparse], fun written ↦ ?_⟩
  obtain ⟨houtput, hfailure⟩ := hrender ns.root written s hwrites
  rw [Rendering.result, hfailure, houtput]

/-- The C source is what the emitter writes. -/
theorem render_source {spec : Spec} {cfg : Settings} (name : String)
    (hd : Describes ns.root spec cfg) :
    ∃ t, parse name Builtin.source = .ok t ∧ ∀ written,
      (t.render ns.root { written }).result =
        .ok (written.toList ++ Utf8.encode (source cfg spec)) :=
  render_result name rfl spells_sourceTree (writes_source hd)

private theorem render_header {spec : Spec} {cfg : Settings} (name : String)
    (hd : Describes ns.root spec cfg) :
    ∃ t, parse name Builtin.header = .ok t ∧ ∀ written,
      (t.render ns.root { written }).result =
        .ok (written.toList ++ Utf8.encode (header cfg spec)) :=
  render_result name rfl spells_headerTree (writes_header hd)

/-- The diagram is what the emitter writes. -/
theorem render_graphviz {spec : Spec} {cfg : Settings} (name : String)
    (hd : Describes ns.root spec cfg) :
    ∃ t, parse name Builtin.graphviz = .ok t ∧ ∀ written,
      (t.render ns.root { written }).result =
        .ok (written.toList ++ Utf8.encode (graphviz cfg spec)) :=
  render_result name rfl spells_graphvizTree (writes_graphviz hd)

/-- Built-in templates never fail on a finished machine. -/
theorem render_builtin_of_finalize
    (h : ((Model.initial inputPath).applyEach ds).finalize = .ok ns) :
    ∀ builtin ∈ Builtin.all, ∃ t, parse builtin.1 builtin.2 = .ok t ∧
      ∀ written, ∃ output, (t.render ns.root { written }).result = .ok output := by
  obtain ⟨spec, -, hd⟩ := describes_of_finalize h
  intro builtin hbuiltin
  simp only [Builtin.all, List.mem_cons, List.not_mem_nil, or_false] at hbuiltin
  rcases hbuiltin with rfl | rfl | rfl <;> dsimp only
  · obtain ⟨t, hparse, hresult⟩ := render_source "source.m" hd
    exact ⟨t, hparse, fun written ↦ ⟨_, hresult written⟩⟩
  · obtain ⟨t, hparse, hresult⟩ := render_header "header.m" hd
    exact ⟨t, hparse, fun written ↦ ⟨_, hresult written⟩⟩
  · obtain ⟨t, hparse, hresult⟩ := render_graphviz "graphviz.m" hd
    exact ⟨t, hparse, fun written ↦ ⟨_, hresult written⟩⟩

/-- The templates render for the lamp, also if a state is declared to be initial too early and
another one twice. -/
theorem render_builtin_of_finalize_lamp :
    ∃ ns, ((Model.initial "lamp.fsm").applyEach
        (⟨.initial "on", .none⟩ :: lamp ++ [⟨.state "off", .none⟩])).finalize = .ok ns ∧
      ∀ builtin ∈ Builtin.all, ∃ t, parse builtin.1 builtin.2 = .ok t ∧
        ∀ written, ∃ output, (t.render ns.root { written }).result = .ok output := by
  have hfinalize : ∃ ns, ((Model.initial "lamp.fsm").applyEach
      (⟨.initial "on", .none⟩ :: lamp ++ [⟨.state "off", .none⟩])).finalize = .ok ns := ⟨_, rfl⟩
  obtain ⟨ns, hns⟩ := hfinalize
  exact ⟨ns, hns, render_builtin_of_finalize hns⟩

/-- The C source and the C header of a finished machine are those that the emitter writes from the
machine that is loaded from the namespace. -/
theorem render_eq_emitter_of_finalize
    (h : ((Model.initial inputPath).applyEach ds).finalize = .ok ns) :
    ∃ spec, Spec.ofNamespace ns.root = .ok spec ∧
      (∃ t, parse "source.m" Builtin.source = .ok t ∧
        (t.render ns.root {}).result =
          .ok (Utf8.encode (source (.ofNamespace ns.root) spec))) ∧
      ∃ t, parse "header.m" Builtin.header = .ok t ∧
        (t.render ns.root {}).result =
          .ok (Utf8.encode (header (.ofNamespace ns.root) spec)) := by
  obtain ⟨spec, hspec, hd⟩ := describes_of_finalize h
  obtain ⟨t, ht, hsource⟩ := render_source "source.m" hd
  obtain ⟨u, hu, hheader⟩ := render_header "header.m" hd
  refine ⟨spec, hspec, ⟨t, ht, ?_⟩, u, hu, ?_⟩
  · rw [hsource #[], Array.toList_empty, List.nil_append]
  · rw [hheader #[], Array.toList_empty, List.nil_append]

/-- A gate that moves without events. -/
private def gate : List Declaration :=
  [⟨.state "shut", .none⟩, ⟨.state "open", .none⟩, ⟨.initial "shut", .none⟩,
    ⟨.transition "shut" none "open", .none⟩, ⟨.transition "open" none "shut", .none⟩,
    ⟨.precondition (.transition "shut" "open") "unlocked", .none⟩]

/-- The emitter writes the C source and the C header of the gate. -/
theorem render_eq_emitter_of_finalize_gate :
    ∃ ns, ((Model.initial "gate.fsm").applyEach gate).finalize = .ok ns ∧
      ∃ spec, Spec.ofNamespace ns.root = .ok spec ∧
        (∃ t, parse "source.m" Builtin.source = .ok t ∧
          (t.render ns.root {}).result =
            .ok (Utf8.encode (source (.ofNamespace ns.root) spec))) ∧
        ∃ t, parse "header.m" Builtin.header = .ok t ∧
          (t.render ns.root {}).result =
            .ok (Utf8.encode (header (.ofNamespace ns.root) spec)) := by
  have hfinalize : ∃ ns, ((Model.initial "gate.fsm").applyEach gate).finalize = .ok ns := ⟨_, rfl⟩
  obtain ⟨ns, hns⟩ := hfinalize
  exact ⟨ns, hns, render_eq_emitter_of_finalize hns⟩

end

end StateGen.Emitter
