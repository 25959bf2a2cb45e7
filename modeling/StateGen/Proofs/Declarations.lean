import StateGen.Config
import StateGen.Declaration

/-!
# Reading a list of declarations

What a list of declarations says, read off without building anything: the states are the names
declared as states, in order; the edges of a state are the transitions declared from it; the hooks
of a target are those attached to it. Declarations are `Consistent` if names are declared once and
every name that they use was declared, and they stay so under a declaration that `Fits` them.
-/

namespace StateGen

namespace Declaration

/-- An edge as a declaration gives it. -/
structure Link where
  event : Option String
  target : String
deriving DecidableEq

/-- The event of an edge, or the target of a direct edge. -/
def Link.key (e : Link) : String := e.event.getD e.target

namespace Kind

/-- The state that is declared. -/
@[simp]
def stateName? : Kind → Option String
  | .state name => some name
  | _ => none

/-- The event that is declared. -/
@[simp]
def eventName? : Kind → Option String
  | .event name => some name
  | _ => none

/-- The state that is declared to be initial. -/
@[simp]
def initialName? : Kind → Option String
  | .initial name => some name
  | _ => none

/-- The edge that is declared from a state. -/
@[simp]
def linkFrom? (source : String) : Kind → Option Link
  | .transition s trigger target => if s = source then some ⟨trigger, target⟩ else none
  | _ => none

/-- The guard that is attached to a target. -/
@[simp]
def guardOn? (target : HookTarget) : Kind → Option String
  | .precondition t name => if t = target then some name else none
  | _ => none

/-- The callback that is attached to a target. -/
@[simp]
def callbackOn? (target : HookTarget) : Kind → Option String
  | .callback t name => if t = target then some name else none
  | _ => none

/-- The guard that is attached to anything. -/
@[simp]
def guardName? : Kind → Option String
  | .precondition _ name => some name
  | _ => none

/-- The callback that is attached to anything. -/
@[simp]
def callbackName? : Kind → Option String
  | .callback _ name => some name
  | _ => none

/-- The value that an option is set to. -/
@[simp]
def optionValue? (key : String) : Kind → Option String
  | .config k value => if k = key then some value else none
  | _ => none

/-- Whether an edge is declared. -/
@[simp]
def isTransition : Kind → Bool
  | .transition .. => true
  | _ => false

end Kind

/-- The states in the order of their declarations. -/
def stateNames (ds : List Declaration) : List String := ds.filterMap (·.kind.stateName?)

/-- The events in the order of their declarations. -/
def eventNames (ds : List Declaration) : List String := ds.filterMap (·.kind.eventName?)

/-- The initial states in the order of their declarations. -/
def initialNames (ds : List Declaration) : List String := ds.filterMap (·.kind.initialName?)

/-- The edges of a state in the order of their declarations. -/
def linksFrom (ds : List Declaration) (source : String) : List Link :=
  ds.filterMap (·.kind.linkFrom? source)

/-- The guards of a target in the order in which they were attached. -/
def guardsOn (ds : List Declaration) (target : HookTarget) : List String :=
  ds.filterMap (·.kind.guardOn? target)

/-- The callbacks of a target in the order in which they were attached. -/
def callbacksOn (ds : List Declaration) (target : HookTarget) : List String :=
  ds.filterMap (·.kind.callbackOn? target)

/-- The guards in the order of their attachments. -/
def guardUses (ds : List Declaration) : List String := ds.filterMap (·.kind.guardName?)

/-- The callbacks in the order of their attachments. -/
def callbackUses (ds : List Declaration) : List String := ds.filterMap (·.kind.callbackName?)

/-- Whether there is an edge. -/
def hasLink (ds : List Declaration) : Bool := ds.any (·.kind.isTransition)

/-- The value to which an option was set last. -/
def lastOption (ds : List Declaration) (key : String) : Option String :=
  (ds.filterMap (·.kind.optionValue? key)).getLast?

/-- What a hook is attached to is among the declarations. -/
def Declares (ds : List Declaration) : HookTarget → Prop
  | .entry state | .exit state => state ∈ stateNames ds
  | .event event => event ∈ eventNames ds
  | .transition source via => ∃ e ∈ linksFrom ds source, e.key = via

/-- A guard is used where it is attached to something. -/
theorem mem_guardUses_iff {ds : List Declaration} {name : String} :
    name ∈ guardUses ds ↔ ∃ target, name ∈ guardsOn ds target := by
  constructor
  · intro h
    obtain ⟨⟨kind, span⟩, hd, hname⟩ := List.mem_filterMap.1 h
    cases kind with
    | precondition target n => exact ⟨target, List.mem_filterMap.2 ⟨_, hd, by simpa using hname⟩⟩
    | _ => cases hname
  · rintro ⟨target, h⟩
    obtain ⟨d, hd, hname⟩ := List.mem_filterMap.1 h
    refine List.mem_filterMap.2 ⟨d, hd, ?_⟩
    cases hkind : d.kind <;> simp_all

/-- A callback is used where it is attached to something. -/
theorem mem_callbackUses_iff {ds : List Declaration} {name : String} :
    name ∈ callbackUses ds ↔ ∃ target, name ∈ callbacksOn ds target := by
  constructor
  · intro h
    obtain ⟨⟨kind, span⟩, hd, hname⟩ := List.mem_filterMap.1 h
    cases kind with
    | callback target n => exact ⟨target, List.mem_filterMap.2 ⟨_, hd, by simpa using hname⟩⟩
    | _ => cases hname
  · rintro ⟨target, h⟩
    obtain ⟨d, hd, hname⟩ := List.mem_filterMap.1 h
    refine List.mem_filterMap.2 ⟨d, hd, ?_⟩
    cases hkind : d.kind <;> simp_all

/-- Names are declared once, and every name that is used was declared. -/
structure Consistent (ds : List Declaration) : Prop where
  states_nodup : (stateNames ds).Nodup
  events_nodup : (eventNames ds).Nodup
  initial_nodup : (initialNames ds).Nodup
  initial_declared : ∀ s ∈ initialNames ds, s ∈ stateNames ds
  links_nodup : ∀ s, ((linksFrom ds s).map Link.key).Nodup
  source_declared : ∀ s, linksFrom ds s ≠ [] → s ∈ stateNames ds
  target_declared : ∀ s, ∀ e ∈ linksFrom ds s, e.target ∈ stateNames ds
  event_declared : ∀ s, ∀ e ∈ linksFrom ds s, ∀ name, e.event = some name → name ∈ eventNames ds
  /-- Direct edges and events exclude each other. -/
  events_of_direct : ∀ s, ∀ e ∈ linksFrom ds s, e.event = none → eventNames ds = []
  guards_declared : ∀ t, guardsOn ds t ≠ [] → Declares ds t
  callbacks_declared : ∀ t, callbacksOn ds t ≠ [] → Declares ds t
  options_valid : ∀ key value, lastOption ds key = some value →
    Config.isKey key ∧ Config.isValid key value

/-! ## One more declaration -/

private theorem filterMap_snoc {α β : Type} (f : α → Option β) (xs : List α) (x : α) :
    (xs ++ [x]).filterMap f = xs.filterMap f ++ (f x).toList := by
  rw [List.filterMap_append]
  cases h : f x <;> simp [h]

section

variable (ds : List Declaration) (d : Declaration)

@[simp]
theorem stateNames_snoc : stateNames (ds ++ [d]) = stateNames ds ++ d.kind.stateName?.toList :=
  filterMap_snoc ..

@[simp]
theorem eventNames_snoc : eventNames (ds ++ [d]) = eventNames ds ++ d.kind.eventName?.toList :=
  filterMap_snoc ..

@[simp]
theorem initialNames_snoc :
    initialNames (ds ++ [d]) = initialNames ds ++ d.kind.initialName?.toList :=
  filterMap_snoc ..

@[simp]
theorem linksFrom_snoc (s : String) :
    linksFrom (ds ++ [d]) s = linksFrom ds s ++ (d.kind.linkFrom? s).toList :=
  filterMap_snoc ..

@[simp]
theorem guardsOn_snoc (t : HookTarget) :
    guardsOn (ds ++ [d]) t = guardsOn ds t ++ (d.kind.guardOn? t).toList :=
  filterMap_snoc ..

@[simp]
theorem callbacksOn_snoc (t : HookTarget) :
    callbacksOn (ds ++ [d]) t = callbacksOn ds t ++ (d.kind.callbackOn? t).toList :=
  filterMap_snoc ..

@[simp]
theorem guardUses_snoc : guardUses (ds ++ [d]) = guardUses ds ++ d.kind.guardName?.toList :=
  filterMap_snoc ..

@[simp]
theorem callbackUses_snoc :
    callbackUses (ds ++ [d]) = callbackUses ds ++ d.kind.callbackName?.toList :=
  filterMap_snoc ..

@[simp]
theorem hasLink_snoc : hasLink (ds ++ [d]) = (hasLink ds || d.kind.isTransition) := by
  simp [hasLink]

@[simp]
theorem lastOption_snoc (key : String) :
    lastOption (ds ++ [d]) key = (d.kind.optionValue? key).or (lastOption ds key) := by
  rw [lastOption, filterMap_snoc, lastOption]
  cases d.kind.optionValue? key <;> simp

end

/-! ## Options in front -/

section

variable {preset ds : List Declaration}

/-- The declarations set options, and nothing else. -/
def OnlyOptions (ds : List Declaration) : Prop := ∀ d ∈ ds, ∃ key value, d.kind = .config key value

/-- Readings that are not about options pass over options in front. -/
theorem OnlyOptions.filterMap_append {α : Type} (h : OnlyOptions preset) {f : Kind → Option α}
    (hf : ∀ key value, f (.config key value) = none) :
    (preset ++ ds).filterMap (fun d ↦ f d.kind) = ds.filterMap fun d ↦ f d.kind := by
  have hnone : preset.filterMap (fun d ↦ f d.kind) = [] := by
    rw [List.filterMap_eq_nil_iff]
    intro d hd
    obtain ⟨key, value, hkind⟩ := h d hd
    rw [hkind, hf]
  rw [List.filterMap_append, hnone, List.nil_append]

theorem OnlyOptions.hasLink_append (h : OnlyOptions preset) :
    hasLink (preset ++ ds) = hasLink ds := by
  have hnone : preset.any (·.kind.isTransition) = false := by
    rw [List.any_eq_false]
    intro d hd
    obtain ⟨key, value, hkind⟩ := h d hd
    simp [hkind]
  rw [hasLink, List.any_append, hnone, Bool.false_or, hasLink]

/-- A later setting of an option wins. -/
theorem lastOption_append {key : String} :
    lastOption (preset ++ ds) key = (lastOption ds key).or (lastOption preset key) := by
  rw [lastOption, List.filterMap_append, List.getLast?_append, lastOption, lastOption]

end

/-- Nothing is attached to what is not declared. -/
theorem Consistent.guardsOn_eq_nil {ds : List Declaration} (hc : Consistent ds) {t : HookTarget}
    (ht : ¬ Declares ds t) : guardsOn ds t = [] :=
  Decidable.byContradiction fun h ↦ ht (hc.guards_declared t h)

/-- Nothing is attached to what is not declared. -/
theorem Consistent.callbacksOn_eq_nil {ds : List Declaration} (hc : Consistent ds)
    {t : HookTarget} (ht : ¬ Declares ds t) : callbacksOn ds t = [] :=
  Decidable.byContradiction fun h ↦ ht (hc.callbacks_declared t h)

/-- A state that is not declared has no edges. -/
theorem Consistent.linksFrom_eq_nil {ds : List Declaration} (hc : Consistent ds) {s : String}
    (hs : s ∉ stateNames ds) : linksFrom ds s = [] :=
  Decidable.byContradiction fun h ↦ hs (hc.source_declared s h)

/-- What makes a declaration fit those before it, by what it declares. -/
structure Fits (ds : List Declaration) (kind : Kind) : Prop where
  state : ∀ name, kind.stateName? = some name → name ∉ stateNames ds
  event : ∀ name, kind.eventName? = some name →
    name ∉ eventNames ds ∧ ∀ s, ∀ e ∈ linksFrom ds s, e.event ≠ none
  initial : ∀ name, kind.initialName? = some name →
    name ∈ stateNames ds ∧ name ∉ initialNames ds
  link : ∀ s e, kind.linkFrom? s = some e →
    s ∈ stateNames ds ∧ e.target ∈ stateNames ds ∧
      (∀ name, e.event = some name → name ∈ eventNames ds) ∧
      (e.event = none → eventNames ds = []) ∧ e.key ∉ (linksFrom ds s).map Link.key
  guard : ∀ t name, kind.guardOn? t = some name → Declares ds t
  callback : ∀ t name, kind.callbackOn? t = some name → Declares ds t
  option : ∀ key value, kind.optionValue? key = some value →
    Config.isKey key ∧ Config.isValid key value

section

variable {ds : List Declaration} {d : Declaration}

private theorem nodup_append_toList {α : Type} {xs : List α} {o : Option α} (hxs : xs.Nodup)
    (ho : ∀ x, o = some x → x ∉ xs) : (xs ++ o.toList).Nodup := by
  cases o with
  | none => simpa using hxs
  | some x =>
    rw [List.nodup_append]
    refine ⟨hxs, by simp, fun a ha b hb hab ↦ ho x rfl ?_⟩
    simp at hb
    rwa [← hb, ← hab]

/-- What was declared stays declared. -/
private theorem declares_snoc {t : HookTarget} (h : Declares ds t) : Declares (ds ++ [d]) t := by
  cases t with
  | entry state | exit state | event event =>
    simp only [Declares, stateNames_snoc, eventNames_snoc] at h ⊢
    exact List.mem_append_left _ h
  | transition source via =>
    obtain ⟨e, he, hkey⟩ := h
    exact ⟨e, (linksFrom_snoc ds d source) ▸ List.mem_append_left _ he, hkey⟩

private theorem mem_linksFrom_snoc {s : String} {e : Link} :
    e ∈ linksFrom (ds ++ [d]) s ↔ e ∈ linksFrom ds s ∨ d.kind.linkFrom? s = some e := by
  rw [linksFrom_snoc, List.mem_append, Option.mem_toList]

theorem Consistent.snoc (hc : Consistent ds) (h : Fits ds d.kind) : Consistent (ds ++ [d]) where
  states_nodup := by
    rw [stateNames_snoc]
    exact nodup_append_toList hc.states_nodup h.state
  events_nodup := by
    rw [eventNames_snoc]
    exact nodup_append_toList hc.events_nodup fun name hname ↦ (h.event name hname).1
  initial_nodup := by
    rw [initialNames_snoc]
    exact nodup_append_toList hc.initial_nodup fun name hname ↦ (h.initial name hname).2
  initial_declared := by
    intro s hs
    rw [initialNames_snoc, List.mem_append, Option.mem_toList] at hs
    rw [stateNames_snoc]
    refine List.mem_append_left _ ?_
    rcases hs with hs | hs
    · exact hc.initial_declared s hs
    · exact (h.initial s hs).1
  links_nodup := by
    intro s
    rw [linksFrom_snoc, List.map_append, ← Option.toList_map]
    refine nodup_append_toList (hc.links_nodup s) fun key hkey ↦ ?_
    obtain ⟨e, he, rfl⟩ := Option.map_eq_some_iff.1 hkey
    exact (h.link s e he).2.2.2.2
  source_declared := by
    intro s hs
    obtain ⟨e, he⟩ := List.exists_mem_of_ne_nil _ hs
    rw [stateNames_snoc]
    refine List.mem_append_left _ ?_
    rcases mem_linksFrom_snoc.1 he with he | he
    · exact hc.source_declared s (List.ne_nil_of_mem he)
    · exact (h.link s e he).1
  target_declared := by
    intro s e he
    rw [stateNames_snoc]
    refine List.mem_append_left _ ?_
    rcases mem_linksFrom_snoc.1 he with he | he
    · exact hc.target_declared s e he
    · exact (h.link s e he).2.1
  event_declared := by
    intro s e he name hname
    rw [eventNames_snoc]
    refine List.mem_append_left _ ?_
    rcases mem_linksFrom_snoc.1 he with he | he
    · exact hc.event_declared s e he name hname
    · exact (h.link s e he).2.2.1 name hname
  events_of_direct := by
    intro s e he hdirect
    rw [eventNames_snoc, List.append_eq_nil_iff]
    rcases mem_linksFrom_snoc.1 he with he | he
    · refine ⟨hc.events_of_direct s e he hdirect, ?_⟩
      cases hname : d.kind.eventName? with
      | none => rfl
      | some name => exact absurd hdirect ((h.event name hname).2 s e he)
    · refine ⟨(h.link s e he).2.2.2.1 hdirect, ?_⟩
      cases hkind : d.kind <;> simp_all
  guards_declared := by
    intro t ht
    obtain ⟨name, hname⟩ := List.exists_mem_of_ne_nil _ ht
    rw [guardsOn_snoc, List.mem_append, Option.mem_toList] at hname
    rcases hname with hname | hname
    · exact declares_snoc (hc.guards_declared t (List.ne_nil_of_mem hname))
    · exact declares_snoc (h.guard t name hname)
  callbacks_declared := by
    intro t ht
    obtain ⟨name, hname⟩ := List.exists_mem_of_ne_nil _ ht
    rw [callbacksOn_snoc, List.mem_append, Option.mem_toList] at hname
    rcases hname with hname | hname
    · exact declares_snoc (hc.callbacks_declared t (List.ne_nil_of_mem hname))
    · exact declares_snoc (h.callback t name hname)
  options_valid := by
    intro key value hvalue
    rw [lastOption_snoc, Option.or_eq_some_iff] at hvalue
    rcases hvalue with hvalue | ⟨-, hvalue⟩
    · exact h.option key value hvalue
    · exact hc.options_valid key value hvalue

end

/-- The names of the options are distinct. -/
theorem nodup_keys_defaults : (Config.defaults.map Prod.fst).Nodup := by
  simp [Config.defaults]

end Declaration

end StateGen
