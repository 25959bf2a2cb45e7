import StateGen.Model.Namespace

/-!
# What one declaration does

Applying a declaration first judges it, which only reads the model, and then records it. So a
rejected declaration leaves the model as it was, and what an accepted one can do is said once, in
`record`, with the conditions for acceptance in `Admits`.
-/

namespace StateGen.Model

/-- What a hook is attached to has been declared. -/
def HasTarget (m : Model) : HookTarget → Prop
  | .entry state | .exit state => state ∈ m.states.keys
  | .event event => event ∈ m.events.keys
  | .transition source via => source ∈ m.states.keys ∧ (m.edge? source via).isSome

/-- A declaration is accepted. -/
def Admits (m : Model) : Declaration.Kind → Prop
  | .state name => name ∉ m.states.keys ∧ m.checkName name .state = .ok ()
  | .event name =>
    name ∉ m.events.keys ∧ m.checkName name .event = .ok () ∧ m.style ≠ some .direct
  | .transition source event target =>
    source ∈ m.states.keys ∧ target ∈ m.states.keys ∧
      (match event with
        | some event => event ∈ m.events.keys
        | none => m.events.keys = []) ∧
      m.edge? source (event.getD target) = none
  | .initial state => state ∈ m.states.keys ∧ state ∉ m.initialStates
  | .precondition target name => m.checkName name .precondition = .ok () ∧ m.HasTarget target
  | .callback target name =>
    m.checkName name .callback = .ok () ∧ m.HasTarget target ∧
      ∀ source via, target ≠ .transition source via
  | .config key value => Config.isKey key ∧ Config.isValid key value

/-- The model with a guard attached. -/
def withGuard (m : Model) (name : String) : HookTarget → Model
  | .entry state => { m with entryPreconditions := attach m.entryPreconditions state name }
  | .exit state => { m with exitPreconditions := attach m.exitPreconditions state name }
  | .event event => { m with eventPreconditions := attach m.eventPreconditions event name }
  | .transition source via =>
    { m with
      transitions := m.transitions.modify source fun edges ↦
        edges.modify via fun e ↦ { e with preconditions := e.preconditions ++ [name] } }

/-- The model with a callback attached; edges have none. -/
def withCallback (m : Model) (name : String) : HookTarget → Model
  | .entry state => { m with entryCallbacks := attach m.entryCallbacks state name }
  | .exit state => { m with exitCallbacks := attach m.exitCallbacks state name }
  | .event event => { m with eventCallbacks := attach m.eventCallbacks event name }
  | .transition _ _ => m

/-- The model after an accepted declaration. -/
def record (m : Model) : Declaration.Kind → Model
  | .state name =>
    { m with
      states := m.states.insert name m.states.size
      entryCallbacks := m.entryCallbacks.insert name []
      exitCallbacks := m.exitCallbacks.insert name []
      entryPreconditions := m.entryPreconditions.insert name []
      exitPreconditions := m.exitPreconditions.insert name []
      transitions := m.transitions.insert name .empty }
  | .event name =>
    { m with
      events := m.events.insert name m.events.size
      eventCallbacks := m.eventCallbacks.insert name []
      eventPreconditions := m.eventPreconditions.insert name []
      style := some .eventDriven }
  | .transition source event target =>
    { m with
      transitions := m.transitions.modify source
        (·.insert (event.getD target) ⟨target, (m.states.get? target).getD 0, event, []⟩)
      style := some (if event.isSome then .eventDriven else .direct) }
  | .initial state => { m with initialStates := m.initialStates ++ [state] }
  | .precondition target name =>
    { m.withGuard name target with preconditionNames := appendNew m.preconditionNames name }
  | .callback target name =>
    { m.withCallback name target with callbackNames := appendNew m.callbackNames name }
  | .config key value => { m with options := m.options.insert key value }

/-! ## Running the steps of an operation -/

private theorem require_bind {α β : Type} (check : Model → Except Error α) (next : α → Build β)
    (m : Model) :
    (require check >>= next) m =
      match check m with
      | .ok a => next a m
      | .error e => .error e m := by
  have hrequire : require check m =
      (match check m with
        | .ok a => (return a : Build α)
        | .error e => throw e) m := rfl
  simp only [bind, EStateM.bind, hrequire]
  cases check m <;> rfl

private theorem get_bind {β : Type} (next : Model → Build β) (m : Model) :
    ((get : Build Model) >>= next) m = next m m := rfl

private theorem throw_bind {α β : Type} (e : Error) (next : α → Build β) (m : Model) :
    ((throw e : Build α) >>= next) m = .error e m := rfl

private theorem modify_apply (f : Model → Model) (m : Model) :
    (modify f : Build Unit) m = .ok () (f m) := rfl

private theorem modify_bind {β : Type} (f : Model → Model) (next : Unit → Build β) (m : Model) :
    ((modify f : Build Unit) >>= next) m = next () (f m) := rfl

/-- An operation accepts exactly the admitted declarations of a kind; it records those and changes
nothing when it rejects. -/
def Settles (operation : Build Unit) (m : Model) (kind : Declaration.Kind) : Prop :=
  (m.Admits kind ∧ operation m = .ok () (m.record kind)) ∨
    (¬ m.Admits kind ∧ ∃ e, operation m = .error e m)

private theorem stateOrdinal_cases (m : Model) (name : String) :
    (name ∈ m.states.keys ∧ m.stateOrdinal name = .ok ((m.states.get? name).getD 0)) ∨
      (name ∉ m.states.keys ∧ m.stateOrdinal name = .error (.unknownState name)) := by
  rw [← OrderedMap.isSome_get?_iff_mem_keys]
  cases h : m.states.get? name <;> simp [stateOrdinal, h]

private theorem eventOrdinal_cases (m : Model) (name : String) :
    (name ∈ m.events.keys ∧ m.eventOrdinal name = .ok ((m.events.get? name).getD 0)) ∨
      (name ∉ m.events.keys ∧ m.eventOrdinal name = .error (.unknownEvent name)) := by
  rw [← OrderedMap.isSome_get?_iff_mem_keys]
  cases h : m.events.get? name <;> simp [eventOrdinal, h]

private theorem settles_declareState (m : Model) (name : String) :
    Settles (declareState name) m (.state name) := by
  simp only [Settles, Admits, declareState, get_bind]
  by_cases hs : m.states.contains name
  · have hmem := (m.states.contains_iff_mem_keys name).1 hs
    rw [if_pos hs, throw_bind]
    exact .inr ⟨fun h ↦ h.1 hmem, _, rfl⟩
  · have hmem := mt (m.states.contains_iff_mem_keys name).2 hs
    rw [if_neg hs, require_bind]
    cases hname : m.checkName name .state with
    | ok _ => exact .inl ⟨⟨hmem, rfl⟩, rfl⟩
    | error e => exact .inr ⟨by simp, e, rfl⟩

private theorem settles_declareEvent (m : Model) (name : String) :
    Settles (declareEvent name) m (.event name) := by
  simp only [Settles, Admits, declareEvent, get_bind]
  by_cases hs : m.events.contains name
  · have hmem := (m.events.contains_iff_mem_keys name).1 hs
    rw [if_pos hs, throw_bind]
    exact .inr ⟨fun h ↦ h.1 hmem, _, rfl⟩
  · have hmem := mt (m.events.contains_iff_mem_keys name).2 hs
    rw [if_neg hs, require_bind]
    cases hname : m.checkName name .event with
    | error e => exact .inr ⟨by simp, e, rfl⟩
    | ok _ =>
      simp only [get_bind]
      by_cases hstyle : m.style = some .direct
      · rw [if_pos hstyle, throw_bind]
        exact .inr ⟨fun h ↦ h.2.2 hstyle, _, rfl⟩
      · rw [if_neg hstyle, modify_apply]
        exact .inl ⟨⟨hmem, trivial, hstyle⟩, rfl⟩

private theorem admitsEdge_cases (m : Model) (source : String) (event : Option String)
    (target : String) :
    ((match event with
        | some event => event ∈ m.events.keys
        | none => m.events.keys = []) ∧ m.admitsEdge source event target = .ok ()) ∨
      (¬ (match event with
        | some event => event ∈ m.events.keys
        | none => m.events.keys = []) ∧ ∃ e, m.admitsEdge source event target = .error e) := by
  cases event with
  | none =>
    by_cases h : m.events.keys = [] <;>
      simp_all [admitsEdge, OrderedMap.isEmpty, OrderedMap.keys]
  | some event =>
    obtain ⟨hmem, hok⟩ | ⟨hmem, herror⟩ := m.eventOrdinal_cases event
    · exact .inl ⟨hmem, by simp only [admitsEdge, hok]; rfl⟩
    · exact .inr ⟨hmem, _, by simp only [admitsEdge, herror]; rfl⟩

private theorem settles_declareTransition (m : Model) (source : String) (event : Option String)
    (target : String) :
    Settles (declareTransition source event target) m (.transition source event target) := by
  simp only [Settles, Admits, declareTransition, require_bind, get_bind]
  obtain ⟨hsource, hok⟩ | ⟨hsource, herror⟩ := m.stateOrdinal_cases source
  · obtain ⟨htarget, hok'⟩ | ⟨htarget, herror'⟩ := m.stateOrdinal_cases target
    · obtain ⟨hstyle, hok''⟩ | ⟨hstyle, e, herror''⟩ := m.admitsEdge_cases source event target
      · simp only [hok, hok', hok'']
        by_cases hedge : (m.edge? source (event.getD target)).isSome
        · rw [if_pos hedge, throw_bind]
          refine .inr ⟨fun h ↦ ?_, _, rfl⟩
          rw [h.2.2.2] at hedge
          exact absurd hedge (by simp)
        · rw [if_neg hedge, modify_apply]
          exact .inl ⟨⟨hsource, htarget, hstyle, by simpa using hedge⟩, rfl⟩
      · simp only [hok, hok', herror'']
        exact .inr ⟨fun h ↦ hstyle h.2.2.1, e, rfl⟩
    · simp only [hok, herror']
      exact .inr ⟨fun h ↦ htarget h.2.1, _, rfl⟩
  · simp only [herror]
    exact .inr ⟨fun h ↦ hsource h.1, _, rfl⟩

private theorem settles_declareInitial (m : Model) (state : String) :
    Settles (declareInitial state) m (.initial state) := by
  simp only [Settles, Admits, declareInitial, require_bind, get_bind]
  obtain ⟨hstate, hok⟩ | ⟨hstate, herror⟩ := m.stateOrdinal_cases state
  · simp only [hok]
    by_cases hinitial : state ∈ m.initialStates
    · rw [if_pos (by simpa using hinitial), throw_bind]
      exact .inr ⟨fun h ↦ h.2 hinitial, _, rfl⟩
    · rw [if_neg (by simpa using hinitial), modify_apply]
      exact .inl ⟨⟨hstate, hinitial⟩, rfl⟩
  · simp only [herror]
    exact .inr ⟨fun h ↦ hstate h.1, _, rfl⟩

private theorem settles_attachPrecondition (m : Model) (target : HookTarget) (name : String) :
    Settles (attachPrecondition target name) m (.precondition target name) := by
  simp only [Settles, Admits, attachPrecondition, require_bind]
  cases hname : m.checkName name .precondition with
  | error e => exact .inr ⟨by simp, e, rfl⟩
  | ok _ =>
    cases target with
    | entry state | exit state =>
      simp only [require_bind]
      obtain ⟨hstate, hok⟩ | ⟨hstate, herror⟩ := m.stateOrdinal_cases state
      · simp only [hok, modify_bind, modify_apply]
        exact .inl ⟨⟨trivial, hstate⟩, rfl⟩
      · simp only [herror]
        exact .inr ⟨fun h ↦ hstate h.2, _, rfl⟩
    | event event =>
      simp only [require_bind]
      obtain ⟨hevent, hok⟩ | ⟨hevent, herror⟩ := m.eventOrdinal_cases event
      · simp only [hok, modify_bind, modify_apply]
        exact .inl ⟨⟨trivial, hevent⟩, rfl⟩
      · simp only [herror]
        exact .inr ⟨fun h ↦ hevent h.2, _, rfl⟩
    | transition source via =>
      simp only [require_bind]
      obtain ⟨hsource, hok⟩ | ⟨hsource, herror⟩ := m.stateOrdinal_cases source
      · simp only [hok, get_bind]
        by_cases hedge : (m.edge? source via).isNone
        · rw [if_pos hedge, throw_bind]
          refine .inr ⟨fun h ↦ ?_, _, rfl⟩
          have hsome := h.2.2
          rw [Option.isNone_iff_eq_none.1 hedge] at hsome
          exact absurd hsome (by simp)
        · rw [if_neg hedge, modify_bind, modify_apply]
          exact .inl ⟨⟨trivial, hsource, by simpa [Option.isSome_iff_ne_none] using hedge⟩, rfl⟩
      · simp only [herror]
        exact .inr ⟨fun h ↦ hsource h.2.1, _, rfl⟩

private theorem settles_attachCallback (m : Model) (target : HookTarget) (name : String) :
    Settles (attachCallback target name) m (.callback target name) := by
  simp only [Settles, Admits, attachCallback, require_bind]
  cases hname : m.checkName name .callback with
  | error e => exact .inr ⟨by simp, e, rfl⟩
  | ok _ =>
    cases target with
    | entry state | exit state =>
      simp only [require_bind]
      obtain ⟨hstate, hok⟩ | ⟨hstate, herror⟩ := m.stateOrdinal_cases state
      · simp only [hok, modify_bind, modify_apply]
        exact .inl ⟨⟨trivial, hstate, by simp⟩, rfl⟩
      · simp only [herror]
        exact .inr ⟨fun h ↦ hstate h.2.1, _, rfl⟩
    | event event =>
      simp only [require_bind]
      obtain ⟨hevent, hok⟩ | ⟨hevent, herror⟩ := m.eventOrdinal_cases event
      · simp only [hok, modify_bind, modify_apply]
        exact .inl ⟨⟨trivial, hevent, by simp⟩, rfl⟩
      · simp only [herror]
        exact .inr ⟨fun h ↦ hevent h.2.1, _, rfl⟩
    | transition source via =>
      simp only [throw_bind]
      exact .inr ⟨fun h ↦ h.2.2 source via rfl, _, rfl⟩

private theorem settles_setOption (m : Model) (key value : String) :
    Settles (setOption key value) m (.config key value) := by
  simp only [Settles, Admits, setOption, require_bind, optionValue]
  by_cases hkey : Config.isKey key
  · by_cases hvalue : Config.isValid key value
    · simp only [hkey, hvalue, Bool.not_true, Bool.false_eq_true, if_false, modify_apply]
      exact .inl ⟨⟨trivial, trivial⟩, rfl⟩
    · simp only [hkey, hvalue, Bool.not_true, Bool.not_false, Bool.false_eq_true, if_false,
        if_true]
      exact .inr ⟨fun h ↦ h.2, _, rfl⟩
  · simp only [hkey, Bool.not_false, if_true]
    exact .inr ⟨fun h ↦ absurd h.1 (by simp), _, rfl⟩

/-- Every declaration is either admitted, and then recorded, or rejected without a trace. -/
theorem settles_apply (m : Model) (d : Declaration) : Settles (apply d) m d.kind := by
  obtain ⟨kind, span⟩ := d
  cases kind with
  | state name => exact settles_declareState m name
  | event name => exact settles_declareEvent m name
  | transition source event target => exact settles_declareTransition m source event target
  | initial state => exact settles_declareInitial m state
  | precondition target name => exact settles_attachPrecondition m target name
  | callback target name => exact settles_attachCallback m target name
  | config key value => exact settles_setOption m key value

/-- What an accepted declaration tells about the model before and after it. -/
theorem apply_eq_ok_iff {m m' : Model} {d : Declaration} :
    apply d m = .ok () m' ↔ m.Admits d.kind ∧ m' = m.record d.kind := by
  obtain ⟨hadmits, hok⟩ | ⟨hadmits, e, herror⟩ := settles_apply m d
  · rw [hok]
    constructor
    · intro h
      injection h with _ hm
      exact ⟨hadmits, hm.symm⟩
    · rintro ⟨-, rfl⟩
      rfl
  · rw [herror]
    constructor
    · intro h
      cases h
    · intro h
      exact absurd h.1 hadmits

/-- A rejected declaration leaves the model as it was. -/
theorem eq_of_apply_eq_error {m m' : Model} {d : Declaration} {e : Error}
    (h : apply d m = .error e m') : m' = m := by
  obtain ⟨-, hok⟩ | ⟨-, e', herror⟩ := settles_apply m d
  · rw [hok] at h
    cases h
  · rw [herror] at h
    injection h with _ hm
    exact hm.symm

end StateGen.Model
