import StateGen.Proofs.Model.Declared

/-!
# Which declarations are accepted

Declarations are judged one after the other, each by what was declared before it. If they come in
stages, names before the edges and initial states that use them and hooks last, then the order
inside a stage does not matter: all of them are accepted if and only if they are `Acceptable`, which
speaks of the list as a whole.
-/

namespace StateGen

open Model (NameKind)

namespace Declaration

/-- Declarations of a later stage use the names and edges of the earlier ones. -/
def Kind.stage : Kind → Nat
  | .state _ | .event _ | .config _ _ => 0
  | .transition .. | .initial _ => 1
  | .precondition _ _ | .callback _ _ => 2

/-- No declaration stands behind one of a later stage. -/
def Staged (ds : List Declaration) : Prop :=
  ds.Pairwise fun a b ↦ a.kind.stage ≤ b.kind.stage

/-- The name that a declaration introduces, with what it denotes. -/
def Kind.named? : Kind → Option (NameKind × String)
  | .state name => some (.state, name)
  | .event name => some (.event, name)
  | .precondition _ name => some (.precondition, name)
  | .callback _ name => some (.callback, name)
  | _ => none

/-- The names of a kind. -/
def namesOf (ds : List Declaration) : NameKind → List String
  | .state => stateNames ds
  | .event => eventNames ds
  | .precondition => guardUses ds
  | .callback => callbackUses ds

/-- No name is reserved, and none has two meanings. -/
structure Unambiguous (ds : List Declaration) : Prop where
  free : ∀ kind, ∀ name ∈ namesOf ds kind, Config.isReserved name = false
  kind_eq : ∀ kind other name, name ∈ namesOf ds kind → name ∈ namesOf ds other → kind = other

/-- The declarations agree with each other, whatever their order. -/
structure Acceptable (ds : List Declaration) : Prop where
  consistent : Consistent ds
  unambiguous : Unambiguous ds
  config_valid : ∀ d ∈ ds, ∀ key value, d.kind = .config key value →
    Config.isKey key ∧ Config.isValid key value
  edges_without_callbacks : ∀ source via, callbacksOn ds (.transition source via) = []

/-! ## Names -/

theorem mem_namesOf_iff {ds : List Declaration} {kind : NameKind} {name : String} :
    name ∈ namesOf ds kind ↔ ∃ d ∈ ds, d.kind.named? = some (kind, name) := by
  have hnamed (d : Declaration) :
      d.kind.named? = some (kind, name) ↔
        (match kind with
          | .state => d.kind.stateName?
          | .event => d.kind.eventName?
          | .precondition => d.kind.guardName?
          | .callback => d.kind.callbackName?) = some name := by
    cases kind <;> cases d.kind <;> simp [Kind.named?]
  cases kind <;>
    simp only [namesOf, stateNames, eventNames, guardUses, callbackUses, List.mem_filterMap, hnamed]

/-- What a part of the declarations names, they name as a whole. -/
theorem mem_namesOf_of_subset {ds ds' : List Declaration} (h : ds ⊆ ds') {kind : NameKind}
    {name : String} (hname : name ∈ namesOf ds kind) : name ∈ namesOf ds' kind := by
  obtain ⟨d, hd, hnamed⟩ := mem_namesOf_iff.1 hname
  exact mem_namesOf_iff.2 ⟨d, h hd, hnamed⟩

private theorem mem_namesOf_snoc {ds : List Declaration} {d : Declaration} {kind : NameKind}
    {name : String} :
    name ∈ namesOf (ds ++ [d]) kind ↔
      name ∈ namesOf ds kind ∨ d.kind.named? = some (kind, name) := by
  simp [mem_namesOf_iff, or_and_right, exists_or]

/-- A name that is not reserved and denotes nothing else may be added. -/
theorem Unambiguous.snoc {ds : List Declaration} {d : Declaration} (hu : Unambiguous ds)
    (h : ∀ kind name, d.kind.named? = some (kind, name) →
      Config.isReserved name = false ∧ ∀ other, name ∈ namesOf ds other → other = kind) :
    Unambiguous (ds ++ [d]) where
  free := by
    intro kind name hname
    rcases mem_namesOf_snoc.1 hname with hname | hname
    · exact hu.free kind name hname
    · exact (h kind name hname).1
  kind_eq := by
    intro kind other name hkind hother
    rcases mem_namesOf_snoc.1 hkind with hkind | hkind <;>
      rcases mem_namesOf_snoc.1 hother with hother | hother
    · exact hu.kind_eq kind other name hkind hother
    · exact (h other name hother).2 kind hkind
    · exact ((h kind name hkind).2 other hother).symm
    · rw [hkind] at hother
      cases hother
      rfl

/-! ## Stages -/

section

variable {ds before rest : List Declaration} {d : Declaration}

/-- What only declarations of one stage say was said when a later stage is reached. -/
private theorem Staged.filterMap_eq {α : Type} {f : Kind → Option α} {n : Nat}
    (hs : Staged (before ++ d :: rest)) (hf : ∀ kind, (f kind).isSome → kind.stage = n)
    (hd : n < d.kind.stage) :
    (before ++ d :: rest).filterMap (fun e ↦ f e.kind) = before.filterMap fun e ↦ f e.kind := by
  have hlater := (List.pairwise_append.1 hs).2.1
  have hnil : (d :: rest).filterMap (fun e ↦ f e.kind) = [] := by
    rw [List.filterMap_eq_nil_iff]
    intro e he
    have hle : d.kind.stage ≤ e.kind.stage := by
      rcases List.mem_cons.1 he with rfl | he
      · exact Nat.le_refl _
      · exact (List.pairwise_cons.1 hlater).1 e he
    cases hsome : f e.kind with
    | none => rfl
    | some a =>
      have hstage := hf e.kind (by simp [hsome])
      omega
  rw [List.filterMap_append, hnil, List.append_nil]

private theorem Staged.stateNames_eq (hs : Staged (before ++ d :: rest)) (hd : 0 < d.kind.stage) :
    stateNames (before ++ d :: rest) = stateNames before :=
  hs.filterMap_eq (by intro kind; cases kind <;> simp [Kind.stage]) hd

private theorem Staged.eventNames_eq (hs : Staged (before ++ d :: rest)) (hd : 0 < d.kind.stage) :
    eventNames (before ++ d :: rest) = eventNames before :=
  hs.filterMap_eq (by intro kind; cases kind <;> simp [Kind.stage]) hd

private theorem Staged.linksFrom_eq (hs : Staged (before ++ d :: rest)) (hd : 1 < d.kind.stage)
    (source : String) : linksFrom (before ++ d :: rest) source = linksFrom before source :=
  hs.filterMap_eq (by intro kind; cases kind <;> simp [Kind.stage]) hd

/-- Names come before edges. -/
private theorem Staged.hasLink_eq_false (hs : Staged (before ++ d :: rest))
    (hd : d.kind.stage = 0) : hasLink before = false := by
  rw [hasLink, List.any_eq_false]
  intro e he hlink
  have hle := (List.pairwise_append.1 hs).2.2 e he d List.mem_cons_self
  cases hkind : e.kind <;> simp_all [Kind.stage]

/-- What the declarations as a whole have, they have when hooks are attached. -/
private theorem Staged.declares (hs : Staged (before ++ d :: rest)) (hd : d.kind.stage = 2)
    {t : HookTarget} (h : Declares (before ++ d :: rest) t) : Declares before t := by
  cases t with
  | entry state | exit state => simpa only [Declares, hs.stateNames_eq (by omega)] using h
  | event event => simpa only [Declares, hs.eventNames_eq (by omega)] using h
  | transition source via => simpa only [Declares, hs.linksFrom_eq (by omega)] using h

end

end Declaration

open Declaration

namespace Model

variable {inputPath : String} {ds : List Declaration}

/-! ## One declaration -/

/-- Names are only left out if they are there already. -/
theorem mem_foldl_appendNew {names seen : List String} {name : String} :
    name ∈ names.foldl appendNew seen ↔ name ∈ seen ∨ name ∈ names := by
  induction names generalizing seen with
  | nil => simp
  | cons n ns ih =>
    rw [List.foldl_cons, ih, appendNew]
    split
    · next hmem =>
      have hmem : n ∈ seen := by simpa using hmem
      constructor
      · rintro (h | h)
        · exact .inl h
        · exact .inr (List.mem_cons_of_mem n h)
      · rintro (h | h)
        · exact .inl h
        · rcases List.mem_cons.1 h with rfl | h
          · exact .inl hmem
          · exact .inr h
    · simp [or_assoc]

private theorem mem_preconditionNames_declaredBy {name : String} :
    name ∈ (declaredBy inputPath ds).preconditionNames ↔ name ∈ guardUses ds := by
  simp [declaredBy, mem_foldl_appendNew]

private theorem mem_callbackNames_declaredBy {name : String} :
    name ∈ (declaredBy inputPath ds).callbackNames ↔ name ∈ callbackUses ds := by
  simp [declaredBy, mem_foldl_appendNew]

/-- A name denotes what it was declared as. -/
private theorem mem_namesOf_of_kindOf? {name : String} {kind : NameKind}
    (h : (declaredBy inputPath ds).kindOf? name = some kind) : name ∈ namesOf ds kind := by
  simp only [kindOf?, OrderedMap.contains_iff_mem_keys, keys_states_declaredBy,
    keys_events_declaredBy, List.contains_iff_mem, mem_preconditionNames_declaredBy,
    mem_callbackNames_declaredBy] at h
  split at h
  · next hmem => cases h; exact hmem
  split at h
  · next hmem => cases h; exact hmem
  split at h
  · next hmem => cases h; exact hmem
  split at h
  · next hmem => cases h; exact hmem
  · cases h

/-- A name that was declared denotes something. -/
private theorem exists_kindOf?_of_mem (inputPath : String) {name : String} {kind : NameKind}
    (h : name ∈ namesOf ds kind) :
    ∃ existing, (declaredBy inputPath ds).kindOf? name = some existing := by
  simp only [kindOf?, OrderedMap.contains_iff_mem_keys, keys_states_declaredBy,
    keys_events_declaredBy, List.contains_iff_mem, mem_preconditionNames_declaredBy,
    mem_callbackNames_declaredBy]
  split
  · exact ⟨_, rfl⟩
  split
  · exact ⟨_, rfl⟩
  split
  · exact ⟨_, rfl⟩
  split
  · exact ⟨_, rfl⟩
  · cases kind <;> contradiction

/-- A name is fit for something of a kind if it is not reserved and denotes nothing else. -/
private theorem checkName_eq_ok_iff {m : Model} {name : String} {kind : NameKind} :
    m.checkName name kind = .ok () ↔
      Config.isReserved name = false ∧
        ∀ existing, m.kindOf? name = some existing → existing = kind := by
  unfold checkName
  by_cases hreserved : Config.isReserved name
  · simp [hreserved]
  · cases m.kindOf? name with
    | none => simp [hreserved]
    | some existing =>
      by_cases heq : existing = kind
      · simp [hreserved, heq]
      · by_cases hhook : existing.isHook && kind.isHook <;> simp [hreserved, heq, hhook]

/-- An accepted name is not reserved and was not declared as anything else. -/
private theorem free_of_checkName (hu : Unambiguous ds) {name : String} {kind : NameKind}
    (h : (declaredBy inputPath ds).checkName name kind = .ok ()) :
    Config.isReserved name = false ∧ ∀ other, name ∈ namesOf ds other → other = kind := by
  obtain ⟨hfree, hkind⟩ := checkName_eq_ok_iff.1 h
  refine ⟨hfree, fun other hother ↦ ?_⟩
  obtain ⟨existing, hexisting⟩ := exists_kindOf?_of_mem inputPath hother
  rw [hu.kind_eq other existing name hother (mem_namesOf_of_kindOf? hexisting)]
  exact hkind existing hexisting

/-- Whoever introduces a name that agrees with all the others may do so at any time. -/
private theorem checkName_of_unambiguous {before rest : List Declaration} {d : Declaration}
    (hu : Unambiguous (before ++ d :: rest)) {name : String} {kind : NameKind}
    (hd : d.kind.named? = some (kind, name)) :
    (declaredBy inputPath before).checkName name kind = .ok () := by
  have hname : name ∈ namesOf (before ++ d :: rest) kind :=
    mem_namesOf_iff.2 ⟨d, by simp, hd⟩
  refine checkName_eq_ok_iff.2 ⟨hu.free kind name hname, fun existing hexisting ↦ ?_⟩
  have hold := mem_namesOf_of_subset (List.subset_append_left before (d :: rest))
    (mem_namesOf_of_kindOf? hexisting)
  exact hu.kind_eq existing kind name hold hname

/-- What was declared, the model has. -/
private theorem hasTarget_of_declares (hc : Consistent ds) {t : HookTarget} (h : Declares ds t) :
    (declaredBy inputPath ds).HasTarget t := by
  cases t with
  | entry state | exit state =>
    rw [HasTarget, keys_states_declaredBy]
    exact h
  | event event =>
    rw [HasTarget, keys_events_declaredBy]
    exact h
  | transition source via =>
    obtain ⟨e, he, rfl⟩ := h
    refine ⟨?_, Option.isSome_iff_ne_none.2 fun hnone ↦ ?_⟩
    · rw [keys_states_declaredBy]
      exact hc.source_declared source (List.ne_nil_of_mem he)
    · exact (edge?_declaredBy_eq_none_iff hc).1 hnone (List.mem_map_of_mem he)

/-- Accepting a declaration includes accepting the name that it introduces. -/
private theorem checkName_of_admits {m : Model} {d : Kind} (h : m.Admits d) {name : String}
    {kind : NameKind} (hd : d.named? = some (kind, name)) : m.checkName name kind = .ok () := by
  cases d <;> simp only [Kind.named?, Option.some.injEq, Prod.mk.injEq, reduceCtorEq] at hd <;>
    obtain ⟨rfl, rfl⟩ := hd
  · exact h.2
  · exact h.2.1
  · exact h.1
  · exact h.1

/-- An accepted declaration agrees with those before it. -/
theorem acceptable_snoc {d : Declaration} (ha : Acceptable ds)
    (h : (declaredBy inputPath ds).Admits d.kind) : Acceptable (ds ++ [d]) where
  consistent := ha.consistent.snoc (fits_of_admits ha.consistent h)
  unambiguous := ha.unambiguous.snoc fun _ _ hd ↦
    free_of_checkName ha.unambiguous (checkName_of_admits h hd)
  config_valid := by
    intro e he key value hkey
    rcases List.mem_append.1 he with he | he
    · exact ha.config_valid e he key value hkey
    · rw [List.mem_singleton.1 he] at hkey
      rw [hkey] at h
      exact h
  edges_without_callbacks := by
    intro source via
    rw [callbacksOn_snoc, ha.edges_without_callbacks source via, List.nil_append]
    cases hkind : d.kind <;> simp
    case callback target name =>
      rw [hkind] at h
      exact h.2.2 source via

private theorem not_mem_of_nodup {α : Type} {f : Declaration → Option α}
    {before rest : List Declaration} {d : Declaration} {a : α}
    (h : ((before ++ d :: rest).filterMap f).Nodup) (hd : f d = some a) :
    a ∉ before.filterMap f := by
  rw [List.filterMap_append, List.filterMap_cons_some hd, List.nodup_append] at h
  intro hmem
  exact h.2.2 a hmem a List.mem_cons_self rfl

/-- In staged declarations that agree as a whole, each is accepted when its turn comes. -/
theorem admits_of_acceptable {before rest : List Declaration} {d : Declaration}
    (ha : Acceptable (before ++ d :: rest)) (hs : Staged (before ++ d :: rest))
    (hc : Consistent before) : (declaredBy inputPath before).Admits d.kind := by
  have hname {name : String} {kind : NameKind} (hd : d.kind.named? = some (kind, name)) :
      (declaredBy inputPath before).checkName name kind = .ok () :=
    checkName_of_unambiguous ha.unambiguous hd
  have hwhole := ha.consistent
  have hmem : d ∈ before ++ d :: rest := List.mem_append_right before List.mem_cons_self
  obtain ⟨kind, span⟩ := d
  cases kind with
  | state name =>
    refine ⟨?_, hname rfl⟩
    rw [keys_states_declaredBy]
    exact not_mem_of_nodup hwhole.states_nodup rfl
  | event name =>
    refine ⟨?_, hname rfl, ?_⟩
    · rw [keys_events_declaredBy]
      exact not_mem_of_nodup hwhole.events_nodup rfl
    · have hlinks := hs.hasLink_eq_false rfl
      simp only [declaredBy, styleDeclaredBy, hlinks]
      split <;> simp
  | transition source event target =>
    have hlink : ⟨event, target⟩ ∈ linksFrom _ source :=
      List.mem_filterMap.2 ⟨_, hmem, by simp⟩
    have hkeys := hwhole.links_nodup source
    rw [linksFrom, List.map_filterMap] at hkeys
    simp only [Admits, keys_states_declaredBy, keys_events_declaredBy,
      edge?_declaredBy_eq_none_iff hc]
    rw [← hs.stateNames_eq Nat.zero_lt_one, ← hs.eventNames_eq Nat.zero_lt_one]
    refine ⟨hwhole.source_declared source (List.ne_nil_of_mem hlink),
      hwhole.target_declared source _ hlink, ?_, ?_⟩
    · cases event with
      | some event => exact hwhole.event_declared source _ hlink event rfl
      | none => exact hwhole.events_of_direct source _ hlink rfl
    · rw [linksFrom, List.map_filterMap]
      exact not_mem_of_nodup hkeys (by simp [Link.key])
  | initial name =>
    rw [Admits, keys_states_declaredBy, ← hs.stateNames_eq Nat.zero_lt_one]
    exact ⟨hwhole.initial_declared name (List.mem_filterMap.2 ⟨_, hmem, rfl⟩),
      not_mem_of_nodup hwhole.initial_nodup rfl⟩
  | precondition target name =>
    have hguards : name ∈ guardsOn _ target := List.mem_filterMap.2 ⟨_, hmem, by simp⟩
    exact ⟨hname rfl, hasTarget_of_declares hc
      (hs.declares rfl (hwhole.guards_declared target (List.ne_nil_of_mem hguards)))⟩
  | callback target name =>
    have hcallbacks : name ∈ callbacksOn _ target :=
      List.mem_filterMap.2 ⟨_, hmem, by simp⟩
    refine ⟨hname rfl, hasTarget_of_declares hc
      (hs.declares rfl (hwhole.callbacks_declared target (List.ne_nil_of_mem hcallbacks))), ?_⟩
    rintro source via rfl
    rw [ha.edges_without_callbacks source via] at hcallbacks
    cases hcallbacks
  | config key value =>
    exact ha.config_valid _ hmem key value rfl

/-- The check of the whole, in terms of the declarations. -/
theorem check_declaredBy_eq_ok_iff :
    (declaredBy inputPath ds).check = .ok () ↔
      2 ≤ (stateNames ds).length ∧ initialNames ds ≠ [] ∧
        ∀ kind, ∀ name ∈ namesOf ds kind, name ∉ (declaredBy inputPath ds).emittedNames := by
  have hsize : (declaredBy inputPath ds).states.size = (stateNames ds).length :=
    OrderedMap.size_numbered _
  have hnames (name : String) :
      name ∈ (declaredBy inputPath ds).declaredNames.map Prod.fst ↔
        ∃ kind, name ∈ namesOf ds kind := by
    have hkind : (∃ kind, name ∈ namesOf ds kind) ↔
        name ∈ stateNames ds ∨ name ∈ eventNames ds ∨ name ∈ guardUses ds ∨
          name ∈ callbackUses ds := by
      constructor
      · rintro ⟨kind, h⟩
        cases kind <;> simp_all [namesOf]
      · rintro (h | h | h | h)
        · exact ⟨.state, h⟩
        · exact ⟨.event, h⟩
        · exact ⟨.precondition, h⟩
        · exact ⟨.callback, h⟩
    simp [hkind, declaredNames, mem_preconditionNames_declaredBy, mem_callbackNames_declaredBy]
  rw [check_eq_ok_iff, hsize]
  simp only [hnames, forall_exists_index]
  exact and_congr_right fun _ ↦ and_congr_right fun _ ↦
    ⟨fun h kind name hname ↦ h name kind hname, fun h name kind hname ↦ h kind name hname⟩

/-! ## Runs -/

/-- Nothing disagrees with nothing. -/
theorem acceptable_nil : Acceptable [] where
  consistent := consistent_nil
  unambiguous :=
    { free := by
        intro kind name hname
        obtain ⟨d, hd, -⟩ := mem_namesOf_iff.1 hname
        cases hd
      kind_eq := by
        intro kind other name hname
        obtain ⟨d, hd, -⟩ := mem_namesOf_iff.1 hname
        cases hd }
  config_valid := by simp
  edges_without_callbacks := by simp [callbacksOn]

/-- Declarations that are all accepted agree with each other. -/
theorem acceptable_of_applyAll {m : Model} {before : List Declaration} (ha : Acceptable before)
    (h : applyAll ds (declaredBy inputPath before) = .ok () m) : Acceptable (before ++ ds) := by
  induction ds generalizing before with
  | nil => simpa using ha
  | cons d ds ih =>
    simp only [applyAll, bind, EStateM.bind] at h
    cases hd : apply d (declaredBy inputPath before) with
    | error e m' =>
      rw [hd] at h
      cases h
    | ok _ m' =>
      rw [hd] at h
      obtain ⟨rfl, -⟩ := apply_declaredBy ha.consistent hd
      have hnext := ih (acceptable_snoc ha (apply_eq_ok_iff.1 hd).1) h
      simpa using hnext

/-- Staged declarations that agree with each other are all accepted. -/
theorem applyAll_of_acceptable {before : List Declaration} (ha : Acceptable (before ++ ds))
    (hs : Staged (before ++ ds)) (hc : Consistent before) :
    applyAll ds (declaredBy inputPath before) = .ok () (declaredBy inputPath (before ++ ds)) := by
  induction ds generalizing before with
  | nil => simp only [List.append_nil]; rfl
  | cons d ds ih =>
    have hadmits : (declaredBy inputPath before).Admits d.kind := admits_of_acceptable ha hs hc
    have hrecord := record_declaredBy hc hadmits
    have happly := apply_eq_ok_iff.2 ⟨hadmits, hrecord.symm⟩
    simp only [applyAll, bind, EStateM.bind, happly]
    have hsplit : before ++ d :: ds = before ++ [d] ++ ds := by simp
    rw [hsplit] at ha hs ⊢
    exact ih ha hs (hc.snoc (fits_of_admits hc hadmits))

/-- Staged declarations are all accepted if and only if they agree with each other, and then the
machine is published if and only if it passes the check of the whole. -/
theorem build_eq_ok_iff (hs : Staged ds) :
    (∃ ns, build inputPath ds = .ok ns) ↔
      Acceptable ds ∧ (declaredBy inputPath ds).check = .ok () := by
  rw [build, initial_eq_declaredBy]
  constructor
  · rintro ⟨ns, h⟩
    cases hrun : applyAll ds (declaredBy inputPath []) with
    | error e m =>
      rw [hrun] at h
      cases h
    | ok _ m =>
      obtain ⟨rfl, -⟩ := applyAll_declaredBy consistent_nil hrun
      rw [hrun] at h
      exact ⟨acceptable_of_applyAll acceptable_nil hrun, (finalize_eq_ok_iff.1 h).1⟩
  · rintro ⟨ha, hcheck⟩
    have hrun : applyAll ds (declaredBy inputPath []) = .ok () (declaredBy inputPath ds) :=
      applyAll_of_acceptable ha hs consistent_nil
    rw [hrun]
    exact ⟨_, finalize_eq_ok_iff.2 ⟨hcheck, rfl⟩⟩

end Model

end StateGen
