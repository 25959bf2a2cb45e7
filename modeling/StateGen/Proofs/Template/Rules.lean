import StateGen.Proofs.Template.Semantics

/-!
# Rules of evaluation

The meaning of a template as rules over environments: which value a path denotes, when a condition
holds, and which text a list of nodes emits before it ends or fails. The rules mention neither a
stack nor a sink. They give every list of nodes exactly one output, and a renderer with any stack
of scopes writes it and leaves the stack as it was.
-/

namespace StateGen.Template

/-! ## Environments -/

namespace Env

/-- The environment in which a name has a value. -/
def bind (env : Env) (name : String) (v : Value) : Env := fun n ↦
  if n = name then some v else env n

/-- The environment of a stack of scopes, innermost first, over the names of a namespace. -/
def ofScopes (root : Value) : List (String × Value) → Env
  | [] => root.get?
  | (name, v) :: scopes => (ofScopes root scopes).bind name v

/-- The environment of one round of a loop: what the round is, then its key, then its value. -/
def inRound (env : Env) (key : Option String) (value : String) (index length : Nat)
    (entry : Value × Value) : Env :=
  let round : Env := env.bind "loop" <| .map
    ⟨[("index", .int index), ("first", .ofBool (index = 0)),
      ("last", .ofBool (index + 1 = length)), ("length", .int length)]⟩
  let keyed : Env :=
    match key with
    | some name => round.bind name entry.1
    | none => round
  keyed.bind value entry.2

end Env

/-! ## Paths and conditions -/

/-- Steps lead from one value to another. A path in brackets stands for the key or the position that
it denotes. -/
inductive Leads (env : Env) : List Path.Step → Value → Value → Prop where
  | done {v : Value} : Leads env [] v v
  | key {fields : OrderedMap Value} {name : String} {steps : List Path.Step} {w u : Value} :
    fields.get? name = some w → Leads env steps w u → Leads env (.key name :: steps) (.map fields) u
  | item {items : List Value} {i : Nat} {steps : List Path.Step} {w u : Value} :
    items[i]? = some w → Leads env steps w u → Leads env (.index i :: steps) (.seq items) u
  | entry {fields : OrderedMap Value} {i : Nat} {key : String} {steps : List Path.Step}
      {w u : Value} :
    fields.entries[i]? = some (key, w) → Leads env steps w u →
      Leads env (.index i :: steps) (.map fields) u
  | byKey {root name : String} {selector steps : List Path.Step} {start v u : Value} :
    env root = some start → Leads env selector start (.str name) →
      Leads env (.key name :: steps) v u → Leads env (.lookup root selector :: steps) v u
  | byPosition {root : String} {i : Nat} {selector steps : List Path.Step} {start v u : Value} :
    env root = some start → Leads env selector start (.int i) →
      Leads env (.index i :: steps) v u → Leads env (.lookup root selector :: steps) v u

/-- A path denotes a value. -/
def Denotes (env : Env) (p : Path) (v : Value) : Prop :=
  ∃ start, env p.root = some start ∧ Leads env p.steps start v

/-- A condition holds: its path denotes a true value, or does not if the condition is negated. -/
def Condition.Holds (env : Env) (c : Condition) : Prop :=
  (∃ v, Denotes env c.path v ∧ v.isTruthy) ↔ c.negated = false

private theorem followSteps_of_leads {env : Env} {steps : List Path.Step} {v u : Value}
    (h : Leads env steps v u) : Path.followSteps env steps v = some u := by
  induction h with
  | done => rw [Path.followSteps]
  | key hw _ ih => simp [Path.followSteps, Path.Step.follow, Value.get?, hw, ih]
  | item hw _ ih => simp [Path.followSteps, Path.Step.follow, Path.atPosition?, hw, ih]
  | entry hw _ ih =>
    simp [Path.followSteps, Path.Step.follow, Path.atPosition?, OrderedMap.entryAt, hw, ih]
  | byKey hstart _ _ hselector ih =>
    simp only [Path.followSteps, Path.Step.follow] at ih ⊢
    simp [hstart, hselector, Path.select?, ih]
  | byPosition hstart _ _ hselector ih =>
    simp only [Path.followSteps, Path.Step.follow] at ih ⊢
    simp [hstart, hselector, Path.select?, ih]

private theorem leads_key {env : Env} {name : String} {steps : List Path.Step} {v w u : Value}
    (hw : v.get? name = some w) (h : Leads env steps w u) : Leads env (.key name :: steps) v u := by
  cases v with
  | map fields => exact .key hw h
  | str | int | seq => cases hw

private theorem leads_index {env : Env} {i : Nat} {steps : List Path.Step} {v w u : Value}
    (hw : Path.atPosition? v i = some w) (h : Leads env steps w u) :
    Leads env (.index i :: steps) v u := by
  cases v with
  | seq items => exact .item hw h
  | map fields =>
    obtain ⟨⟨key, w⟩, hentry, rfl⟩ := Option.map_eq_some_iff.1 hw
    exact .entry hentry h
  | str | int => cases hw

private theorem leads_of_followSteps (env : Env) :
    ∀ (steps : List Path.Step) (v u : Value), Path.followSteps env steps v = some u →
      Leads env steps v u
  | [], v, u, h => by
    rw [Path.followSteps] at h
    cases h
    exact .done
  | .key name :: steps, v, u, h => by
    rw [Path.followSteps, Path.Step.follow] at h
    obtain ⟨w, hw, hrest⟩ := Option.bind_eq_some_iff.1 h
    exact leads_key hw (leads_of_followSteps env steps w u hrest)
  | .index i :: steps, v, u, h => by
    rw [Path.followSteps, Path.Step.follow] at h
    obtain ⟨w, hw, hrest⟩ := Option.bind_eq_some_iff.1 h
    exact leads_index hw (leads_of_followSteps env steps w u hrest)
  | .lookup root selector :: steps, v, u, h => by
    rw [Path.followSteps, Path.Step.follow] at h
    obtain ⟨w, hw, hrest⟩ := Option.bind_eq_some_iff.1 h
    obtain ⟨start, hstart, hselect⟩ := Option.bind_eq_some_iff.1 hw
    obtain ⟨which, hselector, hwhich⟩ := Option.bind_eq_some_iff.1 hselect
    have hinner := leads_of_followSteps env selector start which hselector
    have hsteps := leads_of_followSteps env steps w u hrest
    cases which with
    | str name => exact .byKey hstart hinner (leads_key hwhich hsteps)
    | int n =>
      rw [Path.select?] at hwhich
      split at hwhich
      · next hn =>
        have hn : n = (n.toNat : Int) := (Int.toNat_of_nonneg hn).symm
        rw [hn] at hinner
        exact .byPosition hstart hinner (leads_index hwhich hsteps)
      · cases hwhich
    | seq | map => cases hwhich

/-- The value of a path is the one that it denotes. -/
theorem denotes_iff {env : Env} {p : Path} {v : Value} :
    Denotes env p v ↔ p.resolve env = some v := by
  rw [Path.resolve, Denotes]
  constructor
  · rintro ⟨start, hstart, h⟩
    exact Option.bind_eq_some_iff.2 ⟨start, hstart, followSteps_of_leads h⟩
  · intro h
    obtain ⟨start, hstart, h⟩ := Option.bind_eq_some_iff.1 h
    exact ⟨start, hstart, leads_of_followSteps env p.steps start v h⟩

private theorem resolve_eq_none_iff {env : Env} {p : Path} :
    p.resolve env = none ↔ ¬ ∃ v, Denotes env p v := by
  simp [denotes_iff, Option.eq_none_iff_forall_ne_some]

private theorem holds_iff {env : Env} {c : Condition} : c.Holds env ↔ c.holds env = true := by
  rw [Condition.Holds, Condition.holds]
  simp only [denotes_iff]
  cases hvalue : c.path.resolve env with
  | none => cases c.negated <;> simp
  | some v => cases hv : v.isTruthy <;> cases c.negated <;> simp [hv]

/-! ## Nodes -/

/-- The entries of a container in their order: the items of a sequence with their indices, the
values of a mapping with their keys. -/
inductive HasEntries : Value → List (Value × Value) → Prop where
  | seq (items : List Value) :
    HasEntries (.seq items) (items.mapIdx fun i item ↦ (.int i, item))
  | map (fields : OrderedMap Value) :
    HasEntries (.map fields) (fields.entries.map fun e ↦ (.str e.1, e.2))

mutual

/-- A node emits an output. -/
inductive Node.Emits : Env → Node → Output → Prop where
  | text {env : Env} {s : String} : Node.Emits env (.text s) ⟨s, none⟩
  | string {env : Env} {path : Path} {span : Span} {s : String} :
    Denotes env path (.str s) → Node.Emits env (.subst path span) ⟨s, none⟩
  | integer {env : Env} {path : Path} {span : Span} {n : Int} :
    Denotes env path (.int n) → Node.Emits env (.subst path span) ⟨toString n, none⟩
  | missing {env : Env} {path : Path} {span : Span} :
    (¬ ∃ v, Denotes env path v) →
      Node.Emits env (.subst path span) ⟨"", some (.unresolvedReference path.display span)⟩
  | notScalar {env : Env} {path : Path} {span : Span} {v : Value} :
    Denotes env path v → v.kind ∈ [.sequence, .mapping] →
      Node.Emits env (.subst path span) ⟨"", some (.notScalar path.display v.kind span)⟩
  | branch {env : Env} {before after : List (Condition × List Node)} {c : Condition}
      {body otherwise : List Node} {o : Output} :
    (∀ b ∈ before, ¬ b.1.Holds env) → c.Holds env → Emits env body o →
      Node.Emits env (.choice (before ++ (c, body) :: after) otherwise) o
  | otherwise {env : Env} {branches : List (Condition × List Node)} {otherwise : List Node}
      {o : Output} :
    (∀ b ∈ branches, ¬ b.1.Holds env) → Emits env otherwise o →
      Node.Emits env (.choice branches otherwise) o
  | loop {env : Env} {key : Option String} {value : String} {path : Path} {body : List Node}
      {span : Span} {v : Value} {entries : List (Value × Value)} {o : Output} :
    Denotes env path v → HasEntries v entries →
      EmitsRounds env key value body entries.length 0 entries o →
      Node.Emits env (.loop key value path body span) o
  | loopMissing {env : Env} {key : Option String} {value : String} {path : Path}
      {body : List Node} {span : Span} :
    (¬ ∃ v, Denotes env path v) →
      Node.Emits env (.loop key value path body span)
        ⟨"", some (.unresolvedReference path.display span)⟩
  | notIterable {env : Env} {key : Option String} {value : String} {path : Path}
      {body : List Node} {span : Span} {v : Value} :
    Denotes env path v → v.kind ∈ [.string, .integer] →
      Node.Emits env (.loop key value path body span)
        ⟨"", some (.notIterable path.display v.kind span)⟩

/-- Nodes emit their outputs one after the other, up to the first that fails. -/
inductive Emits : Env → List Node → Output → Prop where
  | nil {env : Env} : Emits env [] ⟨"", none⟩
  | cons {env : Env} {n : Node} {ns : List Node} {s t : String} {failure : Option Error} :
    Node.Emits env n ⟨s, none⟩ → Emits env ns ⟨t, failure⟩ → Emits env (n :: ns) ⟨s ++ t, failure⟩
  | stop {env : Env} {n : Node} {ns : List Node} {s : String} {e : Error} :
    Node.Emits env n ⟨s, some e⟩ → Emits env (n :: ns) ⟨s, some e⟩

/-- The rounds of a loop emit their outputs one after the other, up to the first that fails; the
first of the entries has the given index. -/
inductive EmitsRounds : Env → Option String → String → List Node → Nat → Nat →
    List (Value × Value) → Output → Prop where
  | done {env : Env} {key : Option String} {value : String} {body : List Node}
      {length index : Nat} : EmitsRounds env key value body length index [] ⟨"", none⟩
  | next {env : Env} {key : Option String} {value : String} {body : List Node}
      {length index : Nat} {entry : Value × Value} {entries : List (Value × Value)}
      {s t : String} {failure : Option Error} :
    Emits (env.inRound key value index length entry) body ⟨s, none⟩ →
      EmitsRounds env key value body length (index + 1) entries ⟨t, failure⟩ →
      EmitsRounds env key value body length index (entry :: entries) ⟨s ++ t, failure⟩
  | stop {env : Env} {key : Option String} {value : String} {body : List Node}
      {length index : Nat} {entry : Value × Value} {entries : List (Value × Value)}
      {s : String} {e : Error} :
    Emits (env.inRound key value index length entry) body ⟨s, some e⟩ →
      EmitsRounds env key value body length index (entry :: entries) ⟨s, some e⟩

end

/-! ## The rules and the output -/

private theorem hasEntries_iff {v : Value} {entries : List (Value × Value)} :
    HasEntries v entries ↔ Renderer.entries? v = some entries := by
  have hseq (items : List Value) : Renderer.entries? (.seq items) =
      some (items.mapIdx fun i item ↦ (.int i, item)) := by
    rw [Renderer.entries?, List.mapIdx_eq_zipIdx_map]
  constructor
  · rintro (items | fields)
    · exact hseq items
    · rfl
  · intro h
    cases v with
    | seq items =>
      rw [hseq] at h
      cases h
      exact .seq items
    | map fields =>
      cases h
      exact .map fields
    | str | int => cases h

private theorem bind_extend (env : Env) (name : String) (v : Value)
    (scopes : List (String × Value)) :
    (env.extend scopes).bind name v = env.extend ((name, v) :: scopes) := by
  funext n
  by_cases hn : n = name
  · simp [Env.bind, Env.extend, hn]
  · simp [Env.bind, Env.extend, List.lookup_cons, hn, beq_eq_false_iff_ne.2 hn]

private theorem inRound_eq_extend (env : Env) (key : Option String) (value : String)
    (index length : Nat) (entry : Value × Value) :
    env.inRound key value index length entry =
      env.extend (Renderer.roundScopes key value index length entry) := by
  have hround : env.bind "loop" (Renderer.loopInfo index length) =
      env.extend [(Renderer.loopVariable, Renderer.loopInfo index length)] :=
    bind_extend env "loop" _ []
  cases key with
  | none =>
    calc env.inRound none value index length entry
      _ = (env.bind "loop" (Renderer.loopInfo index length)).bind value entry.2 := rfl
      _ = env.extend [(value, entry.2), ("loop", Renderer.loopInfo index length)] := by
        rw [hround, bind_extend]
        rfl
  | some name =>
    calc env.inRound (some name) value index length entry
      _ = ((env.bind "loop" (Renderer.loopInfo index length)).bind name entry.1).bind value
          entry.2 := rfl
      _ = env.extend
          [(value, entry.2), (name, entry.1), ("loop", Renderer.loopInfo index length)] := by
        rw [hround, bind_extend, bind_extend]
        rfl

private theorem ofScopes_eq_env (root : Value) (r : Renderer) :
    Env.ofScopes root r.scopes = r.env root := by
  have hextend (scopes : List (String × Value)) :
      Env.ofScopes root scopes = Env.extend root.get? scopes := by
    induction scopes with
    | nil => rfl
    | cons scope scopes ih => rw [Env.ofScopes, ih, bind_extend]
  rw [hextend]
  funext n
  simp only [Env.extend, Renderer.env, Renderer.lookup]
  cases r.scopes.lookup n <;> rfl

private theorem firstOutput_skip {env : Env} {before after : List (Condition × List Node)}
    (h : ∀ b ∈ before, ¬ b.1.Holds env) :
    firstOutput (before ++ after) env = firstOutput after env := by
  induction before with
  | nil => rfl
  | cons b before ih =>
    have hb : ¬ b.1.holds env = true := fun hb ↦ h b List.mem_cons_self (holds_iff.2 hb)
    rw [List.cons_append, firstOutput, if_neg hb, ih fun b hb ↦ h b (List.mem_cons_of_mem _ hb)]

private theorem firstOutput_eq_none {env : Env} {branches : List (Condition × List Node)}
    (h : ∀ b ∈ branches, ¬ b.1.Holds env) : firstOutput branches env = none := by
  rw [← List.append_nil branches, firstOutput_skip h, firstOutput]

mutual

-- The recursion is on derivations: every rule reads off one equation of the output.
private theorem Node.Emits.eq_output {env : Env} {n : Node} {o : Output} :
    Node.Emits env n o → o = n.output env
  | .text => by rw [Node.output]
  | .string h => by rw [Node.output, substitution, denotes_iff.1 h]
  | .integer h => by rw [Node.output, substitution, denotes_iff.1 h]
  | .missing h => by rw [Node.output, substitution, resolve_eq_none_iff.2 h, Output.fail]
  | .notScalar (v := v) h hkind => by
    rw [Node.output, substitution, denotes_iff.1 h]
    cases v with
    | seq | map => rfl
    | str | int => simp [Value.kind] at hkind
  | .branch hbefore hc hbody => by
    rw [Node.output, firstOutput_skip hbefore, firstOutput, if_pos (holds_iff.1 hc)]
    exact hbody.eq_outputs
  | .otherwise hbranches ho => by
    rw [Node.output, firstOutput_eq_none hbranches]
    exact ho.eq_outputs
  | .loop h hentries hrounds => by
    rw [Node.output, entriesAt, denotes_iff.1 h]
    simp only [hasEntries_iff.1 hentries]
    exact hrounds.eq_rounds
  | .loopMissing h => by
    rw [Node.output, entriesAt, resolve_eq_none_iff.2 h]
    rfl
  | .notIterable (v := v) h hkind => by
    rw [Node.output, entriesAt, denotes_iff.1 h]
    cases v with
    | str | int => rfl
    | seq | map => simp [Value.kind] at hkind

private theorem Emits.eq_outputs {env : Env} {ns : List Node} {o : Output} :
    Emits env ns o → o = outputs ns env
  | .nil => by rw [outputs]
  | .cons hn hns => by rw [outputs, ← hn.eq_output, ← hns.eq_outputs, Output.andThen]
  | .stop hn => by rw [outputs, ← hn.eq_output, Output.andThen]

private theorem EmitsRounds.eq_rounds {env : Env} {key : Option String} {value : String}
    {body : List Node} {length index : Nat} {entries : List (Value × Value)} {o : Output} :
    EmitsRounds env key value body length index entries o →
      o = rounds key value length (fun scopes ↦ outputs body (env.extend scopes)) index entries
  | .done => by rw [rounds]
  | .next hbody hrest => by
    rw [rounds, ← inRound_eq_extend, ← hbody.eq_outputs, ← hrest.eq_rounds, Output.andThen]
  | .stop hbody => by rw [rounds, ← inRound_eq_extend, ← hbody.eq_outputs, Output.andThen]

end

private theorem emits_cons {env : Env} {n : Node} {ns : List Node} {a b : Output}
    (hn : n.Emits env a) (hns : Emits env ns b) : Emits env (n :: ns) (a.andThen b) := by
  obtain ⟨s, failure⟩ := a
  cases failure with
  | none => exact .cons hn hns
  | some e => exact .stop hn

private theorem emits_rounds {env : Env} {key : Option String} {value : String} {body : List Node}
    (hbody : ∀ env : Env, Emits env body (outputs body env)) (length index : Nat)
    (entries : List (Value × Value)) :
    EmitsRounds env key value body length index entries
      (rounds key value length (fun scopes ↦ outputs body (env.extend scopes)) index entries) := by
  induction entries generalizing index with
  | nil => exact .done
  | cons entry entries ih =>
    have hround := hbody (env.inRound key value index length entry)
    rw [rounds, ← inRound_eq_extend]
    cases h : outputs body (env.inRound key value index length entry) with
    | mk s failure =>
      rw [h] at hround
      cases failure with
      | none => exact .next hround (ih (index + 1))
      | some e => exact .stop hround

private theorem emits_substitution {env : Env} (path : Path) (span : Span) :
    Node.Emits env (.subst path span) (substitution path span env) := by
  rw [substitution]
  cases h : path.resolve env with
  | none => exact .missing (resolve_eq_none_iff.1 h)
  | some v =>
    cases v with
    | str s => exact .string (denotes_iff.2 h)
    | int n => exact .integer (denotes_iff.2 h)
    | seq | map => exact .notScalar (denotes_iff.2 h) (by simp [Value.kind])

mutual

private theorem Node.emits_output (env : Env) (n : Node) : n.Emits env (n.output env) := by
  match n with
  | .text s =>
    rw [Node.output]
    exact .text
  | .subst path span =>
    rw [Node.output]
    exact emits_substitution path span
  | .loop key value path body span =>
    rw [Node.output, entriesAt]
    cases h : path.resolve env with
    | none => exact .loopMissing (resolve_eq_none_iff.1 h)
    | some v =>
      cases hentries : Renderer.entries? v with
      | none =>
        simp only [hentries]
        refine .notIterable (denotes_iff.2 h) ?_
        cases v with
        | str | int => simp [Value.kind]
        | seq | map => cases hentries
      | some entries =>
        simp only [hentries]
        exact .loop (denotes_iff.2 h) (hasEntries_iff.2 hentries)
          (emits_rounds (fun env ↦ emits_outputs env body) _ 0 entries)
  | .choice branches otherwise =>
    exact emits_choice env [] branches (by simp) (emits_outputs env otherwise)

private theorem emits_outputs (env : Env) (ns : List Node) : Emits env ns (outputs ns env) := by
  match ns with
  | [] =>
    rw [outputs]
    exact .nil
  | n :: ns =>
    rw [outputs]
    exact emits_cons (n.emits_output env) (emits_outputs env ns)

/-- Branches that do not apply may stand in front of the others. -/
private theorem emits_choice (env : Env) (before branches : List (Condition × List Node))
    {otherwise : List Node} (hbefore : ∀ b ∈ before, ¬ b.1.Holds env)
    (hotherwise : Emits env otherwise (outputs otherwise env)) :
    Node.Emits env (.choice (before ++ branches) otherwise)
      (Node.output (.choice branches otherwise) env) := by
  match branches with
  | [] =>
    rw [Node.output, firstOutput, List.append_nil]
    exact .otherwise hbefore hotherwise
  | (c, body) :: branches =>
    rw [Node.output, firstOutput]
    by_cases hc : c.holds env = true
    · rw [if_pos hc]
      exact .branch hbefore (holds_iff.2 hc) (emits_outputs env body)
    · have hskipped : ∀ b ∈ before ++ [(c, body)], ¬ b.1.Holds env := by
        intro b hb
        obtain hb | hb := List.mem_append.1 hb
        · exact hbefore b hb
        · rw [List.mem_singleton.1 hb, holds_iff]
          exact hc
      have hrest := emits_choice env (before ++ [(c, body)]) branches hskipped hotherwise
      rw [Node.output, List.append_assoc] at hrest
      rw [if_neg hc]
      exact hrest

end

/-- The rules give nodes exactly one output. -/
theorem emits_iff {env : Env} {ns : List Node} {o : Output} :
    Emits env ns o ↔ o = outputs ns env :=
  ⟨Emits.eq_outputs, fun h ↦ h ▸ emits_outputs env ns⟩

/-- A renderer whose sink takes everything does what the rules say: nodes have exactly one output in
the environment of its scopes, and rendering them appends the text of that output to the sink, ends
or fails as it does, and leaves the scopes as they were. -/
theorem renderNodes_performs_emits (root : Value) (ns : List Node) (r : Renderer)
    (hr : r.sink.capacity = none) :
    ∃ o, (∀ o', Emits (Env.ofScopes root r.scopes) ns o' ↔ o' = o) ∧
      Performs (Renderer.renderNodes root ns) r o := by
  refine ⟨outputs ns (r.env root), fun o' ↦ ?_, performs_renderNodes root ns r hr⟩
  rw [ofScopes_eq_env, emits_iff]

/-- In a loop over two items the variables hide an outer one, which is back behind the loop; the key
is not, so its use there fails after the text before it. -/
theorem renderNodes_performs_emits_loop :
    let root : Value := .map ⟨[("xs", .seq [.str "a", .int 7])]⟩
    let r : Renderer := { scopes := [("x", .str "outer")], sink := {} }
    let ns : List Node :=
      [.loop (some "i") "x" ⟨"xs", []⟩
        [.subst ⟨"i", []⟩ .none, .subst ⟨"x", []⟩ .none,
          .choice [(⟨true, ⟨"loop", [.key "last"]⟩⟩, [.text ", "])] []] .none,
        .text " ", .subst ⟨"x", []⟩ .none, .subst ⟨"i", []⟩ .none]
    let o : Output := ⟨"0a, 17 outer", some (.unresolvedReference "i" .none)⟩
    r.sink.capacity = none ∧ Emits (Env.ofScopes root r.scopes) ns o ∧
      Performs (Renderer.renderNodes root ns) r o := by
  intro root r ns o
  obtain ⟨o', ho', hperforms⟩ := renderNodes_performs_emits root ns r rfl
  have ho : Emits (Env.ofScopes root r.scopes) ns o := emits_iff.2 rfl
  rw [(ho' o).1 ho]
  exact ⟨rfl, (ho' o').2 rfl, hperforms⟩

end StateGen.Template
