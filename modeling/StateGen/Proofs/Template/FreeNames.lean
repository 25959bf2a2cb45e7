import StateGen.Proofs.Template.Failures

/-!
# What a template sees of its namespace

The names that stand free in a template: the roots of its paths, those of selectors and conditions
included, except where a loop binds them. Two namespaces that agree on these names are the same to
the template, whatever else they contain and in whatever order.
-/

namespace StateGen.Template

/-! ## Free names -/

mutual

/-- The names that a step looks up. -/
def Path.Step.names : Path.Step → List String
  | .key _ | .index _ => []
  | .lookup root steps => root :: Path.stepNames steps

/-- The names that steps look up. -/
def Path.stepNames : List Path.Step → List String
  | [] => []
  | s :: ss => s.names ++ stepNames ss

end

/-- The names that a path looks up: its root and those of its selectors. -/
def Path.names (p : Path) : List String := p.root :: stepNames p.steps

/-- The names that a loop binds in its body. -/
def loopNames (key : Option String) (value : String) : List String :=
  value :: (key.toList ++ [Renderer.loopVariable])

mutual

/-- The names that stand free in a node. -/
def Node.freeNames : Node → List String
  | .text _ => []
  | .subst path _ => path.names
  | .loop key value path body _ =>
    path.names ++ (Template.freeNames body).filter (· ∉ loopNames key value)
  | .choice branches otherwise => branchNames branches ++ Template.freeNames otherwise

/-- The names that stand free in nodes. -/
def freeNames : List Node → List String
  | [] => []
  | n :: ns => n.freeNames ++ freeNames ns

/-- The names that stand free in branches, their conditions included. -/
def branchNames : List (Condition × List Node) → List String
  | [] => []
  | (condition, body) :: branches =>
    condition.path.names ++ freeNames body ++ branchNames branches

end

/-! ## Environments that agree -/

/-- Two environments give some names the same values. -/
def AgreeOn (names : List String) (env env' : Env) : Prop := ∀ name ∈ names, env name = env' name

namespace AgreeOn

variable {names names' : List String} {env env' : Env}

private theorem left (h : AgreeOn (names ++ names') env env') : AgreeOn names env env' :=
  fun name hname ↦ h name (List.mem_append_left names' hname)

private theorem right (h : AgreeOn (names ++ names') env env') : AgreeOn names' env env' :=
  fun name hname ↦ h name (List.mem_append_right names hname)

mutual

private theorem follow (s : Path.Step) (v : Value) (h : AgreeOn s.names env env') :
    s.follow env v = s.follow env' v := by
  match s with
  | .key name => rfl
  | .index i => rfl
  | .lookup root steps =>
    rw [Path.Step.names] at h
    rw [Path.Step.follow, Path.Step.follow, h root List.mem_cons_self]
    cases env' root with
    | none => rfl
    | some start =>
      simp only [Option.bind_eq_bind, Option.bind_some]
      rw [followSteps steps start fun name hname ↦ h name (List.mem_cons_of_mem root hname)]

private theorem followSteps (ss : List Path.Step) (v : Value)
    (h : AgreeOn (Path.stepNames ss) env env') :
    Path.followSteps env ss v = Path.followSteps env' ss v := by
  match ss with
  | [] => rfl
  | s :: ss =>
    rw [Path.stepNames] at h
    rw [Path.followSteps, Path.followSteps, follow s v h.left]
    cases s.follow env' v with
    | none => rfl
    | some next => exact followSteps ss next h.right

end

/-- A path has the same value in environments that agree on its names. -/
private theorem resolve {p : Path} (h : AgreeOn p.names env env') :
    p.resolve env = p.resolve env' := by
  rw [Path.resolve, Path.resolve, h p.root List.mem_cons_self]
  cases env' p.root with
  | none => rfl
  | some start =>
    exact followSteps p.steps start fun name hname ↦ h name (List.mem_cons_of_mem _ hname)

private theorem isSome_lookup_roundScopes {key : Option String} {value name : String}
    (h : name ∈ loopNames key value) (index length : Nat) (entry : Value × Value) :
    ((Renderer.roundScopes key value index length entry).lookup name).isSome := by
  have hkeys : (Renderer.roundScopes key value index length entry).map Prod.fst =
      loopNames key value := by
    cases key <;> rfl
  rw [← hkeys] at h
  exact (OrderedMap.isSome_get?_iff_mem_keys ⟨_⟩ name).mpr h

/-- A round of a loop binds its variables alike, so its environments agree on what else is free in
the body. -/
private theorem extend {key : Option String} {value : String} {body : List Node}
    (h : AgreeOn ((freeNames body).filter (· ∉ loopNames key value)) env env') (index length : Nat)
    (entry : Value × Value) :
    AgreeOn (freeNames body) (env.extend (Renderer.roundScopes key value index length entry))
      (env'.extend (Renderer.roundScopes key value index length entry)) := by
  intro name hname
  simp only [Env.extend]
  by_cases hbound : name ∈ loopNames key value
  · have hsome := isSome_lookup_roundScopes hbound index length entry
    rw [Option.or_of_isSome hsome, Option.or_of_isSome hsome]
  · rw [h name (List.mem_filter.mpr ⟨hname, decide_eq_true hbound⟩)]

end AgreeOn

/-! ## Renderers that do the same -/

/-- Two steps do the same from a renderer, and leave its scopes as they were. -/
structure Alike {α : Type} (r : Renderer) (step step' : Render α) : Prop where
  same : step r = step' r
  scopes : (leftBy (step r)).scopes = r.scopes

namespace Alike

variable {α β : Type} {r : Renderer}

private theorem of_keeps {step : Render α} (h : (leftBy (step r)).scopes = r.scopes) :
    Alike r step step := ⟨rfl, h⟩

private theorem bind {first first' : Render α} {second second' : α → Render β}
    (h : Alike r first first')
    (h' : ∀ a r', r'.scopes = r.scopes → Alike r' (second a) (second' a)) :
    Alike r (first >>= second) (first' >>= second') := by
  have hscopes := h.scopes
  constructor
  · simp only [Bind.bind, EStateM.bind, ← h.same]
    cases hfirst : first r with
    | error e r' => rfl
    | ok a r' =>
      rw [hfirst] at hscopes
      exact (h' a r' hscopes).same
  · simp only [Bind.bind, EStateM.bind]
    cases hfirst : first r with
    | error e r' =>
      rw [hfirst] at hscopes
      exact hscopes
    | ok a r' =>
      rw [hfirst] at hscopes
      exact (h' a r' hscopes).scopes.trans hscopes

/-- The body of a round may look at the variables of the round, which are gone afterwards. -/
private theorem withScopes {scopes : List (String × Value)} {body body' : Render Unit}
    (h : Alike { r with scopes := scopes ++ r.scopes } body body') :
    Alike r (Renderer.withScopes scopes body) (Renderer.withScopes scopes body') := by
  have hscopes := h.scopes
  have hdrop : (scopes ++ r.scopes).drop ((scopes ++ r.scopes).length - r.scopes.length) =
      r.scopes := by
    rw [List.length_append, Nat.add_sub_cancel, List.drop_left]
  constructor
  · simp only [Renderer.withScopes, h.same]
  · simp only [Renderer.withScopes]
    cases hbody : body { r with scopes := scopes ++ r.scopes } with
    | ok a r' | error e r' =>
      rw [hbody] at hscopes
      simp only [leftBy] at hscopes ⊢
      rw [Renderer.truncate, hscopes, hdrop]

private theorem iterate {key : Option String} {value : String} {length : Nat}
    {body body' : Render Unit}
    (hbody : ∀ (r' : Renderer) (index : Nat) (entry : Value × Value),
      r'.scopes = Renderer.roundScopes key value index length entry ++ r.scopes →
        Alike r' body body') (index : Nat) (entries : List (Value × Value)) :
    Alike r (Renderer.iterate key value length body index entries)
      (Renderer.iterate key value length body' index entries) := by
  induction entries generalizing index r with
  | nil => exact .of_keeps rfl
  | cons entry entries ih =>
    rw [Renderer.iterate, Renderer.iterate]
    apply bind (withScopes (hbody _ index entry rfl))
    intro _ r' hr'
    apply ih
    rw [hr']
    exact hbody

private theorem emit (s : String) : Alike r (Renderer.emit s) (Renderer.emit s) := by
  apply of_keeps
  rw [emit_apply]
  cases (r.sink.write (Utf8.encode s)).2 <;> rfl

variable {root root' : Value}

private theorem resolve {p : Path} (h : AgreeOn p.names (r.env root) (r.env root')) :
    Alike r (Renderer.resolve root p) (Renderer.resolve root' p) :=
  ⟨congrArg (EStateM.Result.ok · r) h.resolve, rfl⟩

private theorem require {p : Path} (span : Span)
    (h : AgreeOn p.names (r.env root) (r.env root')) :
    Alike r (Renderer.require root p span) (Renderer.require root' p span) := by
  rw [Renderer.require, Renderer.require]
  apply bind (resolve h)
  intro v r' hr'
  cases v <;> exact .of_keeps rfl

private theorem substitute {p : Path} (span : Span)
    (h : AgreeOn p.names (r.env root) (r.env root')) :
    Alike r (Renderer.substitute root p span) (Renderer.substitute root' p span) := by
  rw [Renderer.substitute, Renderer.substitute]
  apply bind (require span h)
  intro v r' hr'
  cases v with
  | str s => exact emit s
  | int n => exact emit (toString n)
  | seq | map => exact .of_keeps rfl

private theorem holds {c : Condition} (h : AgreeOn c.path.names (r.env root) (r.env root')) :
    Alike r (Renderer.holds root c) (Renderer.holds root' c) := by
  rw [Renderer.holds, Renderer.holds]
  exact bind (resolve h) fun _ _ _ ↦ .of_keeps rfl

private theorem container {p : Path} (span : Span)
    (h : AgreeOn p.names (r.env root) (r.env root')) :
    Alike r (Renderer.container root p span) (Renderer.container root' p span) := by
  rw [Renderer.container, Renderer.container]
  apply bind (require span h)
  intro v r' hr'
  cases Renderer.entries? v <;> exact .of_keeps rfl

private theorem env_of_scopes {r' : Renderer} (h : r'.scopes = r.scopes) :
    r'.env root = r.env root := by
  rw [Renderer.env, Renderer.env, h]

mutual

/-- A node does the same in namespaces that agree on its free names. -/
private theorem renderNode (n : Node) (r : Renderer)
    (h : AgreeOn n.freeNames (r.env root) (r.env root')) :
    Alike r (Renderer.renderNode root n) (Renderer.renderNode root' n) := by
  match n with
  | .text s =>
    rw [Renderer.renderNode, Renderer.renderNode]
    exact emit s
  | .subst path span =>
    rw [Node.freeNames] at h
    rw [Renderer.renderNode, Renderer.renderNode]
    exact substitute span h
  | .loop key value path body span =>
    rw [Node.freeNames] at h
    rw [Renderer.renderNode, Renderer.renderNode]
    apply bind (container span h.left)
    intro entries r' hr'
    apply iterate
    intro r'' index entry hr''
    apply renderNodes body r''
    rw [hr'] at hr''
    rw [env_eq_extend root hr'', env_eq_extend root' hr'']
    exact h.right.extend index entries.length entry
  | .choice branches otherwise =>
    rw [Node.freeNames] at h
    rw [Renderer.renderNode, Renderer.renderNode]
    apply bind (renderFirst branches r h.left)
    intro taken r' hr'
    cases taken with
    | true => exact .of_keeps rfl
    | false =>
      apply renderNodes otherwise r'
      rw [env_of_scopes hr', env_of_scopes hr']
      exact h.right

/-- Nodes do the same in namespaces that agree on their free names. -/
private theorem renderNodes (ns : List Node) (r : Renderer)
    (h : AgreeOn (freeNames ns) (r.env root) (r.env root')) :
    Alike r (Renderer.renderNodes root ns) (Renderer.renderNodes root' ns) := by
  match ns with
  | [] =>
    rw [Renderer.renderNodes, Renderer.renderNodes]
    exact .of_keeps rfl
  | n :: ns =>
    rw [freeNames] at h
    rw [Renderer.renderNodes, Renderer.renderNodes]
    apply bind (renderNode n r h.left)
    intro _ r' hr'
    apply renderNodes ns r'
    rw [env_of_scopes hr', env_of_scopes hr']
    exact h.right

/-- Branches do the same in namespaces that agree on their free names. -/
private theorem renderFirst (branches : List (Condition × List Node)) (r : Renderer)
    (h : AgreeOn (branchNames branches) (r.env root) (r.env root')) :
    Alike r (Renderer.renderFirst root branches) (Renderer.renderFirst root' branches) := by
  match branches with
  | [] =>
    rw [Renderer.renderFirst, Renderer.renderFirst]
    exact .of_keeps rfl
  | (condition, body) :: branches =>
    rw [branchNames] at h
    rw [Renderer.renderFirst, Renderer.renderFirst]
    apply bind (holds h.left.left)
    intro taken r' hr'
    cases taken with
    | true =>
      apply bind _ fun _ _ _ ↦ .of_keeps rfl
      apply renderNodes body r'
      rw [env_of_scopes hr', env_of_scopes hr']
      exact h.left.right
    | false =>
      apply renderFirst branches r'
      rw [env_of_scopes hr', env_of_scopes hr']
      exact h.right

end

end Alike

/-- **A template sees only what it mentions.** In two namespaces that give the names which stand
free in a template the same values, or none, it renders alike before any sink: the bytes, the
failure with its place and the records of the loops are the same. -/
theorem render_eq_of_free_names (t : Template) (root root' : Value)
    (h : ∀ name ∈ freeNames t.nodes, root.get? name = root'.get? name) (sink : Sink) :
    t.render root sink = t.render root' sink := by
  have henv (v : Value) : Renderer.env v { sink } = v.get? := rfl
  have hagree : AgreeOn (freeNames t.nodes) (Renderer.env root { sink })
      (Renderer.env root' { sink }) := by
    rw [henv, henv]
    exact h
  rw [render, render, (Alike.renderNodes t.nodes { sink } hagree).same]

/-- A loop shadows `x`, which also stands free behind it and selects an entry of `table`. -/
theorem render_eq_of_free_names_shadowed :
    let span := Span.point .start
    let t : Template := ⟨"t", [.loop none "x" ⟨"items", []⟩
      [.subst ⟨"x", []⟩ span, .subst ⟨"table", [.lookup "x" []]⟩ span] span, .subst ⟨"x", []⟩ span]⟩
    let table := Value.map ⟨[("a", .int 1), ("b", .int 2)]⟩
    let root := Value.map ⟨[("items", .ofStrings ["a", "b"]), ("table", table), ("x", .str "!")]⟩
    let root' := Value.map ⟨[("x", .str "!"), ("loop", .int 0), ("table", table),
      ("items", .ofStrings ["a", "b"])]⟩
    (∀ name ∈ freeNames t.nodes, root.get? name = root'.get? name) ∧
      t.render root {} = t.render root' {} ∧
      (t.render root {}).output = Utf8.encode "a1b2!" := by
  intro span t table root root'
  have h : ∀ name ∈ freeNames t.nodes, root.get? name = root'.get? name := by decide
  exact ⟨h, render_eq_of_free_names t root root' h {}, by decide⟩

end StateGen.Template
