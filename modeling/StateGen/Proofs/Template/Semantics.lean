import StateGen.Template.Render

/-!
# What a template means

The output of a template as a function of the values of names: no stack, no sink, no order of
writing. A loop evaluates its body once for every entry, in the environment that the variables of
the round extend. Rendering into a sink with room for everything writes exactly this output.
-/

namespace StateGen.Template

/-- The values of names. -/
abbrev Env := String → Option Value

/-- The environment in which some names are bound anew. -/
def Env.extend (env : Env) (scopes : List (String × Value)) : Env := fun name ↦
  (scopes.lookup name).or (env name)

/-- A text, and the failure that cuts it short. -/
structure Output where
  text : String := ""
  failure : Option Error := none

namespace Output

/-- A failure before any text. -/
def fail (e : Error) : Output := { failure := some e }

/-- One output behind another, unless the first one fails. -/
def andThen (a b : Output) : Output :=
  match a.failure with
  | some _ => a
  | none => ⟨a.text ++ b.text, b.failure⟩

end Output

/-- The output of a substitution. -/
def substitution (p : Path) (span : Span) (env : Env) : Output :=
  match p.resolve env with
  | none => .fail (.unresolvedReference p.display span)
  | some (.str s) => { text := s }
  | some (.int n) => { text := toString n }
  | some v => .fail (.notScalar p.display v.kind span)

/-- The entries of the container at a path, or why there are none. -/
def entriesAt (p : Path) (span : Span) (env : Env) : Except Error (List (Value × Value)) :=
  match p.resolve env with
  | none => .error (.unresolvedReference p.display span)
  | some v =>
    match Renderer.entries? v with
    | none => .error (.notIterable p.display v.kind span)
    | some entries => .ok entries

/-- Whether a condition holds; a path without a value counts as false. -/
def Condition.holds (c : Condition) (env : Env) : Bool :=
  ((c.path.resolve env).map Value.isTruthy).getD false != c.negated

/-- The outputs of the rounds of a loop one after the other; the first entry has the given index. -/
def rounds (key : Option String) (value : String) (length : Nat)
    (body : List (String × Value) → Output) : Nat → List (Value × Value) → Output
  | _, [] => {}
  | index, entry :: entries =>
    (body (Renderer.roundScopes key value index length entry)).andThen
      (rounds key value length body (index + 1) entries)

mutual

/-- The output of a node. -/
def Node.output : Node → Env → Output
  | .text s, _ => { text := s }
  | .subst path span, env => substitution path span env
  | .loop key value path body span, env =>
    match entriesAt path span env with
    | .error e => .fail e
    | .ok entries =>
      rounds key value entries.length (fun scopes ↦ outputs body (env.extend scopes)) 0 entries
  | .choice branches otherwise, env =>
    match firstOutput branches env with
    | some o => o
    | none => outputs otherwise env

/-- The outputs of nodes one after the other. -/
def outputs : List Node → Env → Output
  | [], _ => {}
  | n :: ns, env => (n.output env).andThen (outputs ns env)

/-- The output of the first branch whose condition holds. -/
def firstOutput : List (Condition × List Node) → Env → Option Output
  | [], _ => none
  | (c, body) :: branches, env =>
    if c.holds env then some (outputs body env) else firstOutput branches env

end

/-! ## Rendering writes the output -/

/-- The renderer after it has written a text and some records. -/
def Renderer.wrote (r : Renderer) (text : String) (records : Array Log.Record) : Renderer :=
  { r with sink := { r.sink with written := r.sink.written ++ Utf8.encode text }, records }

/-- A step of a renderer ends as an output says. -/
def Performs (step : Render Unit) (r : Renderer) (o : Output) : Prop :=
  ∃ records, step r =
    match o.failure with
    | none => .ok () (r.wrote o.text records)
    | some e => .error e (r.wrote o.text records)

section

variable {r : Renderer}

private theorem encode_append (s t : String) :
    Utf8.encode (s ++ t) = Utf8.encode s ++ Utf8.encode t := by
  simp [Utf8.encode]

private theorem wrote_wrote (s t : String) (records records' : Array Log.Record) :
    (r.wrote s records).wrote t records' = r.wrote (s ++ t) records' := by
  simp [Renderer.wrote, encode_append, ← Array.toList_inj]

private theorem wrote_empty : r.wrote "" r.records = r := by
  simp [Renderer.wrote, Utf8.encode]

theorem performs_bind {first second : Render Unit} {a b : Output} (ha : Performs first r a)
    (hb : ∀ text records, Performs second (r.wrote text records) b) :
    Performs (do first; second) r (a.andThen b) := by
  obtain ⟨records, ha⟩ := ha
  obtain ⟨records', hb⟩ := hb a.text records
  cases hfailure : a.failure with
  | some e =>
    refine ⟨records, ?_⟩
    simp only [bind, EStateM.bind, ha, Output.andThen, hfailure]
  | none =>
    refine ⟨records', ?_⟩
    simp only [bind, EStateM.bind, ha, Output.andThen, hfailure, hb, wrote_wrote]

/-- Writing a text succeeds if the sink accepts all of it. -/
theorem emit_apply (s : String) (r : Renderer) :
    Renderer.emit s r =
      if (r.sink.write (Utf8.encode s)).2 then
        .ok () { r with sink := (r.sink.write (Utf8.encode s)).1 }
      else
        .error (.writeFailed "sink full") { r with sink := (r.sink.write (Utf8.encode s)).1 } := by
  have hsplit : Renderer.emit s r = (do
      set { r with sink := (r.sink.write (Utf8.encode s)).1 }
      if !(r.sink.write (Utf8.encode s)).2 then throw (.writeFailed "sink full") : Render Unit) r :=
    rfl
  rw [hsplit]
  cases (r.sink.write (Utf8.encode s)).2 <;> rfl

theorem write_of_unlimited (bytes : List UInt8) (hr : r.sink.capacity = none) :
    r.sink.write bytes = ({ r.sink with written := r.sink.written ++ bytes }, true) := by
  simp only [Sink.write, hr]

private theorem performs_emit (s : String) (hr : r.sink.capacity = none) :
    Performs (Renderer.emit s) r { text := s } := by
  refine ⟨r.records, ?_⟩
  rw [emit_apply, write_of_unlimited _ hr]
  rfl

private theorem performs_throw (e : Error) : Performs (throw e) r (.fail e) :=
  ⟨r.records, congrArg (EStateM.Result.error e) wrote_empty.symm⟩

private theorem performs_pure : Performs (return ()) r {} :=
  ⟨r.records, congrArg (EStateM.Result.ok ()) wrote_empty.symm⟩

variable {root : Value}

/-- The values of names that a renderer works with. -/
def Renderer.env (root : Value) (r : Renderer) : Env := Renderer.lookup root r.scopes

private theorem resolve_apply (p : Path) :
    Renderer.resolve root p r = .ok (p.resolve (r.env root)) r := rfl

private theorem performs_substitute (p : Path) (span : Span) (hr : r.sink.capacity = none) :
    Performs (Renderer.substitute root p span) r (substitution p span (r.env root)) := by
  rw [Performs, Renderer.substitute, substitution]
  simp only [Renderer.require, bind, EStateM.bind, resolve_apply]
  cases p.resolve (r.env root) with
  | none => exact performs_throw _
  | some v =>
    cases v with
    | str s => exact performs_emit s hr
    | int n => exact performs_emit (toString n) hr
    | seq | map => exact performs_throw _

private theorem container_apply (root : Value) (r : Renderer) (p : Path) (span : Span) :
    ∃ records, Renderer.container root p span r =
      match entriesAt p span (r.env root) with
      | .ok entries => .ok entries { r with records }
      | .error e => .error e r := by
  simp only [Renderer.container, Renderer.require, bind, EStateM.bind, resolve_apply, pure,
    entriesAt]
  cases p.resolve (r.env root) with
  | none => exact ⟨r.records, rfl⟩
  | some v =>
    cases hv : Renderer.entries? v with
    | none =>
      simp only [EStateM.pure, hv]
      exact ⟨r.records, rfl⟩
    | some entries =>
      simp only [EStateM.pure, hv]
      exact ⟨_, rfl⟩

/-- The scopes of a round are gone afterwards, whether it fails or not. -/
private theorem performs_withScopes {scopes : List (String × Value)} {body : Render Unit}
    {o : Output} (h : Performs body { r with scopes := scopes ++ r.scopes } o) :
    Performs (Renderer.withScopes scopes body) r o := by
  obtain ⟨records, h⟩ := h
  refine ⟨records, ?_⟩
  have hscopes : (scopes ++ r.scopes).drop ((scopes ++ r.scopes).length - r.scopes.length) =
      r.scopes := by
    rw [List.length_append, Nat.add_sub_cancel, List.drop_left]
  simp only [Renderer.withScopes, h]
  cases o.failure with
  | none => simp only [Renderer.truncate, Renderer.wrote, hscopes]
  | some e => simp only [Renderer.truncate, Renderer.wrote, hscopes]

private theorem performs_iterate (key : Option String) (value : String) (length : Nat)
    {body : Render Unit} {output : List (String × Value) → Output} {scopes : List (String × Value)}
    (hbody : ∀ (r : Renderer) (round : List (String × Value)), r.sink.capacity = none →
      r.scopes = round ++ scopes → Performs body r (output round))
    (index : Nat) (entries : List (Value × Value)) (hr : r.sink.capacity = none)
    (hscopes : r.scopes = scopes) :
    Performs (Renderer.iterate key value length body index entries) r
      (rounds key value length output index entries) := by
  induction entries generalizing index r with
  | nil => exact performs_pure
  | cons entry entries ih =>
    rw [Renderer.iterate, rounds]
    refine performs_bind (performs_withScopes (hbody _ _ hr (by rw [hscopes]))) ?_
    intro text records
    exact ih (index + 1) hr hscopes

private theorem holds_apply (c : Condition) :
    Renderer.holds root c r = .ok (c.holds (r.env root)) r := rfl

theorem env_eq_extend (root : Value) {r' : Renderer} {round : List (String × Value)}
    (h : r'.scopes = round ++ r.scopes) : r'.env root = (r.env root).extend round := by
  funext name
  simp only [Renderer.env, Renderer.lookup, Env.extend, h, List.lookup_append]
  cases round.lookup name <;> rfl

mutual

/-- Rendering a node writes its output. -/
private theorem performs_renderNode (root : Value) (n : Node) (r : Renderer)
    (hr : r.sink.capacity = none) :
    Performs (Renderer.renderNode root n) r (n.output (r.env root)) := by
  match n with
  | .text s =>
    rw [Renderer.renderNode, Node.output]
    exact performs_emit s hr
  | .subst path span =>
    rw [Renderer.renderNode, Node.output]
    exact performs_substitute path span hr
  | .loop key value path body span =>
    rw [Renderer.renderNode, Node.output]
    obtain ⟨records, hentries⟩ := container_apply root r path span
    cases h : entriesAt path span (r.env root) with
    | error e =>
      refine ⟨r.records, ?_⟩
      simp only [bind, EStateM.bind, hentries, h, Output.fail, wrote_empty]
    | ok entries =>
      have hrounds := performs_iterate (r := { r with records }) key value entries.length
        (fun r' round hr' hscopes ↦
          env_eq_extend root hscopes ▸ performs_renderNodes root body r' hr') 0 entries hr rfl
      obtain ⟨records', hrounds⟩ := hrounds
      refine ⟨records', ?_⟩
      simp only [bind, EStateM.bind, hentries, h, hrounds]
      rfl
  | .choice branches otherwise =>
    rw [Renderer.renderNode, Node.output]
    have hfirst := renderFirst_apply root branches r hr
    cases h : firstOutput branches (r.env root) with
    | none =>
      rw [h] at hfirst
      obtain ⟨records, hotherwise⟩ := performs_renderNodes root otherwise r hr
      refine ⟨records, ?_⟩
      simp only [bind, EStateM.bind, hfirst]
      exact hotherwise
    | some o =>
      rw [h] at hfirst
      obtain ⟨records, hfirst⟩ := hfirst
      refine ⟨records, ?_⟩
      simp only [bind, EStateM.bind, hfirst]
      cases o.failure <;> rfl

/-- Rendering nodes writes their outputs one after the other. -/
theorem performs_renderNodes (root : Value) (ns : List Node) (r : Renderer)
    (hr : r.sink.capacity = none) :
    Performs (Renderer.renderNodes root ns) r (outputs ns (r.env root)) := by
  match ns with
  | [] =>
    rw [Renderer.renderNodes, outputs]
    exact performs_pure
  | n :: ns =>
    rw [Renderer.renderNodes, outputs]
    exact performs_bind (performs_renderNode root n r hr) fun text records ↦
      performs_renderNodes root ns (r.wrote text records) hr

/-- Rendering the first branch that applies writes its output, and nothing if there is none. -/
private theorem renderFirst_apply (root : Value) (branches : List (Condition × List Node))
    (r : Renderer) (hr : r.sink.capacity = none) :
    match firstOutput branches (r.env root) with
    | none => Renderer.renderFirst root branches r = .ok false r
    | some o => ∃ records, Renderer.renderFirst root branches r =
        match o.failure with
        | none => .ok true (r.wrote o.text records)
        | some e => .error e (r.wrote o.text records) := by
  match branches with
  | [] =>
    rw [firstOutput, Renderer.renderFirst]
    rfl
  | (c, body) :: branches =>
    rw [firstOutput, Renderer.renderFirst]
    simp only [bind, EStateM.bind, holds_apply]
    by_cases hc : c.holds (r.env root)
    · obtain ⟨records, hbody⟩ := performs_renderNodes root body r hr
      simp only [hc, if_true]
      refine ⟨records, ?_⟩
      simp only [EStateM.bind, hbody]
      cases (outputs body (r.env root)).failure <;> rfl
    · simp only [hc, Bool.false_eq_true, if_false]
      exact renderFirst_apply root branches r hr

end

end

/-- Rendering into a sink with room for everything writes the output of the template behind what
was there, and fails as the output does. -/
theorem render_eq_output (t : Template) (root : Value) (written : Array UInt8) :
    (t.render root { written }).output =
        written.toList ++ Utf8.encode (outputs t.nodes root.get?).text ∧
      (t.render root { written }).failure = (outputs t.nodes root.get?).failure := by
  obtain ⟨records, h⟩ := performs_renderNodes root t.nodes { sink := { written } } rfl
  have henv : Renderer.env root { sink := { written } } = root.get? := rfl
  rw [henv] at h
  cases hfailure : (outputs t.nodes root.get?).failure with
  | none => simp [render, h, hfailure, Renderer.wrote]
  | some e => simp [render, h, hfailure, Renderer.wrote]

/-! ## Output without failure -/

/-- The text of an output that is not cut short. -/
def Output.text? (o : Output) : Option String :=
  match o.failure with
  | none => some o.text
  | some _ => none

theorem Output.text?_andThen (a b : Output) :
    (a.andThen b).text? = a.text?.bind fun s ↦ b.text?.map (s ++ ·) := by
  cases ha : a.failure with
  | some e => simp [andThen, text?, ha]
  | none => cases hb : b.failure <;> simp [andThen, text?, ha, hb]

/-- Nodes write a text without failing. -/
def Writes (env : Env) (ns : List Node) (s : String) : Prop := (outputs ns env).text? = some s

theorem outputs_append (ns ms : List Node) (env : Env) :
    (outputs (ns ++ ms) env).text? =
      (outputs ns env).text?.bind fun s ↦ (outputs ms env).text?.map (s ++ ·) := by
  induction ns with
  | nil =>
    rw [List.nil_append, outputs]
    cases h : (outputs ms env).text? <;> simp [Output.text?]
  | cons n ns ih =>
    rw [List.cons_append, outputs, outputs, Output.text?_andThen, Output.text?_andThen, ih]
    cases (n.output env).text? <;> cases (outputs ns env).text? <;>
      cases (outputs ms env).text? <;> simp [String.append_assoc]

namespace Writes

variable {env : Env} {ns ms : List Node} {s t : String}

theorem nil : Writes env [] "" := by
  rw [Writes, outputs, Output.text?]

/-- Nodes write their texts one after the other. -/
theorem append (hn : Writes env ns s) (hm : Writes env ms t) :
    Writes env (ns ++ ms) (s ++ t) := by
  rw [Writes, outputs_append, hn, hm]
  rfl

theorem singleton_iff {n : Node} : Writes env [n] s ↔ (n.output env).text? = some s := by
  rw [Writes, outputs, outputs, Output.text?_andThen]
  cases (n.output env).text? <;> simp [Output.text?]

theorem cons {n : Node} (hn : Writes env [n] s) (hns : Writes env ns t) :
    Writes env (n :: ns) (s ++ t) :=
  append hn hns

theorem text (s : String) : Writes env [.text s] s := by
  rw [singleton_iff, Node.output, Output.text?]

theorem string {p : Path} {span : Span} (h : p.resolve env = some (.str s)) :
    Writes env [.subst p span] s := by
  rw [singleton_iff, Node.output, substitution, h, Output.text?]

theorem integer {p : Path} {span : Span} {n : Int} (h : p.resolve env = some (.int n)) :
    Writes env [.subst p span] (toString n) := by
  rw [singleton_iff, Node.output, substitution, h, Output.text?]

/-- A choice writes its first part if the condition holds. -/
theorem choice_pos {c : Condition} {yes no : List Node} (hc : c.holds env = true)
    (h : Writes env yes s) : Writes env [.choice [(c, yes)] no] s := by
  rw [singleton_iff, Node.output, firstOutput, if_pos hc]
  exact h

/-- A choice writes its last part if the condition fails. -/
theorem choice_neg {c : Condition} {yes no : List Node} (hc : c.holds env = false)
    (h : Writes env no s) : Writes env [.choice [(c, yes)] no] s := by
  rw [singleton_iff, Node.output, firstOutput, hc, firstOutput]
  exact h

end Writes

private theorem text?_rounds {ι : Type} (entry : ι → Nat → Value × Value) {key : Option String}
    {value : String} {length : Nat} {output : List (String × Value) → Output} {f : ι → String}
    {xs : List ι}
    (h : ∀ x ∈ xs, ∀ i,
      (output (Renderer.roundScopes key value i length (entry x i))).text? = some (f x)) (k : Nat) :
    (rounds key value length output k ((xs.zipIdx k).map fun (x, i) ↦ entry x i)).text? =
      some (String.join (xs.map f)) := by
  induction xs generalizing k with
  | nil => rfl
  | cons x xs ih =>
    rw [List.zipIdx_cons, List.map_cons, rounds, Output.text?_andThen, h x List.mem_cons_self,
      ih fun y hy ↦ h y (List.mem_cons_of_mem x hy), List.map_cons, String.join_cons]
    rfl

/-- A loop over a sequence of strings writes its body for each of them. -/
theorem Writes.each_string {env : Env} {key : Option String} {value : String} {p : Path}
    {body : List Node} {span : Span} {names : List String} {f : String → String}
    (hp : p.resolve env = some (.ofStrings names))
    (hbody : ∀ name ∈ names, ∀ i, Writes
      (env.extend (Renderer.roundScopes key value i names.length (.int i, .str name))) body
      (f name)) :
    Writes env [.loop key value p body span] (String.join (names.map f)) := by
  have hentries : entriesAt p span env =
      .ok ((names.zipIdx 0).map fun (name, i) ↦ (Value.int i, Value.str name)) := by
    simp only [entriesAt, hp, Value.ofStrings, Renderer.entries?, List.zipIdx_map, List.map_map]
    rfl
  rw [Writes.singleton_iff, Node.output, hentries]
  simp only [List.length_map, List.length_zipIdx]
  exact text?_rounds (fun (name : String) i ↦ (.int i, .str name)) hbody 0

/-- A loop over a mapping writes its body for each of the entries. -/
theorem Writes.each_entry {ι : Type} {env : Env} {key : Option String} {value : String} {p : Path}
    {body : List Node} {span : Span} {xs : List ι} {entry : ι → String × Value} {f : ι → String}
    (hp : p.resolve env = some (.map ⟨xs.map entry⟩))
    (hbody : ∀ x ∈ xs, ∀ i, Writes
      (env.extend (Renderer.roundScopes key value i xs.length (.str (entry x).1, (entry x).2)))
      body (f x)) :
    Writes env [.loop key value p body span] (String.join (xs.map f)) := by
  have hentries : entriesAt p span env =
      .ok ((xs.zipIdx 0).map fun (x, _) ↦ (Value.str (entry x).1, (entry x).2)) := by
    have hmap := List.map_map (g := fun x ↦ (Value.str (entry x).1, (entry x).2)) (f := Prod.fst)
      (l := xs.zipIdx)
    rw [List.zipIdx_map_fst] at hmap
    simp only [entriesAt, hp, Renderer.entries?, List.map_map]
    exact congrArg _ hmap
  rw [Writes.singleton_iff, Node.output, hentries]
  simp only [List.length_map, List.length_zipIdx]
  exact text?_rounds (fun x _ ↦ (.str (entry x).1, (entry x).2)) hbody 0

end StateGen.Template
