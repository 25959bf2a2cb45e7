import StateGen.Proofs.Template.Semantics

/-!
# How rendering fails

A template fails at one of its directives, or the sink fails when it is full. What a template can
do to its sink is to append, so a sink that accepts only so many bytes receives the first ones of
the whole output. It is the first failure in the order of writing that counts: the sink's if the
output up to the template's own failure does not fit, and the template's own failure otherwise.
-/

namespace StateGen.Template

/-! ## The directive at fault -/

mutual

/-- The places of the substitutions and loops of a node. -/
def Node.spans : Node → List Span
  | .text _ => []
  | .subst _ span => [span]
  | .loop _ _ _ body span => span :: spansOf body
  | .choice branches otherwise => branchSpans branches ++ spansOf otherwise

/-- The places of the substitutions and loops of nodes. -/
def spansOf : List Node → List Span
  | [] => []
  | n :: ns => n.spans ++ spansOf ns

/-- The places of the substitutions and loops of branches. -/
def branchSpans : List (Condition × List Node) → List Span
  | [] => []
  | (_, body) :: branches => spansOf body ++ branchSpans branches

end

/-- An output fails at one of some places, if at all. -/
def Output.Blames (o : Output) (spans : List Span) : Prop :=
  ∀ e, o.failure = some e → ∃ span ∈ spans, e.span? = some span

namespace Output.Blames

variable {a b : Output} {spans spans' : List Span}

private theorem of_text (s : String) : Blames { text := s } spans := by
  intro e he
  cases he

private theorem fail {e : Error} {span : Span} (h : e.span? = some span) :
    Blames (.fail e) [span] := by
  intro e' he'
  cases he'
  exact ⟨span, List.mem_singleton_self span, h⟩

private theorem mono (h : a.Blames spans) (hsub : ∀ span ∈ spans, span ∈ spans') :
    a.Blames spans' := by
  intro e he
  have ⟨span, hspan, hat⟩ := h e he
  exact ⟨span, hsub span hspan, hat⟩

private theorem andThen (ha : a.Blames spans) (hb : b.Blames spans) :
    (a.andThen b).Blames spans := by
  intro e he
  cases hfailure : a.failure with
  | some e' =>
    rw [Output.andThen, hfailure] at he
    exact ha e he
  | none =>
    rw [Output.andThen, hfailure] at he
    exact hb e he

end Output.Blames

private theorem blames_substitution (p : Path) (span : Span) (env : Env) :
    (substitution p span env).Blames [span] := by
  rw [substitution]
  cases p.resolve env with
  | none => exact .fail rfl
  | some v =>
    cases v with
    | str s => exact .of_text s
    | int n => exact .of_text (toString n)
    | seq | map => exact .fail rfl

private theorem span?_of_entriesAt {p : Path} {span : Span} {env : Env} {e : Error}
    (h : entriesAt p span env = .error e) : e.span? = some span := by
  rw [entriesAt] at h
  cases hv : p.resolve env with
  | none =>
    rw [hv] at h
    cases h
    rfl
  | some v =>
    cases hentries : Renderer.entries? v with
    | none =>
      simp only [hv, hentries] at h
      cases h
      rfl
    | some entries =>
      simp only [hv, hentries] at h
      cases h

private theorem blames_rounds (key : Option String) (value : String) (length : Nat)
    {body : List (String × Value) → Output} {spans : List Span}
    (h : ∀ scopes, (body scopes).Blames spans) (index : Nat) (entries : List (Value × Value)) :
    (rounds key value length body index entries).Blames spans := by
  induction entries generalizing index with
  | nil => exact .of_text ""
  | cons entry entries ih =>
    rw [rounds]
    exact .andThen (h _) (ih (index + 1))

mutual

/-- The output of a node fails at one of its directives. -/
private theorem blames_node (n : Node) (env : Env) : (n.output env).Blames n.spans := by
  match n with
  | .text s =>
    rw [Node.output]
    exact .of_text s
  | .subst path span =>
    rw [Node.output, Node.spans]
    exact blames_substitution path span env
  | .loop key value path body span =>
    rw [Node.output, Node.spans]
    cases h : entriesAt path span env with
    | error e =>
      apply (Output.Blames.fail (span?_of_entriesAt h)).mono
      simp
    | ok entries =>
      apply blames_rounds
      intro scopes
      apply (blames_outputs body (env.extend scopes)).mono
      exact fun span' ↦ List.mem_cons_of_mem span
  | .choice branches otherwise =>
    rw [Node.output, Node.spans]
    cases h : firstOutput branches env with
    | some o =>
      apply (blames_firstOutput branches env o h).mono
      exact fun span ↦ List.mem_append_left _
    | none =>
      apply (blames_outputs otherwise env).mono
      exact fun span ↦ List.mem_append_right _

/-- The output of nodes fails at one of their directives. -/
private theorem blames_outputs (ns : List Node) (env : Env) :
    (outputs ns env).Blames (spansOf ns) := by
  match ns with
  | [] =>
    rw [outputs]
    exact .of_text ""
  | n :: ns =>
    rw [outputs, spansOf]
    apply Output.Blames.andThen
    · exact (blames_node n env).mono fun span ↦ List.mem_append_left _
    · exact (blames_outputs ns env).mono fun span ↦ List.mem_append_right _

/-- The output of the branch that applies fails at one of the directives of the branches. -/
private theorem blames_firstOutput (branches : List (Condition × List Node)) (env : Env)
    (o : Output) (h : firstOutput branches env = some o) : o.Blames (branchSpans branches) := by
  match branches with
  | [] => cases h
  | (c, body) :: branches =>
    rw [firstOutput] at h
    rw [branchSpans]
    by_cases hc : c.holds env
    · rw [if_pos hc] at h
      cases h
      exact (blames_outputs body env).mono fun span ↦ List.mem_append_left _
    · rw [if_neg hc] at h
      exact (blames_firstOutput branches env o h).mono fun span ↦ List.mem_append_right _

end

/-- A rendering with room for everything fails at one of the template's directives, if at all. -/
theorem span?_of_render {t : Template} {root : Value} {e : Error}
    (h : (t.render root {}).failure = some e) : ∃ span ∈ spansOf t.nodes, e.span? = some span := by
  rw [(render_eq_output t root #[]).2] at h
  exact blames_outputs t.nodes root.get? e h

/-! ## Sinks that fill up -/

/-- The renderer a step ends with. -/
def leftBy {α : Type} : EStateM.Result Error Renderer α → Renderer
  | .ok _ r | .error _ r => r

/-- The same renderer, before a sink that accepts only `n` bytes in total. -/
def Renderer.limit (n : Nat) (r : Renderer) : Renderer :=
  { r with sink := { r.sink with capacity := some n } }

/-- A renderer follows on another one that has room for everything: it has so too, and what was
written has only become longer. -/
structure Follows (r r' : Renderer) : Prop where
  unlimited : r'.sink.capacity = none
  appended : r.sink.written.toList <+: r'.sink.written.toList

/-- How a step ends before a sink that accepts `n` bytes, given how it ends when there is room for
everything. -/
inductive Cut {α : Type} (n : Nat) :
    EStateM.Result Error Renderer α → EStateM.Result Error Renderer α → Prop where
  | ok (a : α) (r : Renderer) (fits : r.sink.written.size ≤ n) : Cut n (.ok a r) (.ok a (r.limit n))
  | error (e : Error) (r : Renderer) (fits : r.sink.written.size ≤ n) :
    Cut n (.error e r) (.error e (r.limit n))
  | full (whole : EStateM.Result Error Renderer α) (r : Renderer)
    (exceeds : n < (leftBy whole).sink.written.size)
    (filled : r.sink.written.toList = (leftBy whole).sink.written.toList.take n) :
    Cut n whole (.error (.writeFailed "sink full") r)

/-- A step only appends to its sink, and stops where the sink is full. -/
structure Limits {α : Type} (step : Render α) : Prop where
  follows : ∀ r : Renderer, r.sink.capacity = none → Follows r (leftBy (step r))
  cuts : ∀ (r : Renderer) (n : Nat), r.sink.capacity = none → r.sink.written.size ≤ n →
    Cut n (step r) (step (r.limit n))

namespace Follows

variable {r r' r'' : Renderer}

private theorem refl (h : r.sink.capacity = none) : Follows r r :=
  ⟨h, List.prefix_rfl⟩

private theorem trans (h : Follows r r') (h' : Follows r' r'') : Follows r r'' :=
  ⟨h'.unlimited, h.appended.trans h'.appended⟩

/-- What fills a sink still does so when more would be written. -/
private theorem take_eq (h : Follows r r') {n : Nat} (hn : n < r.sink.written.size) :
    n < r'.sink.written.size ∧
      r'.sink.written.toList.take n = r.sink.written.toList.take n := by
  obtain ⟨more, hmore⟩ := h.appended
  constructor
  · have hle := h.appended.length_le
    simp only [Array.length_toList] at hle
    omega
  · rw [← hmore]
    apply List.take_append_of_le_length
    rw [Array.length_toList]
    omega

end Follows

namespace Limits

variable {α β : Type}

/-- A step that leaves the sink alone, and does not look at it. -/
private theorem of_aside {step : Render α}
    (hsink : ∀ r : Renderer, (leftBy (step r)).sink = r.sink)
    (hlimit : ∀ (r : Renderer) (n : Nat),
      step (r.limit n) = match step r with
        | .ok a r' => .ok a (r'.limit n)
        | .error e r' => .error e (r'.limit n)) : Limits step where
  follows r hr := by
    constructor
    · rw [hsink, hr]
    · exact ⟨[], by rw [hsink, List.append_nil]⟩
  cuts r n hr hn := by
    have hleft := hsink r
    rw [hlimit]
    cases h : step r with
    | ok a r' =>
      rw [h] at hleft
      exact .ok a r' (by rw [← hleft] at hn; exact hn)
    | error e r' =>
      rw [h] at hleft
      exact .error e r' (by rw [← hleft] at hn; exact hn)

private theorem pure (a : α) : Limits (return a) :=
  of_aside (fun _ ↦ rfl) fun _ _ ↦ rfl

private theorem throw (e : Error) : Limits (throw e : Render α) :=
  of_aside (fun _ ↦ rfl) fun _ _ ↦ rfl

/-- Steps one after the other stop where the sink is full if each of them does. -/
private theorem bind {first : Render α} {second : α → Render β} (h : Limits first)
    (h' : ∀ a, Limits (second a)) : Limits (first >>= second) where
  follows r hr := by
    have hfirst := h.follows r hr
    simp only [Bind.bind, EStateM.bind]
    cases heq : first r with
    | ok a r' =>
      rw [heq] at hfirst
      exact hfirst.trans ((h' a).follows r' hfirst.unlimited)
    | error e r' =>
      rw [heq] at hfirst
      exact hfirst
  cuts r n hr hn := by
    have hfirst := h.follows r hr
    have hcut := h.cuts r n hr hn
    simp only [Bind.bind, EStateM.bind]
    generalize first r = whole at hfirst hcut ⊢
    generalize first (r.limit n) = limited at hcut ⊢
    cases hcut with
    | ok a r' fits => exact (h' a).cuts r' n hfirst.unlimited fits
    | error e r' fits => exact .error e r' fits
    | full whole r' exceeds filled =>
      cases whole with
      | error e r'' => exact .full (.error e r'') r' exceeds filled
      | ok a r'' =>
        -- The sink was full before the second step, which would only have written more.
        have hsecond := ((h' a).follows r'' hfirst.unlimited).take_eq exceeds
        exact .full (second a r'') r' hsecond.1 (filled.trans hsecond.2.symm)

end Limits

/-! ## The steps of a renderer -/

section

variable {r : Renderer} {bytes : List UInt8}

private theorem size_append (a : Array UInt8) : (a ++ bytes).size = a.size + bytes.length := by
  rw [← Array.length_toList, Array.toList_appendList, List.length_append, Array.length_toList]

private theorem write_limit (n : Nat) :
    (r.limit n).sink.write bytes =
      ({ written := r.sink.written ++ bytes.take (n - r.sink.written.size), capacity := some n },
        decide (bytes.length ≤ n - r.sink.written.size)) := rfl

end

namespace Limits

variable (root : Value)

private theorem resolve (p : Path) : Limits (Renderer.resolve root p) :=
  of_aside (fun _ ↦ rfl) fun _ _ ↦ rfl

private theorem holds (c : Condition) : Limits (Renderer.holds root c) :=
  of_aside (fun _ ↦ rfl) fun _ _ ↦ rfl

private theorem require (p : Path) (span : Span) : Limits (Renderer.require root p span) := by
  rw [Renderer.require]
  apply bind (resolve root p)
  intro v
  cases v with
  | none => exact throw _
  | some v => exact pure v

/-- Writing a text fills the sink with as much of it as there is room for. -/
private theorem emit (s : String) : Limits (Renderer.emit s) where
  follows r hr := by
    rw [emit_apply, write_of_unlimited _ hr]
    exact ⟨hr, Utf8.encode s, Array.toList_appendList.symm⟩
  cuts r n hr hn := by
    rw [emit_apply, emit_apply, write_of_unlimited _ hr, write_limit]
    simp only [decide_eq_true_eq, if_true]
    by_cases hfits : (Utf8.encode s).length ≤ n - r.sink.written.size
    · rw [if_pos hfits, List.take_of_length_le hfits]
      apply Cut.ok
      rw [size_append]
      omega
    · rw [if_neg hfits]
      apply Cut.full
      · rw [leftBy, size_append]
        omega
      · have hroom : r.sink.written.toList.length ≤ n := by
          rw [Array.length_toList]
          exact hn
        rw [leftBy, Array.toList_appendList, Array.toList_appendList, List.take_append,
          List.take_of_length_le hroom, Array.length_toList]

private theorem substitute (p : Path) (span : Span) :
    Limits (Renderer.substitute root p span) := by
  rw [Renderer.substitute]
  apply bind (require root p span)
  intro v
  cases v with
  | str s => exact emit s
  | int n => exact emit (toString n)
  | seq | map => exact throw _

private theorem container (p : Path) (span : Span) :
    Limits (Renderer.container root p span) := by
  rw [Renderer.container]
  apply bind (require root p span)
  intro v
  cases Renderer.entries? v with
  | none => exact throw _
  | some entries => exact bind (of_aside (fun _ ↦ rfl) fun _ _ ↦ rfl) fun _ ↦ pure entries

private theorem withScopes (scopes : List (String × Value)) {body : Render Unit}
    (h : Limits body) : Limits (Renderer.withScopes scopes body) where
  follows r hr := by
    have hbody := h.follows { r with scopes := scopes ++ r.scopes } hr
    rw [Renderer.withScopes]
    cases heq : body { r with scopes := scopes ++ r.scopes } with
    | ok | error =>
      rw [heq] at hbody
      exact ⟨hbody.unlimited, hbody.appended⟩
  cuts r n hr hn := by
    have hbody := h.cuts { r with scopes := scopes ++ r.scopes } n hr hn
    have hscopes : { r.limit n with scopes := scopes ++ (r.limit n).scopes } =
      Renderer.limit n { r with scopes := scopes ++ r.scopes } := rfl
    simp only [Renderer.withScopes, hscopes]
    generalize body { r with scopes := scopes ++ r.scopes } = whole at hbody ⊢
    generalize body (Renderer.limit n _) = limited at hbody ⊢
    cases hbody with
    | ok a r' fits => exact .ok () (r'.truncate _) fits
    | error e r' fits => exact .error e (r'.truncate _) fits
    | full whole r' exceeds filled =>
      cases whole with
      | ok | error => exact .full _ (r'.truncate _) exceeds filled

private theorem iterate (key : Option String) (value : String) (length : Nat) {body : Render Unit}
    (h : Limits body) (index : Nat) (entries : List (Value × Value)) :
    Limits (Renderer.iterate key value length body index entries) := by
  induction entries generalizing index with
  | nil => exact pure ()
  | cons entry entries ih =>
    rw [Renderer.iterate]
    exact bind (withScopes _ h) fun _ ↦ ih (index + 1)

mutual

/-- A node stops where the sink is full. -/
private theorem renderNode (n : Node) : Limits (Renderer.renderNode root n) := by
  match n with
  | .text s =>
    rw [Renderer.renderNode]
    exact emit s
  | .subst path span =>
    rw [Renderer.renderNode]
    exact substitute root path span
  | .loop key value path body span =>
    rw [Renderer.renderNode]
    apply bind (container root path span)
    intro entries
    exact iterate key value entries.length (renderNodes body) 0 entries
  | .choice branches otherwise =>
    rw [Renderer.renderNode]
    apply bind (renderFirst branches)
    intro taken
    cases taken with
    | true => exact pure ()
    | false => exact renderNodes otherwise

/-- Nodes stop where the sink is full. -/
private theorem renderNodes (ns : List Node) : Limits (Renderer.renderNodes root ns) := by
  match ns with
  | [] =>
    rw [Renderer.renderNodes]
    exact pure ()
  | n :: ns =>
    rw [Renderer.renderNodes]
    exact bind (renderNode n) fun _ ↦ renderNodes ns

/-- The branch that applies stops where the sink is full. -/
private theorem renderFirst (branches : List (Condition × List Node)) :
    Limits (Renderer.renderFirst root branches) := by
  match branches with
  | [] =>
    rw [Renderer.renderFirst]
    exact pure false
  | (c, body) :: branches =>
    rw [Renderer.renderFirst]
    apply bind (holds root c)
    intro taken
    cases taken with
    | true => exact bind (renderNodes body) fun _ ↦ pure true
    | false => exact renderFirst branches

end

end Limits

/-! ## A sink that accepts only so many bytes -/

/-- The first failure in the order of writing: the template's own one if the sink has room for
everything before it. -/
def Rendering.failureWithin (whole : Rendering) (n : Nat) : Option Error :=
  if whole.output.length ≤ n then whole.failure else some (.writeFailed "sink full")

/-- What became of a rendering, from how its last step ended. -/
private def ended : EStateM.Result Error Renderer Unit → Rendering
  | .ok _ r => ⟨r.sink.written.toList, none, r.records.toList⟩
  | .error e r => ⟨r.sink.written.toList, some e, r.records.toList⟩

private theorem output_ended (result : EStateM.Result Error Renderer Unit) :
    (ended result).output = (leftBy result).sink.written.toList := by
  cases result <;> rfl

private theorem failureWithin_of_fits {whole : EStateM.Result Error Renderer Unit} {n : Nat}
    (fits : (leftBy whole).sink.written.size ≤ n) :
    (ended whole).output.take n = (ended whole).output ∧
      (ended whole).failureWithin n = (ended whole).failure := by
  have hle : (ended whole).output.length ≤ n := by
    rw [output_ended, Array.length_toList]
    exact fits
  exact ⟨List.take_of_length_le hle, if_pos hle⟩

private theorem ended_of_cut {n : Nat} {whole limited : EStateM.Result Error Renderer Unit}
    (h : Cut n whole limited) :
    (ended limited).output = (ended whole).output.take n ∧
      (ended limited).failure = (ended whole).failureWithin n := by
  cases h with
  | ok a r fits =>
    rw [(failureWithin_of_fits fits).1, (failureWithin_of_fits fits).2]
    exact ⟨rfl, rfl⟩
  | error e r fits =>
    rw [(failureWithin_of_fits fits).1, (failureWithin_of_fits fits).2]
    exact ⟨rfl, rfl⟩
  | full whole r exceeds filled =>
    constructor
    · rw [output_ended whole]
      exact filled
    · rw [Rendering.failureWithin, if_neg]
      · rfl
      · rw [output_ended, Array.length_toList]
        omega

/-- A sink that accepts `n` bytes receives the first `n` of the whole output. -/
theorem render_limit (t : Template) (root : Value) (n : Nat) :
    (t.render root { capacity := some n }).output = (t.render root {}).output.take n ∧
      (t.render root { capacity := some n }).failure = (t.render root {}).failureWithin n :=
  ended_of_cut ((Limits.renderNodes root t.nodes).cuts { sink := {} } n rfl (Nat.zero_le n))

/-- Rendering fails because the sink is full, or at one of the template's directives. -/
theorem failure_of_render {t : Template} {root : Value} {capacity : Option Nat} {e : Error}
    (h : (t.render root { capacity }).failure = some e) :
    (∃ reason, e = .writeFailed reason) ∨ ∃ span ∈ spansOf t.nodes, e.span? = some span := by
  cases capacity with
  | none => exact .inr (span?_of_render h)
  | some n =>
    rw [(render_limit t root n).2, Rendering.failureWithin] at h
    split at h
    · exact .inr (span?_of_render h)
    · cases h
      exact .inl ⟨_, rfl⟩

/-- **A sink that fills up receives a prefix, and the first failure is the one reported.** Rendering
fails with the template's own failure, which is never that of a sink, if the sink has room for the
output before it, however exactly, and with the sink's failure otherwise. -/
theorem render_into_full_sink (t : Template) (root : Value) (n : Nat) :
    (t.render root { capacity := some n }).output = (t.render root {}).output.take n ∧
      (t.render root { capacity := some n }).failure =
        (if (t.render root {}).output.length ≤ n then (t.render root {}).failure
          else some (.writeFailed "sink full")) ∧
      ∀ reason, (t.render root {}).failure ≠ some (.writeFailed reason) := by
  have ⟨houtput, hfailure⟩ := render_limit t root n
  refine ⟨houtput, hfailure, ?_⟩
  intro reason h
  have ⟨span, _, hspan⟩ := span?_of_render h
  cases hspan

/-- A text that just fits, before a reference that has no value. -/
example :
    let t : Template := ⟨"t", [.text "ab", .subst ⟨"x", []⟩ (.point .start)]⟩
    (t.render (.map {}) { capacity := some 2 }).failure =
        some (.unresolvedReference "x" (.point .start)) ∧
      (t.render (.map {}) { capacity := some 1 }).failure = some (.writeFailed "sink full") := by
  decide

end StateGen.Template
