import StateGen.Proofs.Template.Printing
import StateGen.Proofs.Template.Semantics

/-!
# Trees that write the same

The places of tags are told in failures only, and a text may be cut into several texts or hold
nothing at all. Two trees that differ in these respects alone write the same, and reading segments
that differ so gives such trees.
-/

namespace StateGen.Template

/-- Nodes that write the same, or both fail, whatever the values of names are. -/
def Similar (ns ms : List Node) : Prop := ∀ env, (outputs ns env).text? = (outputs ms env).text?

/-- Branches of which the same one is taken, with similar bodies. -/
def BranchesSimilar (bs cs : List (Condition × List Node)) : Prop :=
  ∀ env, (firstOutput bs env).map Output.text? = (firstOutput cs env).map Output.text?

/-- Open blocks that hold similar nodes. -/
inductive FramesSimilar : List Frame → List Frame → Prop where
  | nil : FramesSimilar [] []
  | loop {fs gs before before' key value path span span'} (h : Similar before before')
    (hrest : FramesSimilar fs gs) :
    FramesSimilar (.loop before key value path span :: fs)
      (.loop before' key value path span' :: gs)
  | branch {fs gs before before' done done' c span span'} (h : Similar before before')
    (hdone : BranchesSimilar done done') (hrest : FramesSimilar fs gs) :
    FramesSimilar (.branch before done c span :: fs) (.branch before' done' c span' :: gs)
  | otherwise {fs gs before before' done done' span span'} (h : Similar before before')
    (hdone : BranchesSimilar done done') (hrest : FramesSimilar fs gs) :
    FramesSimilar (.otherwise before done span :: fs) (.otherwise before' done' span' :: gs)

/-- Templates that are partly read and hold similar nodes. -/
structure PartialsSimilar (t u : Partial) : Prop where
  frames : FramesSimilar t.frames u.frames
  nodes : Similar t.nodes u.nodes

/-- Two results that are related, or two failures. -/
inductive ResultsSimilar {α : Type} (r : α → α → Prop) :
    Except Error α → Except Error α → Prop where
  | ok {a b : α} (h : r a b) : ResultsSimilar r (.ok a) (.ok b)
  | error (e e' : Error) : ResultsSimilar r (.error e) (.error e')

/-! ## Nodes that write the same -/

theorem Similar.refl (ns : List Node) : Similar ns ns := fun _ ↦ rfl

theorem Similar.symm {ns ms : List Node} (h : Similar ns ms) : Similar ms ns :=
  fun env ↦ (h env).symm

theorem Similar.trans {ns ms ls : List Node} (h : Similar ns ms) (h' : Similar ms ls) :
    Similar ns ls :=
  fun env ↦ (h env).trans (h' env)

theorem Similar.append {ns ns' ms ms' : List Node} (hn : Similar ns ns') (hm : Similar ms ms') :
    Similar (ns ++ ms) (ns' ++ ms') := by
  intro env
  rw [outputs_append, outputs_append, hn env, hm env]

private theorem text?_outputs_singleton (n : Node) (env : Env) :
    (outputs [n] env).text? = (n.output env).text? := by
  rw [outputs, outputs, Output.text?_andThen]
  cases (n.output env).text? <;> simp [Output.text?]

private theorem text?_rounds_congr {f g : List (String × Value) → Output}
    (h : ∀ scopes, (f scopes).text? = (g scopes).text?) (key : Option String) (value : String)
    (length index : Nat) (entries : List (Value × Value)) :
    (rounds key value length f index entries).text? =
      (rounds key value length g index entries).text? := by
  induction entries generalizing index with
  | nil => rfl
  | cons entry entries ih =>
    rw [rounds, rounds, Output.text?_andThen, Output.text?_andThen, h, ih]

private theorem similar_loop {body body' : List Node} (h : Similar body body')
    (key : Option String) (value : String) (path : Path) (span span' : Span) :
    Similar [.loop key value path body span] [.loop key value path body' span'] := by
  intro env
  rw [text?_outputs_singleton, text?_outputs_singleton, Node.output, Node.output, entriesAt,
    entriesAt]
  cases path.resolve env with
  | none => rfl
  | some v =>
    cases hv : Renderer.entries? v with
    | none => simp only [hv]; rfl
    | some entries =>
      simp only [hv]
      exact text?_rounds_congr (fun scopes ↦ h _) ..

private theorem similar_choice {branches branches' : List (Condition × List Node)}
    {otherwise otherwise' : List Node} (hb : BranchesSimilar branches branches')
    (ho : Similar otherwise otherwise') :
    Similar [.choice branches otherwise] [.choice branches' otherwise'] := by
  intro env
  have hfirst := hb env
  rw [text?_outputs_singleton, text?_outputs_singleton, Node.output, Node.output]
  cases h : firstOutput branches env with
  | none =>
    rw [h, Option.map_none] at hfirst
    rw [Option.map_eq_none_iff.1 hfirst.symm]
    exact ho env
  | some o =>
    rw [h, Option.map_some] at hfirst
    obtain ⟨o', ho', htext⟩ := Option.map_eq_some_iff.1 hfirst.symm
    rw [ho']
    exact htext.symm

private theorem firstOutput_append (bs cs : List (Condition × List Node)) (env : Env) :
    firstOutput (bs ++ cs) env = (firstOutput bs env).or (firstOutput cs env) := by
  induction bs with
  | nil => simp [firstOutput]
  | cons b bs ih =>
    obtain ⟨c, body⟩ := b
    rw [List.cons_append, firstOutput, firstOutput, ih]
    by_cases hc : c.holds env <;> simp [hc]

private theorem branchesSimilar_snoc {bs bs' : List (Condition × List Node)} {c : Condition}
    {body body' : List Node} (hb : BranchesSimilar bs bs') (h : Similar body body') :
    BranchesSimilar (bs ++ [(c, body)]) (bs' ++ [(c, body')]) := by
  intro env
  have hfirst := hb env
  rw [firstOutput_append, firstOutput_append]
  cases hbs : firstOutput bs env with
  | none =>
    rw [hbs, Option.map_none] at hfirst
    rw [Option.map_eq_none_iff.1 hfirst.symm]
    by_cases hc : c.holds env
    · simp [firstOutput, hc, h env]
    · simp [firstOutput, hc]
  | some o =>
    rw [hbs, Option.map_some] at hfirst
    obtain ⟨o', ho', htext⟩ := Option.map_eq_some_iff.1 hfirst.symm
    rw [ho']
    simp [htext]

/-! ## Directives -/

/-- A directive keeps similarity, wherever it stands. -/
private theorem step_similar {t u : Partial} (h : PartialsSimilar t u) (d : Directive)
    (span span' : Span) :
    ResultsSimilar PartialsSimilar (t.step d span) (u.step d span') := by
  obtain ⟨tframes, tnodes⟩ := t
  obtain ⟨uframes, unodes⟩ := u
  obtain ⟨hframes, hnodes⟩ := h
  simp only at hframes hnodes
  cases d with
  | comment => exact .ok ⟨hframes, hnodes⟩
  | subst path =>
    refine .ok ⟨hframes, hnodes.append fun env ↦ ?_⟩
    rw [text?_outputs_singleton, text?_outputs_singleton, Node.output, Node.output, substitution,
      substitution]
    cases path.resolve env with
    | none => rfl
    | some v => cases v <;> rfl
  | loop key value path => exact .ok ⟨.loop hnodes hframes, .refl []⟩
  | branch c => exact .ok ⟨.branch hnodes (fun _ ↦ rfl) hframes, .refl []⟩
  | endfor =>
    cases hframes with
    | loop hbefore hrest => exact .ok ⟨hrest, hbefore.append (similar_loop hnodes _ _ _ _ _)⟩
    | nil | branch | otherwise => exact .error _ _
  | elif c =>
    cases hframes with
    | branch hbefore hdone hrest =>
      exact .ok ⟨.branch hbefore (branchesSimilar_snoc hdone hnodes) hrest, .refl []⟩
    | nil | loop | otherwise => exact .error _ _
  | otherwise =>
    cases hframes with
    | branch hbefore hdone hrest =>
      exact .ok ⟨.otherwise hbefore (branchesSimilar_snoc hdone hnodes) hrest, .refl []⟩
    | nil | loop | otherwise => exact .error _ _
  | endif =>
    cases hframes with
    | branch hbefore hdone hrest =>
      exact .ok ⟨hrest, hbefore.append
        (similar_choice (branchesSimilar_snoc hdone hnodes) (.refl []))⟩
    | otherwise hbefore hdone hrest =>
      exact .ok ⟨hrest, hbefore.append (similar_choice hdone hnodes)⟩
    | nil | loop => exact .error _ _

private theorem finish_similar {t u : Partial} (h : PartialsSimilar t u) :
    ResultsSimilar Similar t.finish u.finish := by
  obtain ⟨tframes, tnodes⟩ := t
  obtain ⟨uframes, unodes⟩ := u
  obtain ⟨hframes, hnodes⟩ := h
  simp only at hframes hnodes
  cases hframes with
  | nil => exact .ok hnodes
  | loop | branch | otherwise => exact .error _ _

section

variable {α β : Type}

private theorem ResultsSimilar.map {r : Except Error α} {r' : Except Error α} (f : α → β)
    (h : ResultsSimilar Eq r r') : ResultsSimilar Eq (f <$> r) (f <$> r') := by
  cases h with
  | ok h => exact .ok (congrArg f h)
  | error e e' => exact .error e e'

private theorem ResultsSimilar.bind {r : Except Error α} {r' : Except Error α}
    {s : α → α → Prop} {s' : β → β → Prop} {f f' : α → Except Error β} (h : ResultsSimilar s r r')
    (hf : ∀ a b, s a b → ResultsSimilar s' (f a) (f' b)) :
    ResultsSimilar s' (r >>= f) (r' >>= f') := by
  cases h with
  | ok h => exact hf _ _ h
  | error e e' => exact .error e e'

end

namespace Directive

private theorem readPath_similar (text : List Char) (span span' : Span) :
    ResultsSimilar Eq (readPath text span) (readPath text span') := by
  rw [readPath, readPath]
  cases Path.parse (String.ofList text) with
  | ok p => exact .ok rfl
  | error fault => exact .error _ _

private theorem readCondition_similar (text : List Char) (span span' : Span) :
    ResultsSimilar Eq (readCondition text span) (readCondition text span') := by
  rw [readCondition, readCondition]
  split
  · exact .error _ _
  · exact (readPath_similar _ span span').map _
  · exact (readPath_similar _ span span').map _

private theorem makeLoop_similar (key : Option (List Char)) (value path : List Char)
    (span span' : Span) :
    ResultsSimilar Eq (makeLoop key value path span) (makeLoop key value path span') := by
  rw [makeLoop, makeLoop]
  split
  · exact .error _ _
  · exact (readPath_similar _ span span').map _

private theorem readLoop_similar (text : List Char) (span span' : Span) :
    ResultsSimilar Eq (readLoop text span) (readLoop text span') := by
  rw [readLoop, readLoop]
  split
  · exact makeLoop_similar _ _ _ span span'
  · exact makeLoop_similar _ _ _ span span'
  · exact .error _ _

private theorem bare_similar (d : Directive) (word : String) (arguments : List Char)
    (span span' : Span) :
    ResultsSimilar Eq (bare d word arguments span) (bare d word arguments span') := by
  rw [bare, bare]
  split
  · exact .ok rfl
  · exact .error _ _

/-- The place of a tag matters only for failures. -/
private theorem ofTag_similar (body : String) (span span' : Span) :
    ResultsSimilar Eq (ofTag ⟨body, span⟩) (ofTag ⟨body, span'⟩) := by
  simp only [ofTag]
  split
  · exact .error _ _
  · exact .ok rfl
  · split
    · exact readLoop_similar _ span span'
    · exact bare_similar _ _ _ span span'
    · exact (readCondition_similar _ span span').map _
    · exact (readCondition_similar _ span span').map _
    · exact bare_similar _ _ _ span span'
    · exact bare_similar _ _ _ span span'
    · exact (readPath_similar _ span span').map _

end Directive

/-! ## Texts -/

/-- Two texts are as good as one. -/
private theorem similar_text_append (s s' : String) :
    Similar [.text s, .text s'] [.text (s ++ s')] := by
  intro env
  rw [← List.singleton_append, outputs_append, Writes.text s, Writes.text s', Writes.text (s ++ s')]
  rfl

/-- An empty text is as good as none. -/
private theorem similar_text_empty (ns : List Node) : Similar (ns ++ [.text ""]) ns := by
  intro env
  rw [outputs_append, Writes.text ""]
  cases (outputs ns env).text? <;> simp

/-- What is left of the text in front of a tag is read as one node or none. -/
private theorem readAll_textSegment {t u : Partial} {acc : List Char}
    (h : PartialsSimilar t (u.push (.text (String.ofList acc)))) (rest : List Segment) :
    ∃ u', u.readAll (textSegment acc ++ rest) = u'.readAll rest ∧ PartialsSimilar t u' := by
  by_cases hacc : acc = []
  · refine ⟨u, by simp [textSegment, hacc], h.frames, h.nodes.trans ?_⟩
    rw [hacc]
    exact similar_text_empty u.nodes
  · refine ⟨u.push (.text (String.ofList acc)), ?_, h⟩
    simp [textSegment, hacc, Partial.readAll]

/-- The text that `tidy` holds back is all that the two differ in on the way. -/
private theorem readAll_tidy_pending {t u : Partial} {acc : List Char} (segments : List Segment)
    (h : PartialsSimilar t (u.push (.text (String.ofList acc)))) :
    ResultsSimilar Similar (t.readAll segments) (u.readAll (tidy acc segments)) := by
  induction segments generalizing t u acc with
  | nil =>
    obtain ⟨u', hread, hsimilar⟩ := readAll_textSegment h []
    rw [tidy, ← List.append_nil (textSegment acc), hread]
    exact finish_similar hsimilar
  | cons segment segments ih =>
    cases segment with
    | text s =>
      refine ih ⟨h.frames, (h.nodes.append (.refl [.text s])).trans ?_⟩
      simp only [Partial.push, List.append_assoc, List.singleton_append]
      refine (Similar.refl u.nodes).append ?_
      rw [String.ofList_append, String.ofList_toList]
      exact similar_text_append (String.ofList acc) s
    | tag tag =>
      obtain ⟨u', hread, hsimilar⟩ :=
        readAll_textSegment h (.tag ⟨tag.body, .none⟩ :: tidy [] segments)
      rw [tidy, hread, Partial.readAll, Partial.readAll]
      refine (Directive.ofTag_similar tag.body tag.span .none).bind ?_
      rintro d _ rfl
      refine (step_similar hsimilar d tag.span .none).bind fun t' u'' hstep ↦ ?_
      exact ih ⟨hstep.frames, hstep.nodes.trans (similar_text_empty u''.nodes).symm⟩

/-- Neither places nor the division of texts matter to what is read. -/
theorem readAll_tidy (segments : List Segment) :
    ResultsSimilar Similar (Partial.readAll {} segments) (Partial.readAll {} (tidy [] segments)) :=
  readAll_tidy_pending segments ⟨.nil, (similar_text_empty []).symm⟩

end StateGen.Template
