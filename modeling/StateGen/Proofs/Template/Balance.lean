import StateGen.Proofs.Template.Blocks

/-!
# Where reading a template fails

Pieces are read up to the first tag that says nothing, or that cannot stand where it does. A tag
that ends a block is refused if no block is open, or if the innermost one does not end so; a block
that is still open behind the last piece is refused at the tag that opened it.
-/

namespace StateGen.Template

/-! ## Balance -/

/-- What a directive ends, if it ends something. -/
def Directive.closer? : Directive → Option Closer
  | .endfor => some .endfor
  | .elif _ => some .elif
  | .otherwise => some .otherwise
  | .endif => some .endif
  | .comment | .subst _ | .loop .. | .branch _ => none

/-- Whether a block can end so. -/
def Block.accepts : Block → Closer → Bool
  | .loop, .endfor | .branch, .elif | .branch, .otherwise | .branch, .endif
  | .otherwise, .endif => true
  | _, _ => false

/-- The innermost block that is open behind a sequence, and the place of the `for` or `if` that
opened it: what follows this tag is complete, up to the divisions of a choice. -/
inductive Innermost : List Sign → Block → Span → Prop where
  | loop {key : Option String} {value : String} {path : Path} {opened : Span}
      {outer inner : List Sign} {nodes : List Node} :
    Derives inner nodes →
      Innermost (outer ++ .tag (.loop key value path) opened :: inner) .loop opened
  | branch {c last : Condition} {opened : Span} {outer chain inner : List Sign}
      {done : List (Condition × List Node)} {nodes : List Node} :
    Elifs c chain done last → Derives inner nodes →
      Innermost (outer ++ .tag (.branch c) opened :: (chain ++ inner)) .branch opened
  | otherwise {c last : Condition} {opened dividing : Span} {outer chain inner rest : List Sign}
      {done : List (Condition × List Node)} {body nodes : List Node} :
    Elifs c chain done last → Derives inner body → Derives rest nodes →
      Innermost
        (outer ++ .tag (.branch c) opened :: (chain ++ (inner ++ .tag .otherwise dividing :: rest)))
        .otherwise opened

/-- The failures that tell of blocks which are not balanced. -/
def Error.IsImbalance : Error → Prop
  | .malformed (.unopened _) _ | .malformed (.unclosed ..) _ => True
  | _ => False

/-- The blocks of pieces are not balanced, and a failure tells where and why. -/
inductive Unbalanced (segments : List Segment) : Error → Prop where
  /-- A tag would end a block where none is open. -/
  | unopened {front behind : List Segment} {tag : Tag} {d : Directive} {found : Closer}
      {signs : List Sign} {nodes : List Node} :
    segments = front ++ .tag tag :: behind → List.Forall₂ Segment.Reads front signs →
      Derives signs nodes → d.Says tag.body.toList → d.closer? = some found →
      Unbalanced segments (.malformed (.unopened found) tag.span)
  /-- A tag stands where the innermost block has to end otherwise. -/
  | unclosed {front behind : List Segment} {tag : Tag} {d : Directive} {found : Closer}
      {signs : List Sign} {block : Block} {opened : Span} :
    segments = front ++ .tag tag :: behind → List.Forall₂ Segment.Reads front signs →
      Innermost signs block opened → d.Says tag.body.toList → d.closer? = some found →
      block.accepts found = false →
      Unbalanced segments (.malformed (.unclosed block opened found) tag.span)
  /-- The pieces end within a block. -/
  | ended {signs : List Sign} {block : Block} {opened : Span} :
    List.Forall₂ Segment.Reads segments signs → Innermost signs block opened →
      Unbalanced segments (.malformed (.unclosed block opened .endOfTemplate) opened)

/-! ## Tags that say nothing -/

/-- A reading fails at one place only, and not for want of balance. -/
private def FailsAt {α : Type} (span : Span) (r : Except Error α) : Prop :=
  ∀ e, r = .error e → e.span? = some span ∧ ¬ e.IsImbalance

namespace FailsAt

variable {α β : Type} {span : Span}

private theorem of_ok (a : α) : FailsAt span (.ok a) := by
  intro e he
  cases he

private theorem of_error {e : Error} (h : e.span? = some span) (hbalance : ¬ e.IsImbalance) :
    FailsAt span (.error e : Except Error α) := by
  intro e' he'
  cases he'
  exact ⟨h, hbalance⟩

private theorem bind {x : Except Error α} {f : α → Except Error β} (hx : FailsAt span x)
    (hf : ∀ a, FailsAt span (f a)) : FailsAt span (x >>= f) := by
  cases x with
  | error e =>
    intro e' he'
    cases he'
    exact hx e rfl
  | ok a => exact hf a

private theorem readPath (text : List Char) : FailsAt span (Directive.readPath text span) := by
  rw [Directive.readPath]
  cases Path.parse (String.ofList text) with
  | ok p => exact of_ok p
  | error fault => exact of_error rfl id

private theorem readCondition (text : List Char) :
    FailsAt span (Directive.readCondition text span) := by
  unfold Directive.readCondition
  split
  · exact of_error rfl id
  · exact bind (readPath _) fun p ↦ of_ok _
  · exact bind (readPath _) fun p ↦ of_ok _

private theorem makeLoop (key : Option (List Char)) (value path : List Char) :
    FailsAt span (Directive.makeLoop key value path span) := by
  unfold Directive.makeLoop
  split
  · exact of_error rfl id
  · exact bind (readPath _) fun p ↦ of_ok _

private theorem readLoop (text : List Char) : FailsAt span (Directive.readLoop text span) := by
  unfold Directive.readLoop
  split
  · exact makeLoop _ _ _
  · exact makeLoop _ _ _
  · exact of_error rfl id

private theorem bare (d : Directive) (word : String) (arguments : List Char) :
    FailsAt span (Directive.bare d word arguments span) := by
  rw [Directive.bare]
  by_cases h : arguments.isEmpty
  · rw [if_pos h]
    exact of_ok d
  · rw [if_neg h]
    exact of_error rfl id

end FailsAt

/-- A tag that says nothing fails at its own place. -/
private theorem failsAt_ofTag (tag : Tag) : FailsAt tag.span (Directive.ofTag tag) := by
  unfold Directive.ofTag
  split
  · exact .of_error rfl id
  · exact .of_ok _
  · dsimp only
    split
    · exact .readLoop _
    · exact .bare _ _ _
    · exact .bind (.readCondition _) fun _ ↦ .of_ok _
    · exact .bind (.readCondition _) fun _ ↦ .of_ok _
    · exact .bare _ _ _
    · exact .bare _ _ _
    · exact .bind (.readPath _) fun _ ↦ .of_ok _

/-! ## The first tag that is refused -/

/-- The innermost open block is that of the topmost frame. -/
private theorem Opened.innermost {signs : List Sign} {frame : Frame} {frames : List Frame}
    {nodes : List Node} (h : Opened signs (frame :: frames) nodes) :
    Innermost signs frame.block frame.span := by
  cases h with
  | loop houter h => exact .loop h
  | branch houter hchain h => exact .branch hchain h
  | otherwise houter hchain hbody h => exact .otherwise hchain hbody h

/-- A directive is refused if it ends something and the innermost block does not end so. -/
private theorem step_eq_error {t : Partial} {d : Directive} {span : Span} {e : Error}
    (h : t.step d span = .error e) :
    ∃ found, d.closer? = some found ∧ e = t.refuse found span ∧
      ∀ frame ∈ t.frames.head?, frame.block.accepts found = false := by
  obtain ⟨frames, nodes⟩ := t
  cases d with
  | comment | subst | loop | branch => cases h
  | endfor | elif | otherwise | endif =>
    refine ⟨_, rfl, ?_⟩
    cases frames with
    | nil =>
      cases h
      exact ⟨rfl, fun frame hframe ↦ nomatch hframe⟩
    | cons frame frames =>
      -- The frames that accept the directive are those of which the step does not fail.
      cases frame <;> cases h <;> refine ⟨rfl, ?_⟩ <;> rintro frame ⟨⟩ <;> rfl

/-- Reading that fails behind pieces which were read. -/
private theorem unbalanced_of_readAll {front segments : List Segment} {signs : List Sign}
    {t : Partial} {e : Error} (hreads : List.Forall₂ Segment.Reads front signs)
    (hopened : Opened signs t.frames t.nodes) (h : t.readAll segments = .error e) :
    (∃ tag, .tag tag ∈ segments ∧ e.span? = some tag.span ∧ ¬ e.IsImbalance) ∨
      Unbalanced (front ++ segments) e := by
  -- The invariant is the account of what is open, as the pieces go from the one list to the other.
  induction segments generalizing front signs t with
  | nil =>
    obtain ⟨frames, nodes⟩ := t
    cases frames with
    | nil => cases h
    | cons frame frames =>
      cases h
      rw [List.append_nil]
      exact .inr (.ended hreads hopened.innermost)
  | cons segment segments ih =>
    rw [List.append_cons]
    cases segment with
    | text s =>
      have hmore := List.rel_append hreads (List.Forall₂.cons (.text s) .nil)
      apply (ih hmore (hopened.extend (.text .nil)) h).imp_left
      exact fun ⟨tag, htag, hat⟩ ↦ ⟨tag, List.mem_cons_of_mem _ htag, hat⟩
    | tag tag =>
      rw [Partial.readAll] at h
      cases hd : Directive.ofTag tag with
      | error e' =>
        rw [hd] at h
        cases h
        exact .inl ⟨tag, List.mem_cons_self, failsAt_ofTag tag e hd⟩
      | ok d =>
        have hsays := Directive.ofTag_eq_ok_iff.1 hd
        rw [hd] at h
        cases hstep : t.step d tag.span with
        | error e' =>
          simp only [bind, Except.bind, hstep] at h
          cases h
          obtain ⟨found, hfound, rfl, hrefused⟩ := step_eq_error hstep
          rw [← List.append_cons]
          obtain ⟨frames, nodes⟩ := t
          cases frames with
          | nil =>
            cases hopened with
            | top hderives => exact .inr (.unopened rfl hreads hderives hsays hfound)
          | cons frame frames =>
            have hrefused := hrefused frame rfl
            exact .inr (.unclosed rfl hreads hopened.innermost hsays hfound hrefused)
        | ok t' =>
          simp only [bind, Except.bind, hstep] at h
          have hmore := List.rel_append hreads (List.Forall₂.cons (.tag hsays) .nil)
          apply (ih hmore (hopened.step hstep) h).imp_left
          exact fun ⟨tag, htag, hat⟩ ↦ ⟨tag, List.mem_cons_of_mem _ htag, hat⟩

/-- Pieces are not read if one of the tags says nothing or the blocks are not balanced. -/
theorem readAll_eq_error {segments : List Segment} {e : Error}
    (h : Partial.readAll {} segments = .error e) :
    (∃ tag, .tag tag ∈ segments ∧ e.span? = some tag.span ∧ ¬ e.IsImbalance) ∨
      Unbalanced segments e :=
  unbalanced_of_readAll .nil (.top .nil) h

/-- A directive is what one of the tags says, and stands where that tag does. -/
theorem exists_tag_of_mem {segments : List Segment} {signs : List Sign} {d : Directive}
    {span : Span} (hreads : List.Forall₂ Segment.Reads segments signs)
    (h : .tag d span ∈ signs) :
    ∃ tag, .tag tag ∈ segments ∧ tag.span = span ∧ d.Says tag.body.toList := by
  induction hreads with
  | nil => cases h
  | cons hread _ ih =>
    cases h with
    | head =>
      cases hread with
      | tag hsays => exact ⟨_, List.mem_cons_self, rfl, hsays⟩
    | tail _ h =>
      obtain ⟨tag, htag, hat⟩ := ih h
      exact ⟨tag, List.mem_cons_of_mem _ htag, hat⟩

/-- The innermost block was opened at a `for` or an `if`. -/
theorem Innermost.exists_opening {signs : List Sign} {block : Block} {opened : Span}
    (h : Innermost signs block opened) :
    ∃ d, .tag d opened ∈ signs ∧
      ((∃ key value path, d = .loop key value path) ∨ ∃ c, d = .branch c) := by
  cases h with
  | loop => exact ⟨_, List.mem_append_cons_self, .inl ⟨_, _, _, rfl⟩⟩
  | branch => exact ⟨_, List.mem_append_cons_self, .inr ⟨_, rfl⟩⟩
  | otherwise => exact ⟨_, List.mem_append_cons_self, .inr ⟨_, rfl⟩⟩

/-- A failure for want of balance is at a tag. -/
theorem Unbalanced.span? {segments : List Segment} {e : Error} (h : Unbalanced segments e) :
    ∃ tag, .tag tag ∈ segments ∧ e.span? = some tag.span := by
  cases h with
  | unopened hsegments => exact ⟨_, by rw [hsegments]; exact List.mem_append_cons_self, rfl⟩
  | unclosed hsegments => exact ⟨_, by rw [hsegments]; exact List.mem_append_cons_self, rfl⟩
  | ended hreads hinner =>
    obtain ⟨d, hd, _⟩ := hinner.exists_opening
    obtain ⟨tag, htag, hspan, _⟩ := exists_tag_of_mem hreads hd
    exact ⟨tag, htag, congrArg some hspan.symm⟩

end StateGen.Template
