import StateGen.Proofs.Description.Reading
import StateGen.Proofs.Description.Reports

/-!
# Reading a description accepts exactly the grammar

Blocks and items are attempts: they go on behind a mistake and report it. An attempt never takes a
report back, so one that ends with as many errors as it started with met no mistake at all, and then
it has read a tree of the grammar. Conversely the tokens of a tree are read without recovery.
-/

namespace StateGen.Description

open Grammar Cursor

namespace Attempt

open Read (Reads anything)

variable {α β τ σ : Type} {file : SourceFile}

/-! ## Errors are only added -/

/-- An attempt that takes no report back. -/
def Adds (g : Cursor → Diagnostics → Attempt α) : Prop :=
  ∀ c ds, ds.totalErrors ≤ (g c ds).diagnostics.totalErrors

theorem Reports.adds {g : Cursor → Diagnostics → Attempt α} (h : Reports g) : Adds g :=
  fun c ds ↦ (h c ds).totalErrors_le

theorem adds_done (value : Cursor → α) : Adds fun c ds ↦ ⟨some (value c), c, ds⟩ :=
  (reports_done value).adds

theorem adds_ofRead (p : Read α) : Adds (ofRead file p) := (reports_ofRead p).adds

theorem Adds.andThen {g : Cursor → Diagnostics → Attempt α}
    {f : α → Cursor → Diagnostics → Attempt β} (hg : Adds g) (hf : ∀ a, Adds (f a)) :
    Adds fun c ds ↦ (g c ds).andThen f := by
  intro c ds
  dsimp only
  unfold Attempt.andThen
  split
  · exact Nat.le_trans (hg c ds) (hf _ _ _)
  · exact hg c ds

/-! ## Attempts at a part of the grammar -/

/-- An attempt at a part of the grammar. While there is room for errors, it adds none if and only if
the tokens of a tree are next; then it steps over them and yields the value of the tree. -/
structure Attempts (g : Cursor → Diagnostics → Attempt α) (tokens : τ → List Token)
    (value : τ → α) (follow : Token.Kind → Prop) : Prop where
  adds : Adds g
  sound : ∀ {c ds}, c.Ends → ds.isFull = false →
    (g c ds).diagnostics.totalErrors = ds.totalErrors →
    ∃ t c', g c ds = ⟨some (value t), c', ds⟩ ∧ c.Passes (tokens t) c'
  complete : ∀ {c ds t c'}, c.Ends → ds.isFull = false → c.Passes (tokens t) c' →
    follow c'.peek → g c ds = ⟨some (value t), c', ds⟩

theorem attempts_ofRead {p : Read α} {tokens : τ → List Token} {value : τ → α}
    {follow : Token.Kind → Prop} (hp : Reads p tokens value follow) :
    Attempts (ofRead file p) tokens value follow where
  adds := adds_ofRead p
  sound := by
    intro c ds hc _ htotal
    unfold ofRead at htotal ⊢
    split at htotal
    · next a c' hpc =>
      obtain ⟨t, rfl, ht⟩ := hp.sound hc hpc
      exact ⟨t, c', rfl, ht⟩
    · next f hpc =>
      rw [totalErrors_report] at htotal
      omega
  complete := by
    intro c ds t c' hc _ ht hfollow
    simp only [ofRead, hp.complete hc ht hfollow]

section

variable {g : Cursor → Diagnostics → Attempt α} {tokens : τ → List Token} {value : τ → α}
  {follow : Token.Kind → Prop}

/-- The trees of one kind stand for those of another. -/
theorem Attempts.along {tokens' : σ → List Token} {value' : σ → α}
    (h : Attempts g tokens value follow) (f : τ → σ) (hf : ∀ s, ∃ t, f t = s)
    (htokens : ∀ t, tokens' (f t) = tokens t) (hvalue : ∀ t, value' (f t) = value t) :
    Attempts g tokens' value' follow where
  adds := h.adds
  sound := by
    intro c ds hc hfull htotal
    obtain ⟨t, c', hg, ht⟩ := h.sound hc hfull htotal
    exact ⟨f t, c', by rw [hvalue, hg], by rwa [htokens]⟩
  complete := by
    intro c ds s c' hc hfull hs hfollow
    obtain ⟨t, rfl⟩ := hf s
    rw [htokens] at hs
    rw [hvalue]
    exact h.complete hc hfull hs hfollow

/-- One part behind the other. -/
theorem Attempts.andThen {f : α → Cursor → Diagnostics → Attempt β} {tokens' : σ → List Token}
    {value' : τ → σ → β} {follow' : Token.Kind → Prop} (hg : Attempts g tokens value follow)
    (hadds : ∀ a, Adds (f a)) (hf : ∀ t, Attempts (f (value t)) tokens' (value' t) follow')
    (hfollow : ∀ s ⦃c c' : Cursor⦄, c.Passes (tokens' s) c' → follow c.peek) :
    Attempts (fun c ds ↦ (g c ds).andThen f) (fun t : τ × σ ↦ tokens t.1 ++ tokens' t.2)
      (fun t ↦ value' t.1 t.2) follow' where
  adds := hg.adds.andThen hadds
  sound := by
    intro c ds hc hfull htotal
    -- The second part takes no report back, so the first one has none.
    have hfirst : (g c ds).diagnostics.totalErrors = ds.totalErrors := by
      have hle := hg.adds c ds
      unfold Attempt.andThen at htotal
      split at htotal
      · next a _ =>
        have hle' := hadds a (g c ds).cursor (g c ds).diagnostics
        omega
      · exact htotal
    obtain ⟨t, c', hgc, ht⟩ := hg.sound hc hfull hfirst
    simp only [hgc, Attempt.andThen] at htotal ⊢
    obtain ⟨s, c'', hfc, hs⟩ := (hf t).sound (ht.ends hc) hfull htotal
    exact ⟨(t, s), c'', hfc, passes_append_iff.2 ⟨c', ht, hs⟩⟩
  complete := by
    intro c ds t c'' hc hfull h hlast
    obtain ⟨c', ht, hs⟩ := passes_append_iff.1 h
    simp only [hg.complete hc hfull ht (hfollow t.2 hs), Attempt.andThen]
    exact (hf t.1).complete (ht.ends hc) hfull hs hlast

/-- A part whose value is used behind it. -/
theorem Attempts.use {f : α → Cursor → β} {value' : τ → β} (hg : Attempts g tokens value follow)
    (hvalue : ∀ t ⦃c c' : Cursor⦄, c.Passes (tokens t) c' → f (value t) c' = value' t) :
    Attempts (fun c ds ↦ (g c ds).andThen fun a c ds ↦ ⟨some (f a c), c, ds⟩) tokens value'
      follow where
  adds := hg.adds.andThen fun a ↦ adds_done (f a)
  sound := by
    intro c ds hc hfull htotal
    have hfirst : (g c ds).diagnostics.totalErrors = ds.totalErrors := by
      unfold Attempt.andThen at htotal
      split at htotal <;> exact htotal
    obtain ⟨t, c', hgc, ht⟩ := hg.sound hc hfull hfirst
    exact ⟨t, c', by simp only [hgc, Attempt.andThen, hvalue t ht], ht⟩
  complete := by
    intro c ds t c' hc hfull ht hfollow
    simp only [hg.complete hc hfull ht hfollow, Attempt.andThen, hvalue t ht]

/-- A part whose value is used with the place of its last token. -/
theorem Attempts.mapPlace {last : τ → Span} (hg : Attempts g tokens value follow)
    (f : α → Span → β) (hlast : Stops tokens last) :
    Attempts (fun c ds ↦ (g c ds).andThen fun a c ds ↦ ⟨some (f a c.previous), c, ds⟩) tokens
      (fun t ↦ f (value t) (last t)) follow :=
  hg.use fun _ _ _ ht ↦ by rw [ht.previous_of_stops hlast]

/-- A part whose value is used. -/
theorem Attempts.map {f : α → β} (hg : Attempts g tokens value follow) :
    Attempts (fun c ds ↦ (g c ds).andThen fun a c ds ↦ ⟨some (f a), c, ds⟩) tokens
      (fun t ↦ f (value t)) follow :=
  hg.use fun _ _ _ _ ↦ rfl

/-- A part that one token makes unnecessary. -/
theorem Attempts.orToken {kind : Token.Kind} {a : α} (hg : Attempts g tokens value anything)
    (hkind : kind ≠ .eof) (hstart : Starts tokens (· ≠ kind)) :
    Attempts (fun c ds ↦ if c.peek = kind then ⟨some a, c.advance, ds⟩ else g c ds)
      (Sum.elim (fun s ↦ [⟨kind, s⟩]) tokens) (Sum.elim (fun _ ↦ a) value) anything where
  adds := by
    intro c ds
    dsimp only
    split
    · exact Nat.le_refl _
    · exact hg.adds c ds
  sound := by
    intro c ds hc hfull htotal
    split at htotal
    · next hpeek =>
      exact ⟨.inl c.span, c.advance, by rw [if_pos hpeek]; rfl, passes_of_peek hc hkind hpeek⟩
    · next hpeek =>
      obtain ⟨t, c', hgc, ht⟩ := hg.sound hc hfull htotal
      exact ⟨.inr t, c', by rw [if_neg hpeek, hgc]; rfl, ht⟩
  complete := by
    rintro c ds (s | t) c' hc hfull h -
    · replace h : c.Passes [⟨kind, s⟩] c' := h
      rw [if_pos h.peek_eq, h.advance_eq]
      rfl
    · replace h : c.Passes (tokens t) c' := h
      rw [if_neg (h.peek_of_starts hstart)]
      exact hg.complete hc hfull h trivial

end

/-! ## Blocks -/

section

variable {p : Read α} {hconsumes : p.Consumes} {tokens : τ → List Token} {value : τ → α}

theorem adds_block : Adds (block file p hconsumes) := reports_block.adds

/-- The entries of a block are read up to the first token that cannot start one. -/
theorem attempts_block (hp : Reads p tokens value anything)
    (hstart : Starts tokens (Read.blockGoesOn ·)) :
    Attempts (block file p hconsumes) (fun ts : List τ ↦ ts.flatMap tokens)
      (fun ts ↦ ts.map value) fun kind ↦ Read.blockGoesOn kind = false where
  adds := adds_block
  sound := by
    intro c ds hc hfull htotal
    fun_induction block file p hconsumes c ds with
    | case1 c ds _ => exact ⟨[], c, rfl, passes_nil_iff.2 rfl⟩
    | case2 c ds _ h => rw [hfull] at h; cases h
    | case3 c ds _ _ b c' hpc rest ih =>
      obtain ⟨t, rfl, ht⟩ := hp.sound hc hpc
      obtain ⟨ts, c'', hrest, hts⟩ := ih (ht.ends hc) hfull htotal
      refine ⟨t :: ts, c'', ?_, passes_append_iff.2 ⟨c', ht, hts⟩⟩
      simp only [rest, hrest]
      rfl
    | case4 c ds _ _ f _ ih =>
      -- Recovery starts with one error more, and no later round takes it back.
      have hle : (f.report file ds).totalErrors ≤
          (block file p hconsumes f.cursor.recover (f.report file ds)).diagnostics.totalErrors :=
        adds_block _ _
      rw [totalErrors_report] at hle
      omega
  complete := by
    intro c ds ts c' hc hfull hts hend
    induction ts generalizing c with
    | nil =>
      obtain rfl := passes_nil_iff.1 hts
      have hin : Read.inBlock c = false := hend
      rw [block, hin]
      rfl
    | cons t ts ih =>
      obtain ⟨c₁, ht, hts⟩ := passes_append_iff.1 hts
      have hin : Read.inBlock c = true := ht.peek_of_starts hstart
      have hfirst := hp.complete hc ht trivial
      have hothers := ih (ht.ends hc) hts
      rw [block, hin, dif_neg (by simp [hfull])]
      simp only [Bool.not_true, Bool.false_eq_true, if_false]
      split
      · next b c₂ hpc =>
        rw [hpc] at hfirst
        cases hfirst
        simp only [hothers]
        rfl
      · next f hpc =>
        rw [hpc] at hfirst
        cases hfirst

/-- A body is a semicolon, or a brace and what belongs to it. -/
private theorem body_eq :
    body file p hconsumes = fun c ds ↦
      if c.peek = .semicolon then ⟨some [], c.advance, ds⟩
      else
        (ofRead file (Read.expect .leftBrace) c ds).andThen fun _ c ds ↦
          (block file p hconsumes c ds).andThen fun entries c ds ↦
            (ofRead file (Read.expect .rightBrace) c ds).andThen fun _ c ds ↦
              ⟨some entries, c, ds⟩ := by
  funext c ds
  have hopens : Read.opensBlock c =
      if c.peek = .semicolon then .ok (false, c.advance)
      else
        match Read.expect .leftBrace c with
        | .ok (_, c') => .ok (true, c')
        | .error f => .error f := by
    unfold Read.opensBlock
    rw [Read.bind_apply, Read.eat]
    split
    · next short c₁ heat =>
      split at heat
      · next hpeek =>
        cases heat
        rw [if_pos hpeek]
        rfl
      · next hpeek =>
        cases heat
        rw [if_neg hpeek, if_neg Bool.false_ne_true, Read.bind_apply]
        cases Read.expect .leftBrace c <;> rfl
    · next heat => split at heat <;> cases heat
  rw [body, ofRead, hopens]
  by_cases hpeek : c.peek = .semicolon
  · simp only [if_pos hpeek]
    rfl
  · simp only [if_neg hpeek, ofRead]
    cases Read.expect .leftBrace c <;> rfl

variable (file hconsumes) in
theorem attempts_body (hp : Reads p tokens value anything) (hstart : Starts tokens (·.isKeyword)) :
    Attempts (body file p hconsumes) (Body.tokens tokens) (fun b ↦ b.entries.map value)
      anything := by
  have hentries : Starts tokens (Read.blockGoesOn ·) := by
    intro t
    obtain ⟨tok, ts, heq, hkeyword⟩ := hstart t
    exact ⟨tok, ts, heq, Read.blockGoesOn_of_isKeyword hkeyword⟩
  rw [body_eq]
  refine (((attempts_ofRead (Read.reads_expect .leftBrace (by decide))).andThen
    (fun _ ↦ adds_block.andThen fun _ ↦ (adds_ofRead _).andThen fun _ ↦ adds_done _)
    (fun _ ↦ (attempts_block hp hentries).andThen
      (fun _ ↦ (adds_ofRead _).andThen fun _ ↦ adds_done _)
      (fun _ ↦ (attempts_ofRead (Read.reads_expect .rightBrace (by decide))).map)
      fun _ _ _ h ↦ by rw [h.peek_eq]; rfl)
    fun _ _ _ _ ↦ trivial).orToken (by decide) fun _ ↦ ⟨_, _, rfl, by simp⟩).along
    Read.bodyOf Read.bodyOf_surjective ?_ ?_
  · rintro (s | ⟨left, entries, right⟩) <;> rfl
  · rintro (s | ⟨left, entries, right⟩) <;> rfl

end

/-! ## Items -/

/-- A line gives its guards and callbacks to the event. -/
private theorem eventPreconditions_map (lines : List EventLine) :
    eventPreconditions (lines.map Read.eventHooksOf) = lines.flatMap EventLine.preconditions := by
  rw [eventPreconditions, List.flatMap_map]
  congr 1
  funext line
  cases line <;> rfl

private theorem eventCallbacks_map (lines : List EventLine) :
    eventCallbacks (lines.map Read.eventHooksOf) = lines.flatMap EventLine.callbacks := by
  rw [eventCallbacks, List.flatMap_map]
  congr 1
  funext line
  cases line <;> rfl

theorem attempts_eventItem (start : Span) :
    Attempts (eventItem file start)
      (fun t : Name × Body EventLine ↦ wordToken t.1.ident :: t.2.tokens EventLine.tokens)
      (fun t ↦ ⟨t.1.ident, t.2.entries.flatMap EventLine.preconditions,
        t.2.entries.flatMap EventLine.callbacks, start.cover t.2.last⟩) anything := by
  have hbody := attempts_body file Read.consumes_eventHooks Read.reads_eventHooks starts_eventLine
  unfold eventItem
  refine ((attempts_ofRead Read.reads_identifier).andThen
    (fun _ ↦ hbody.adds.andThen fun _ ↦ adds_done _)
    (fun n ↦ hbody.mapPlace
      (fun lines last ↦
        EventItem.mk n.ident (eventPreconditions lines) (eventCallbacks lines) (start.cover last))
      (stops_body _))
    fun _ _ _ _ ↦ trivial).along id (fun t ↦ ⟨t, rfl⟩) (fun _ ↦ rfl) fun t ↦ ?_
  simp only [id_eq, eventPreconditions_map, eventCallbacks_map]

theorem attempts_stateItem (start : Span) :
    Attempts (stateItem file start)
      (fun t : (Name × Option Span) × Body Entry ↦
        wordToken t.1.1.ident :: markTokens t.1.2 ++ t.2.tokens Entry.tokens)
      (fun t ↦ ⟨t.1.1.ident, t.1.2.isSome, t.2.entries.map Entry.toStateEntry,
        start.cover t.2.last⟩) anything := by
  have hbody := attempts_body file Read.consumes_stateEntry Read.reads_stateEntry starts_entry
  unfold stateItem
  refine ((attempts_ofRead Read.reads_stateHead).andThen
    (fun _ ↦ hbody.adds.andThen fun _ ↦ adds_done _)
    (fun head ↦ hbody.mapPlace
      (fun entries last ↦
        StateItem.mk head.1.ident head.2.isSome entries (start.cover last)) (stops_body _))
    fun b c c' h ↦ ?_).along id (fun t ↦ ⟨t, rfl⟩) (fun _ ↦ rfl) fun _ ↦ rfl
  rcases h.peek_of_starts (starts_body _) with hpeek | hpeek <;> rw [hpeek] <;> decide

theorem adds_item : Adds fun c ds ↦ itemRest file c.peek c.span c.advance ds := reports_item.adds

/-- An item is read by its keyword and the rest behind it. -/
theorem attempts_item :
    Attempts (fun c ds ↦ itemRest file c.peek c.span c.advance ds) Grammar.Item.tokens
      Grammar.Item.toItem anything where
  adds := adds_item
  sound := by
    intro c ds hc hfull htotal
    unfold itemRest at htotal ⊢
    split at htotal
    · next hpeek =>
      have hkeyword := passes_of_peek hc (by simp) hpeek
      obtain ⟨⟨key, value, s⟩, c', heq, hrest⟩ :=
        (attempts_ofRead (Read.reads_optionItem c.span)).map.sound (hkeyword.ends hc) hfull htotal
      exact ⟨.option c.span key value s, c', heq, passes_cons_iff.2 ⟨_, hkeyword, hrest⟩⟩
    · next hpeek =>
      have hkeyword := passes_of_peek hc (by simp) hpeek
      obtain ⟨states, c', heq, hrest⟩ :=
        (attempts_ofRead (Read.reads_initialItem c.span)).map.sound (hkeyword.ends hc) hfull htotal
      exact ⟨.initial c.span states, c', heq, passes_cons_iff.2 ⟨_, hkeyword, hrest⟩⟩
    · next hpeek =>
      have hkeyword := passes_of_peek hc (by simp) hpeek
      obtain ⟨⟨name, body⟩, c', heq, hrest⟩ :=
        (attempts_eventItem c.span).map.sound (hkeyword.ends hc) hfull htotal
      exact ⟨.event c.span name body, c', heq, passes_cons_iff.2 ⟨_, hkeyword, hrest⟩⟩
    · next hpeek =>
      have hkeyword := passes_of_peek hc (by simp) hpeek
      obtain ⟨⟨⟨name, mark⟩, body⟩, c', heq, hrest⟩ :=
        (attempts_stateItem c.span).map.sound (hkeyword.ends hc) hfull htotal
      exact ⟨.state c.span name mark body, c', heq, passes_cons_iff.2 ⟨_, hkeyword, hrest⟩⟩
    · rw [totalErrors_report] at htotal
      omega
  complete := by
    intro c ds t c' hc hfull ht _
    cases t with
    | option s key value semicolon =>
      obtain ⟨c₁, hkeyword, hrest⟩ := passes_cons_iff.1 ht
      rw [hkeyword.peek_eq, hkeyword.span_eq, hkeyword.advance_eq]
      exact (attempts_ofRead (Read.reads_optionItem s)).map.complete (t := (key, value, semicolon))
        (hkeyword.ends hc) hfull hrest trivial
    | initial s states =>
      obtain ⟨c₁, hkeyword, hrest⟩ := passes_cons_iff.1 ht
      rw [hkeyword.peek_eq, hkeyword.span_eq, hkeyword.advance_eq]
      exact (attempts_ofRead (Read.reads_initialItem s)).map.complete
        (hkeyword.ends hc) hfull hrest trivial
    | event s name body =>
      obtain ⟨c₁, hkeyword, hrest⟩ := passes_cons_iff.1 ht
      rw [hkeyword.peek_eq, hkeyword.span_eq, hkeyword.advance_eq]
      exact (attempts_eventItem s).map.complete (t := (name, body))
        (hkeyword.ends hc) hfull hrest trivial
    | state s name mark body =>
      obtain ⟨c₁, hkeyword, hrest⟩ := passes_cons_iff.1 ht
      rw [hkeyword.peek_eq, hkeyword.span_eq, hkeyword.advance_eq]
      exact (attempts_stateItem s).map.complete (t := ((name, mark), body))
        (hkeyword.ends hc) hfull hrest trivial

end Attempt

/-! ## The whole description -/

section

variable {file : SourceFile} {c c' : Cursor} {ds : Diagnostics}

theorem totalErrors_itemsFrom_le (file : SourceFile) (c : Cursor) (ds : Diagnostics) :
    ds.totalErrors ≤ (itemsFrom file c ds).2.2.totalErrors :=
  (grows_itemsFrom file c ds).totalErrors_le

/-- Items that are read without an error are those of a derivation. -/
theorem itemsFrom_sound (hc : c.Ends) (hfull : ds.isFull = false)
    (htotal : (itemsFrom file c ds).2.2.totalErrors = ds.totalErrors) :
    ∃ (items : Derivation) (c' : Cursor),
      itemsFrom file c ds = (items.map Grammar.Item.toItem, c', ds) ∧ c.Passes items.tokens c' ∧
        c'.peek = .eof := by
  fun_induction itemsFrom file c ds with
  | case1 c ds h => exact ⟨[], c, rfl, passes_nil_iff.2 rfl, by simpa [hfull, atEnd] using h⟩
  | case2 c ds _ x item hx items c' ds' hrest ih =>
    have hle : ds.totalErrors ≤ x.diagnostics.totalErrors := Attempt.adds_item c ds
    have hle' := totalErrors_itemsFrom_le file x.cursor x.diagnostics
    rw [hrest] at hle'
    have hfirst : x.diagnostics.totalErrors = ds.totalErrors := by
      dsimp only at hle' htotal
      omega
    obtain ⟨t, c₁, hxc, ht⟩ := Attempt.attempts_item.sound hc hfull hfirst
    replace hxc : x = ⟨some t.toItem, c₁, ds⟩ := hxc
    rw [hxc] at hx hrest ih
    cases hx
    rw [hrest] at ih
    obtain ⟨ts, c₂, heq, hts, hend⟩ := ih (ht.ends hc) hfull htotal
    cases heq
    exact ⟨t :: ts, c', rfl, passes_append_iff.2 ⟨c₁, ht, hts⟩, hend⟩
  | case3 c ds _ x hx ih =>
    -- An item that is given up has reported an error: without one it would have a value.
    have hle : ds.totalErrors ≤ x.diagnostics.totalErrors := Attempt.adds_item c ds
    have hle' := totalErrors_itemsFrom_le file x.cursor.toNextItem x.diagnostics
    have hfirst : x.diagnostics.totalErrors = ds.totalErrors := by omega
    obtain ⟨t, c₁, hxc, -⟩ := Attempt.attempts_item.sound hc hfull hfirst
    replace hxc : x = ⟨some t.toItem, c₁, ds⟩ := hxc
    rw [hxc] at hx
    cases hx

/-- The items of a derivation are read without an error. -/
theorem itemsFrom_complete {items : Derivation} (hc : c.Ends) (hfull : ds.isFull = false)
    (hitems : c.Passes items.tokens c') (hend : c'.peek = .eof) :
    itemsFrom file c ds = (items.map Grammar.Item.toItem, c', ds) := by
  induction items generalizing c with
  | nil =>
    obtain rfl := passes_nil_iff.1 hitems
    rw [itemsFrom, dif_pos (by simp [atEnd, hend])]
    rfl
  | cons t ts ih =>
    obtain ⟨c₁, ht, hts⟩ := passes_append_iff.1 hitems
    have hkeyword : c.peek.isKeyword := ht.peek_of_starts starts_item
    have hgoes : ¬ (c.atEnd || ds.isFull) := by
      intro h
      have hpeek : c.peek = .eof := by simpa [hfull, atEnd] using h
      rw [hpeek] at hkeyword
      cases hkeyword
    have hitem : itemRest file c.peek c.span c.advance ds = ⟨some t.toItem, c₁, ds⟩ :=
      Attempt.attempts_item.complete hc hfull ht trivial
    have hrest := ih (ht.ends hc) hts
    rw [itemsFrom, dif_neg hgoes]
    dsimp only
    split
    · next item hvalue =>
      rw [hitem] at hvalue
      cases hvalue
      simp only [hitem, hrest]
      rfl
    · next hvalue =>
      rw [hitem] at hvalue
      cases hvalue

end

/-- Before the first end of a text stand its tokens, whatever follows the end. -/
theorem cursor_ofTokens (file : SourceFile) {tokens behind : List Token} {finish : Token}
    (htokens : ∀ t ∈ tokens, t.kind ≠ .eof) (hfinish : finish.kind = .eof) :
    Cursor.ofTokens file (tokens ++ finish :: behind) = ⟨.point .start, tokens, finish⟩ := by
  have hrest : (tokens ++ finish :: behind).takeWhile (·.kind != .eof) = tokens := by
    rw [List.takeWhile_append_of_pos (by simpa using htokens)]
    simp [hfinish]
  have hfind : (tokens ++ finish :: behind).find? (·.kind == .eof) = some finish := by
    rw [List.find?_append, List.find?_eq_none.2 (by simpa using htokens)]
    simp [hfinish]
  simp only [Cursor.ofTokens, hrest, hfind]

/-- A text whose tokens have a derivation is read without an error. -/
theorem ofTokens_of_derivation (file : SourceFile) {items : Derivation} {finish : Token}
    (htokens : ∀ t ∈ items.tokens, t.kind ≠ .eof) (hfinish : finish.kind = .eof) :
    ofTokens file (items.tokens ++ [finish]) = (items.description finish, .empty) := by
  let start : Cursor := ⟨.point .start, items.tokens, finish⟩
  let stop : Cursor := ⟨(items.tokens.getLast?.map Token.span).getD (.point .start), [], finish⟩
  have hpass : start.Passes items.tokens stop := ⟨(List.append_nil _).symm, rfl, rfl⟩
  have hitems : itemsFrom file start .empty = (items.map Grammar.Item.toItem, stop, .empty) :=
    itemsFrom_complete hfinish rfl hpass hfinish
  have hspan : start.span = (items.tokens.head?.getD finish).span := by
    simp only [start, Cursor.span]
    cases items.tokens <;> rfl
  rw [ofTokens, cursor_ofTokens file htokens hfinish]
  simp only [start] at hitems hspan
  simp only [hitems, hspan]
  rfl

/-- The tokens of a text that is read without an error have a derivation. -/
theorem exists_derivation_of_ofTokens (file : SourceFile) {tokens : List Token} {finish : Token}
    (htokens : ∀ t ∈ tokens, t.kind ≠ .eof) (hfinish : finish.kind = .eof)
    (htotal : (ofTokens file (tokens ++ [finish])).2.totalErrors = 0) :
    ∃ items : Derivation, items.tokens = tokens := by
  have hends : Cursor.Ends ⟨.point .start, tokens, finish⟩ := hfinish
  rw [ofTokens, cursor_ofTokens file htokens hfinish] at htotal
  obtain ⟨items, c, -, hpass, hend⟩ := itemsFrom_sound hends rfl htotal
  refine ⟨items, ?_⟩
  have hrest : tokens = items.tokens ++ c.rest := hpass.rest
  cases hc : c.rest with
  | nil => rw [hrest, hc, List.append_nil]
  | cons t ts =>
    have hkind : t.kind = .eof := by
      rw [← hend, Cursor.peek, hc]
    exact absurd hkind (htokens t (by simp [hrest, hc]))

/-- Reading a text reports no error if and only if its tokens derive from the grammar; then there is
one derivation, and the description is the one that it stands for. -/
theorem ofTokens_accepts_iff (file : SourceFile) (tokens : List Token) (finish : Token)
    (htokens : ∀ t ∈ tokens, t.kind ≠ .eof) (hfinish : finish.kind = .eof) :
    ((ofTokens file (tokens ++ [finish])).2.totalErrors = 0 ↔
        ∃ items : Derivation, items.tokens = tokens) ∧
      ((ofTokens file (tokens ++ [finish])).2.totalErrors = 0 →
        ∃ items : Derivation, items.tokens = tokens ∧
          (∀ other : Derivation, other.tokens = tokens → other = items) ∧
          (ofTokens file (tokens ++ [finish])).1 = items.description finish) := by
  refine ⟨⟨exists_derivation_of_ofTokens file htokens hfinish, ?_⟩, fun htotal ↦ ?_⟩
  · rintro ⟨items, rfl⟩
    rw [ofTokens_of_derivation file htokens hfinish]
    rfl
  · obtain ⟨items, rfl⟩ := exists_derivation_of_ofTokens file htokens hfinish htotal
    refine ⟨items, rfl, fun other hother ↦ Derivation.tokens_injective hother, ?_⟩
    rw [ofTokens_of_derivation file htokens hfinish]

/-- The place of the token with a number. -/
private def place (column : Nat) : Span := .point ⟨1, column⟩

/-- The text `state ready initial { next-state busy, ready { precondition idle; } }`. -/
private def ready : Derivation :=
  [.state (place 1) ⟨⟨"ready", place 2⟩, by decide⟩ (some (place 3))
    (.block (place 4)
      [.nextState (place 5)
        ⟨⟨⟨"busy", place 6⟩, by decide⟩, [(place 7, ⟨⟨"ready", place 8⟩, by decide⟩)]⟩
        (.block (place 9)
          [⟨place 10, ⟨⟨⟨⟨"idle", place 11⟩, by decide⟩, []⟩, place 12⟩⟩]
          (place 13))]
      (place 14))]

/-- The state is read with its edges, and a semicolon on its own is refused. -/
theorem ofTokens_accepts_iff_ready :
    (∀ t ∈ ready.tokens, t.kind ≠ .eof) ∧
      (ofTokens ⟨"ready.fsm", ""⟩ (ready.tokens ++ [⟨.eof, .none⟩])).2.totalErrors = 0 ∧
      (ofTokens ⟨"ready.fsm", ""⟩ (ready.tokens ++ [⟨.eof, .none⟩])).1.items =
        [.state ⟨⟨"ready", place 2⟩, true,
          [.nextState ⟨[⟨"busy", place 6⟩, ⟨"ready", place 8⟩], [⟨"idle", place 11⟩],
            ⟨1, 5, 1, 13⟩⟩], ⟨1, 1, 1, 14⟩⟩] ∧
      (ofTokens ⟨"ready.fsm", ""⟩ ([⟨.semicolon, .none⟩] ++ [⟨.eof, .none⟩])).2.totalErrors ≠
        0 := by
  have hready : ∀ t ∈ ready.tokens, t.kind ≠ .eof := by decide
  obtain ⟨haccepts, hdescription⟩ :=
    ofTokens_accepts_iff ⟨"ready.fsm", ""⟩ ready.tokens ⟨.eof, .none⟩ hready rfl
  have hzero := haccepts.2 ⟨ready, rfl⟩
  obtain ⟨items, -, hunique, hitems⟩ := hdescription hzero
  refine ⟨hready, hzero, ?_, fun hsemicolon ↦ ?_⟩
  · rw [hitems, ← hunique ready rfl]
    rfl
  · obtain ⟨items, hitems⟩ :=
      (ofTokens_accepts_iff ⟨"ready.fsm", ""⟩ [⟨.semicolon, .none⟩] ⟨.eof, .none⟩ (by decide)
        rfl).1.1 hsemicolon
    cases items with
    | nil => cases hitems
    | cons item items =>
      obtain ⟨t, ts, htokens, hkeyword⟩ := starts_item item
      rw [Derivation.tokens, List.flatMap_cons, htokens] at hitems
      rw [List.head_eq_of_cons_eq hitems] at hkeyword
      cases hkeyword

end StateGen.Description
