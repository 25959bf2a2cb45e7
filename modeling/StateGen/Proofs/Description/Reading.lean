import StateGen.Proofs.Description.Grammar

/-!
# What reading functions accept

A reading function `Reads` a part of the grammar if it succeeds exactly in front of the tokens of a
tree, stops behind them and yields the value of the tree. Where the part does not tell by itself
where it ends, the token behind it has to. This is proved once for each way of combining reading
functions and then, function by function, for the whole grammar below the level of blocks.
-/

namespace StateGen.Description

open Grammar

namespace Cursor

/-- Stepping over tokens leads from one cursor to the other. -/
structure Passes (c : Cursor) (ts : List Token) (c' : Cursor) : Prop where
  rest : c.rest = ts ++ c'.rest
  previous : c'.previous = (ts.getLast?.map Token.span).getD c.previous
  finish : c'.finish = c.finish

/-- The end of the text stands behind the tokens. -/
def Ends (c : Cursor) : Prop := c.finish.kind = .eof

variable {τ : Type} {c c' c'' : Cursor} {t : Token} {ts us : List Token}

theorem Passes.ends (h : c.Passes ts c') (hc : c.Ends) : c'.Ends := by
  rw [Ends, h.finish]
  exact hc

theorem passes_nil_iff : c.Passes [] c' ↔ c = c' := by
  constructor
  · rintro ⟨hrest, hprevious, hfinish⟩
    cases c
    cases c'
    simp_all
  · rintro rfl
    exact ⟨rfl, rfl, rfl⟩

theorem passes_append_iff :
    c.Passes (ts ++ us) c'' ↔ ∃ c', c.Passes ts c' ∧ c'.Passes us c'' := by
  have hlast (s : Span) : ((ts ++ us).getLast?.map Token.span).getD s =
      (us.getLast?.map Token.span).getD ((ts.getLast?.map Token.span).getD s) := by
    rw [List.getLast?_append]
    cases us.getLast? <;> rfl
  constructor
  · intro h
    refine ⟨⟨(ts.getLast?.map Token.span).getD c.previous, us ++ c''.rest, c.finish⟩, ?_, ?_⟩
    · exact ⟨by rw [h.rest, List.append_assoc], rfl, rfl⟩
    · exact ⟨rfl, by rw [h.previous, hlast], h.finish⟩
  · rintro ⟨c', h, h'⟩
    exact ⟨by rw [h.rest, h'.rest, List.append_assoc], by rw [h'.previous, h.previous, hlast],
      h'.finish.trans h.finish⟩

theorem passes_cons_iff : c.Passes (t :: ts) c'' ↔ ∃ c', c.Passes [t] c' ∧ c'.Passes ts c'' := by
  rw [← List.singleton_append, passes_append_iff]

theorem passes_singleton_iff : c.Passes [t] c' ↔ c.rest.head? = some t ∧ c.advance = c' := by
  obtain ⟨previous, rest, finish⟩ := c
  obtain ⟨previous', rest', finish'⟩ := c'
  cases rest with
  | nil =>
    refine iff_of_false (fun h ↦ ?_) (fun h ↦ ?_)
    · cases h.rest
    · cases h.1
  | cons t' ts =>
    constructor
    · rintro ⟨hrest, hprevious, hfinish⟩
      cases hrest
      cases hprevious
      cases hfinish
      exact ⟨rfl, rfl⟩
    · rintro ⟨hhead, hadvance⟩
      cases hhead
      cases hadvance
      exact ⟨rfl, rfl, rfl⟩

theorem Passes.peek_eq (h : c.Passes (t :: ts) c') : c.peek = t.kind := by
  rw [peek, h.rest]
  rfl

theorem Passes.span_eq (h : c.Passes (t :: ts) c') : c.span = t.span := by
  rw [span, h.rest]
  rfl

theorem Passes.advance_eq (h : c.Passes [t] c') : c.advance = c' :=
  (passes_singleton_iff.1 h).2

theorem Passes.peek_of_starts {tree : τ} {tokens : τ → List Token} {first : Token.Kind → Prop}
    (h : c.Passes (tokens tree) c') (hfirst : Starts tokens first) : first c.peek := by
  obtain ⟨t, ts, heq, ht⟩ := hfirst tree
  rw [heq] at h
  rw [h.peek_eq]
  exact ht

theorem Passes.previous_of_stops {tree : τ} {tokens : τ → List Token} {last : τ → Span}
    (h : c.Passes (tokens tree) c') (hlast : Stops tokens last) : c'.previous = last tree := by
  obtain ⟨ts, kind, heq⟩ := hlast tree
  rw [h.previous, heq, List.getLast?_concat]
  rfl

/-- A token before the end of the text can be stepped over. -/
theorem passes_of_peek {kind : Token.Kind} (hc : c.Ends) (hkind : kind ≠ .eof)
    (hpeek : c.peek = kind) : c.Passes [⟨kind, c.span⟩] c.advance := by
  subst hpeek
  rw [passes_singleton_iff]
  obtain ⟨previous, rest, finish⟩ := c
  cases rest with
  | nil => exact absurd hc hkind
  | cons t ts => exact ⟨rfl, rfl⟩

end Cursor

namespace Read

open Cursor

variable {α β τ σ : Type}

/-- Reading `p` is reading a part of the grammar: it steps over the tokens of a tree and yields the
value of the tree, whenever such tokens are next and what stands behind them may follow. -/
structure Reads (p : Read α) (tokens : τ → List Token) (value : τ → α)
    (follow : Token.Kind → Prop) : Prop where
  sound : ∀ {c a c'}, c.Ends → p c = .ok (a, c') → ∃ t, value t = a ∧ c.Passes (tokens t) c'
  /-- Here it matters what follows: with more of the same behind it, `p` would read on. -/
  complete : ∀ {c t c'}, c.Ends → c.Passes (tokens t) c' → follow c'.peek →
    p c = .ok (value t, c')

/-- Any token may follow. -/
def anything (_ : Token.Kind) : Prop := True

/-! ## Combinations -/

section

variable {p : Read α} {tokens : τ → List Token} {value : τ → α} {follow : Token.Kind → Prop}

/-- The trees of one kind stand for those of another. -/
theorem Reads.along {tokens' : σ → List Token} {value' : σ → α} (h : Reads p tokens value follow)
    (f : τ → σ) (hf : ∀ s, ∃ t, f t = s) (htokens : ∀ t, tokens' (f t) = tokens t)
    (hvalue : ∀ t, value' (f t) = value t) : Reads p tokens' value' follow where
  sound := by
    intro c a c' hc hpc
    obtain ⟨t, rfl, ht⟩ := h.sound hc hpc
    exact ⟨f t, hvalue t, by rwa [htokens]⟩
  complete := by
    intro c s c' hc hs hfollow
    obtain ⟨t, rfl⟩ := hf s
    rw [htokens] at hs
    rw [hvalue]
    exact h.complete hc hs hfollow

/-- One part behind the other. The second part has to tell where the first one ends, if that is in
question. -/
theorem Reads.bindFollowed {q : α → Read β} {tokens' : σ → List Token} {value' : τ → σ → β}
    {follow' : Token.Kind → Prop} (hp : Reads p tokens value follow)
    (hq : ∀ t, Reads (q (value t)) tokens' (value' t) follow')
    (hfollow : ∀ s ⦃c c' : Cursor⦄, c.Passes (tokens' s) c' → follow c.peek) :
    Reads (p >>= q) (fun t : τ × σ ↦ tokens t.1 ++ tokens' t.2) (fun t ↦ value' t.1 t.2)
      follow' where
  sound := by
    intro c b c'' hc h
    rw [bind_apply] at h
    split at h
    · next a c' hpc =>
      obtain ⟨t, rfl, ht⟩ := hp.sound hc hpc
      obtain ⟨s, rfl, hs⟩ := (hq t).sound (ht.ends hc) h
      exact ⟨(t, s), rfl, passes_append_iff.2 ⟨c', ht, hs⟩⟩
    · cases h
  complete := by
    intro c t c'' hc h hlast
    obtain ⟨c', ht, hs⟩ := passes_append_iff.1 h
    rw [bind_apply, hp.complete hc ht (hfollow t.2 hs)]
    exact (hq t.1).complete (ht.ends hc) hs hlast

/-- One part behind another that ends by itself. -/
theorem Reads.bind {q : α → Read β} {tokens' : σ → List Token} {value' : τ → σ → β}
    {follow' : Token.Kind → Prop} (hp : Reads p tokens value anything)
    (hq : ∀ t, Reads (q (value t)) tokens' (value' t) follow') :
    Reads (p >>= q) (fun t : τ × σ ↦ tokens t.1 ++ tokens' t.2) (fun t ↦ value' t.1 t.2) follow' :=
  hp.bindFollowed hq fun _ _ _ _ ↦ trivial

/-- A part whose value is used. -/
theorem Reads.map {f : α → β} (hp : Reads p tokens value follow) :
    Reads (p >>= fun a ↦ pure (f a)) tokens (fun t ↦ f (value t)) follow where
  sound := by
    intro c b c' hc h
    rw [bind_apply] at h
    split at h
    · next a c₁ hpc =>
      obtain ⟨t, rfl, ht⟩ := hp.sound hc hpc
      cases h
      exact ⟨t, rfl, ht⟩
    · cases h
  complete := by
    intro c t c' hc ht hfollow
    rw [bind_apply, hp.complete hc ht hfollow]
    rfl

/-- A part whose value is used with the place of its last token. -/
theorem Reads.mapPlace {f : α → Span → β} {last : τ → Span} (hp : Reads p tokens value follow)
    (hlast : Stops tokens last) :
    Reads (p >>= fun a ↦ previous >>= fun s ↦ pure (f a s)) tokens
      (fun t ↦ f (value t) (last t)) follow where
  sound := by
    intro c b c' hc h
    rw [bind_apply] at h
    split at h
    · next a c₁ hpc =>
      obtain ⟨t, rfl, ht⟩ := hp.sound hc hpc
      cases h
      exact ⟨t, by rw [ht.previous_of_stops hlast], ht⟩
    · cases h
  complete := by
    intro c t c' hc ht hfollow
    rw [bind_apply, hp.complete hc ht hfollow, ← ht.previous_of_stops hlast]
    rfl

/-- A part that one token makes unnecessary. -/
theorem Reads.orToken {kind : Token.Kind} {a : α} (hp : Reads p tokens value anything)
    (hkind : kind ≠ .eof) (hstart : Starts tokens (· ≠ kind)) :
    Reads (eat kind >>= fun short ↦ if short then pure a else p)
      (Sum.elim (fun s ↦ [⟨kind, s⟩]) tokens) (Sum.elim (fun _ ↦ a) value) anything where
  sound := by
    intro c b c' hc h
    rw [bind_apply, eat] at h
    split at h
    · next short c₁ heat =>
      split at heat
      · next hpeek =>
        cases heat
        cases h
        exact ⟨.inl c.span, rfl, passes_of_peek hc hkind hpeek⟩
      · cases heat
        obtain ⟨t, ht⟩ := hp.sound hc h
        exact ⟨.inr t, ht⟩
    · next heat => split at heat <;> cases heat
  complete := by
    rintro c (s | t) c' hc h -
    · replace h : c.Passes [⟨kind, s⟩] c' := h
      rw [bind_apply, eat, if_pos h.peek_eq, h.advance_eq]
      rfl
    · replace h : c.Passes (tokens t) c' := h
      rw [bind_apply, eat, if_neg (h.peek_of_starts hstart)]
      exact hp.complete hc h trivial

/-- A part as often as it comes. -/
theorem Reads.repeatWhile (go : Token.Kind → Bool) (hconsumes : Consumes p)
    (hp : Reads p tokens value anything) (hstart : Starts tokens (go ·)) :
    Reads (repeatWhile (fun c ↦ go c.peek) p hconsumes) (fun ts : List τ ↦ ts.flatMap tokens)
      (fun ts ↦ ts.map value) fun kind ↦ go kind = false where
  sound := by
    intro c as c' hc h
    fun_induction Read.repeatWhile (fun c ↦ go c.peek) p hconsumes c generalizing as c' with
    | case1 => cases h
    | case2 => cases h
    | case3 c _ a c₁ hpc as' c₂ hrest ih =>
      cases h
      obtain ⟨t, rfl, ht⟩ := hp.sound hc hpc
      obtain ⟨ts, rfl, hts⟩ := ih (ht.ends hc) hrest
      exact ⟨t :: ts, rfl, passes_append_iff.2 ⟨c₁, ht, hts⟩⟩
    | case4 c hgo =>
      cases h
      exact ⟨[], rfl, passes_nil_iff.2 rfl⟩
  complete := by
    intro c ts c' hc hts hend
    -- The loop takes one tree a round; only behind the last one is there a token that stops it.
    induction ts generalizing c with
    | nil =>
      obtain rfl := passes_nil_iff.1 hts
      rw [Read.repeatWhile, if_neg (by simp [hend])]
      rfl
    | cons t ts ih =>
      obtain ⟨c₁, ht, hts⟩ := passes_append_iff.1 hts
      have hfirst := hp.complete hc ht trivial
      have hothers := ih (ht.ends hc) hts
      rw [Read.repeatWhile, if_pos (ht.peek_of_starts hstart)]
      split
      · next f hf => simp [hf] at hfirst
      · next a c₂ hfc =>
        rw [hfc] at hfirst
        cases hfirst
        rw [hothers]
        rfl

end

/-! ## Single tokens -/

theorem reads_expect (kind : Token.Kind) (hkind : kind ≠ .eof) :
    Reads (expect kind) (fun s ↦ [⟨kind, s⟩]) id anything where
  sound := by
    intro c s c' hc h
    unfold expect at h
    split at h
    · next hpeek =>
      cases h
      exact ⟨c.span, rfl, passes_of_peek hc hkind hpeek⟩
    · cases h
  complete := by
    intro c s c' _ hs _
    rw [expect, if_pos hs.peek_eq, hs.advance_eq, hs.span_eq]
    rfl

theorem reads_word : Reads word (fun i ↦ [wordToken i]) id anything where
  sound := by
    intro c i c' hc h
    unfold word at h
    split at h
    · next name hpeek =>
      cases h
      exact ⟨⟨name, c.span⟩, rfl, passes_of_peek hc (by simp) hpeek⟩
    · cases h
  complete := by
    intro c i c' _ hi _
    rw [word, hi.peek_eq, hi.advance_eq, hi.span_eq]
    rfl

theorem reads_identifier :
    Reads identifier (fun n : Name ↦ [wordToken n.ident]) Name.ident anything where
  sound := by
    intro c i c' hc h
    unfold identifier at h
    split at h
    · cases h
    · next ident c₁ hword =>
      split at h
      · next hident =>
        cases h
        obtain ⟨t, rfl, ht⟩ := reads_word.sound hc hword
        exact ⟨⟨t, hident⟩, rfl, ht⟩
      · cases h
  complete := by
    intro c n c' hc hn _
    have hword : word c = .ok (n.ident, c') := reads_word.complete hc hn trivial
    simp only [identifier, hword, n.isIdentifier, if_true]

theorem reads_optionValue :
    Reads optionValue (fun v : Grammar.Value ↦ [v.token]) Grammar.Value.text anything where
  sound := by
    intro c text c' hc h
    unfold optionValue at h
    split at h
    · next value hpeek =>
      cases h
      exact ⟨.string text c.span, rfl, passes_of_peek hc (by simp) hpeek⟩
    · next value hpeek =>
      cases h
      exact ⟨.word text c.span, rfl, passes_of_peek hc (by simp) hpeek⟩
    · cases h
  complete := by
    intro c v c' _ hv _
    rw [optionValue, hv.peek_eq, hv.advance_eq]
    cases v <;> rfl

/-! ## Lists and edges -/

/-- A comma behind a list of names would be part of it. -/
theorem reads_identifiers :
    Reads identifiers Names.tokens Names.idents fun kind ↦ (kind == .comma) = false := by
  have hcomma : Reads commaIdentifier commaTokens (·.2.ident) anything :=
    ((reads_expect .comma (by decide)).bind fun _ ↦ reads_identifier).along id
      (fun t ↦ ⟨t, rfl⟩) (fun _ ↦ rfl) fun _ ↦ rfl
  have hothers := hcomma.repeatWhile (· == .comma) consumes_commaIdentifier
    fun _ ↦ ⟨_, _, rfl, rfl⟩
  exact (reads_identifier.bind fun _ ↦ hothers.map).along (fun t ↦ ⟨t.1, t.2⟩)
    (fun ns ↦ ⟨(ns.first, ns.others), rfl⟩) (fun _ ↦ rfl) fun _ ↦ rfl

theorem reads_hooks : Reads hooks Line.tokens Line.idents anything :=
  (reads_identifiers.bindFollowed (fun _ ↦ (reads_expect .semicolon (by decide)).map)
    fun _ _ _ h ↦ by rw [h.peek_eq]; rfl).along (fun t ↦ ⟨t.1, t.2⟩)
    (fun l ↦ ⟨(l.names, l.semicolon), rfl⟩) (fun _ ↦ rfl) fun _ ↦ rfl

theorem reads_edgeGuards : Reads edgeGuards GuardLine.tokens (·.line.idents) anything :=
  ((reads_expect (.keyword .precondition) (by decide)).bind fun _ ↦ reads_hooks).along
    (fun t ↦ ⟨t.1, t.2⟩) (fun g ↦ ⟨(g.keyword, g.line), rfl⟩) (fun _ ↦ rfl) fun _ ↦ rfl

/-- A block goes on at every token but its closing brace and the end of the text. -/
def blockGoesOn (kind : Token.Kind) : Bool := kind != .rightBrace && !(kind == .eof)

theorem blockGoesOn_of_isKeyword {kind : Token.Kind} (h : kind.isKeyword) : blockGoesOn kind := by
  cases kind with
  | keyword k => rfl
  | _ => cases h

/-- The two forms of a body. -/
def bodyOf {ε : Type} : Span ⊕ Span × List ε × Span → Body ε
  | .inl s => .semicolon s
  | .inr (left, entries, right) => .block left entries right

theorem bodyOf_surjective {ε : Type} (b : Body ε) : ∃ t, bodyOf t = b := by
  cases b with
  | semicolon s => exact ⟨.inl s, rfl⟩
  | block left entries right => exact ⟨.inr (left, entries, right), rfl⟩

theorem reads_edgeEnd : Reads edgeEnd (Body.tokens GuardLine.tokens) Body.guards anything := by
  have hguards := reads_edgeGuards.repeatWhile blockGoesOn consumes_edgeGuards
    fun g ↦ ⟨_, _, rfl, rfl⟩
  have hblock : Reads edgeEnd _ _ anything :=
    ((reads_expect .leftBrace (by decide)).bind fun _ ↦
      hguards.bindFollowed (fun _ ↦ (reads_expect .rightBrace (by decide)).map)
        fun _ _ _ h ↦ by rw [h.peek_eq]; rfl).orToken (by decide)
      fun t ↦ ⟨_, _, rfl, by simp⟩
  refine hblock.along bodyOf bodyOf_surjective ?_ ?_
  · rintro (s | ⟨left, guards, right⟩) <;> rfl
  · rintro (s | ⟨left, guards, right⟩) <;> rfl

/-- No body starts with a comma. -/
private theorem ne_comma_of_body {ε : Type} {entryTokens : ε → List Token} {b : Body ε}
    {c c' : Cursor} (h : c.Passes (b.tokens entryTokens) c') : (c.peek == .comma) = false := by
  rcases h.peek_of_starts (starts_body entryTokens) with hpeek | hpeek <;> rw [hpeek] <;> rfl

theorem reads_nextState (start : Span) :
    Reads (nextState start)
      (fun t : Names × Body GuardLine ↦ t.1.tokens ++ t.2.tokens GuardLine.tokens)
      (fun t ↦ .nextState ⟨t.1.idents, t.2.guards, start.cover t.2.last⟩) anything :=
  (reads_identifiers.bindFollowed (fun _ ↦ reads_edgeEnd.mapPlace (stops_body _))
    fun _ _ _ h ↦ ne_comma_of_body h).along id (fun t ↦ ⟨t, rfl⟩) (fun _ ↦ rfl) fun _ ↦ rfl

theorem reads_onEvent (start : Span) :
    Reads (onEvent start)
      (fun t : Name × Span × Name × Body GuardLine ↦
        [wordToken t.1.ident, ⟨.arrow, t.2.1⟩, wordToken t.2.2.1.ident] ++
          t.2.2.2.tokens GuardLine.tokens)
      (fun t ↦ .onEvent t.1.ident
        ⟨[t.2.2.1.ident], t.2.2.2.guards, start.cover t.2.2.2.last⟩) anything :=
  (reads_identifier.bind fun _ ↦ (reads_expect .arrow (by decide)).bind fun _ ↦
    reads_identifier.bind fun _ ↦ reads_edgeEnd.mapPlace (stops_body _)).along id
    (fun t ↦ ⟨t, rfl⟩) (fun _ ↦ rfl) fun _ ↦ rfl

/-! ## Entries of a block -/

/-- An entry is read if its keyword is known and the rest is read behind it. -/
theorem dispatch_eq_ok_iff {rest : Token.Kind → Option (Span → Read α)}
    {otherwise : Token.Kind → Mistake} (hrest : rest .eof = none) {c c' : Cursor} (hc : c.Ends)
    {a : α} :
    dispatch rest otherwise c = .ok (a, c') ↔
      ∃ kind s p c₁, rest kind = some p ∧ c.Passes [⟨kind, s⟩] c₁ ∧ p s c₁ = .ok (a, c') := by
  unfold dispatch
  constructor
  · intro h
    split at h
    · next p hp =>
      have hkind : c.peek ≠ .eof := by
        intro heof
        rw [heof, hrest] at hp
        cases hp
      exact ⟨c.peek, c.span, p, c.advance, hp, passes_of_peek hc hkind rfl, h⟩
    · cases h
  · rintro ⟨kind, s, p, c₁, hp, hpass, h⟩
    rw [hpass.peek_eq, hpass.span_eq, hpass.advance_eq]
    simp only [hp, h]

theorem reads_stateEntry : Reads stateEntry Entry.tokens Entry.toStateEntry anything where
  sound := by
    intro c a c' hc h
    obtain ⟨kind, s, p, c₁, hp, hkeyword, h⟩ := (dispatch_eq_ok_iff rfl hc).1 h
    have hc₁ := hkeyword.ends hc
    have hhooks (k : HookKind) (hkeyword : c.Passes [keywordToken k.keyword s] c₁)
        (h : (do return k.entry (← hooks) : Read StateEntry) c₁ = .ok (a, c')) :
        ∃ t : Entry, t.toStateEntry = a ∧ c.Passes t.tokens c' := by
      obtain ⟨line, rfl, hline⟩ := reads_hooks.map.sound hc₁ h
      exact ⟨.hooks k s line, rfl, passes_cons_iff.2 ⟨c₁, hkeyword, hline⟩⟩
    unfold stateEntryRest at hp
    split at hp <;> cases hp
    · exact hhooks .entryPrecondition hkeyword h
    · exact hhooks .exitPrecondition hkeyword h
    · exact hhooks .onEnter hkeyword h
    · exact hhooks .onExit hkeyword h
    · obtain ⟨⟨targets, body⟩, rfl, hrest⟩ := (reads_nextState s).sound hc₁ h
      exact ⟨.nextState s targets body, rfl, passes_cons_iff.2 ⟨c₁, hkeyword, hrest⟩⟩
    · obtain ⟨⟨event, arrow, target, body⟩, rfl, hrest⟩ := (reads_onEvent s).sound hc₁ h
      exact ⟨.onEvent s event arrow target body, rfl, passes_cons_iff.2 ⟨c₁, hkeyword, hrest⟩⟩
  complete := by
    intro c t c' hc ht _
    refine (dispatch_eq_ok_iff rfl hc).2 ?_
    cases t with
    | hooks kind s line =>
      obtain ⟨c₁, hkeyword, hline⟩ := passes_cons_iff.1 ht
      have h := (reads_hooks.map (f := kind.entry)).complete (hkeyword.ends hc) hline trivial
      cases kind <;> exact ⟨_, s, _, c₁, rfl, hkeyword, h⟩
    | nextState s targets body =>
      obtain ⟨c₁, hkeyword, hrest⟩ := passes_cons_iff.1 ht
      have h := (reads_nextState s).complete (t := (targets, body)) (hkeyword.ends hc) hrest trivial
      exact ⟨_, s, _, c₁, rfl, hkeyword, h⟩
    | onEvent s event arrow target body =>
      obtain ⟨c₁, hkeyword, hrest⟩ := passes_cons_iff.1 ht
      have h := (reads_onEvent s).complete (t := (event, arrow, target, body)) (hkeyword.ends hc)
        hrest trivial
      exact ⟨_, s, _, c₁, rfl, hkeyword, h⟩

/-- The hooks of a line in the block of an event. -/
def eventHooksOf : EventLine → EventHooks
  | .precondition _ line => .preconditions line.idents
  | .callback _ line => .callbacks line.idents

theorem reads_eventHooks : Reads eventHooks EventLine.tokens eventHooksOf anything where
  sound := by
    intro c a c' hc h
    obtain ⟨kind, s, p, c₁, hp, hkeyword, h⟩ := (dispatch_eq_ok_iff rfl hc).1 h
    unfold eventHooksRest at hp
    split at hp <;> cases hp
    · obtain ⟨line, rfl, hline⟩ := reads_hooks.map.sound (hkeyword.ends hc) h
      exact ⟨.precondition s line, rfl, passes_cons_iff.2 ⟨c₁, hkeyword, hline⟩⟩
    · obtain ⟨line, rfl, hline⟩ := reads_hooks.map.sound (hkeyword.ends hc) h
      exact ⟨.callback s line, rfl, passes_cons_iff.2 ⟨c₁, hkeyword, hline⟩⟩
  complete := by
    intro c t c' hc ht _
    refine (dispatch_eq_ok_iff rfl hc).2 ?_
    cases t <;>
    · obtain ⟨c₁, hkeyword, hline⟩ := passes_cons_iff.1 ht
      exact ⟨_, _, _, c₁, rfl, hkeyword,
        reads_hooks.map.complete (hkeyword.ends hc) hline trivial⟩

/-! ## Items without blocks -/

theorem reads_optionItem (start : Span) :
    Reads (optionItem start)
      (fun t : Ident × Grammar.Value × Span ↦ [wordToken t.1, t.2.1.token, ⟨.semicolon, t.2.2⟩])
      (fun t ↦ ⟨t.1, t.2.1.text, start.cover t.2.2⟩) anything :=
  (reads_word.bind fun _ ↦ reads_optionValue.bind fun _ ↦
    (reads_expect .semicolon (by decide)).mapPlace fun _ ↦ ⟨[], _, rfl⟩).along id
    (fun t ↦ ⟨t, rfl⟩) (fun _ ↦ rfl) fun _ ↦ rfl

theorem reads_initialItem (start : Span) :
    Reads (initialItem start) Line.tokens (fun l ↦ ⟨l.idents, start.cover l.semicolon⟩) anything :=
  (reads_identifiers.bindFollowed
    (fun _ ↦ (reads_expect .semicolon (by decide)).mapPlace fun _ ↦ ⟨[], _, rfl⟩)
    fun _ _ _ h ↦ by rw [h.peek_eq]; rfl).along (fun t ↦ ⟨t.1, t.2⟩)
    (fun l ↦ ⟨(l.names, l.semicolon), rfl⟩) (fun _ ↦ rfl) fun _ ↦ rfl

/-- A mark behind the head of a state would be part of it. -/
theorem reads_stateHead :
    Reads stateHead (fun t : Name × Option Span ↦ wordToken t.1.ident :: markTokens t.2)
      (fun t ↦ (t.1.ident, t.2.isSome)) (· ≠ .keyword .initial) := by
  have hmark : Reads (eat (.keyword .initial)) markTokens Option.isSome
      (· ≠ .keyword .initial) := by
    constructor
    · intro c marked c' hc h
      unfold eat at h
      split at h <;> cases h
      · next hpeek => exact ⟨some c.span, rfl, passes_of_peek hc (by simp) hpeek⟩
      · exact ⟨none, rfl, passes_nil_iff.2 rfl⟩
    · intro c mark c' hc h hfollow
      cases mark with
      | none =>
        obtain rfl := passes_nil_iff.1 h
        rw [eat, if_neg hfollow]
        rfl
      | some s =>
        replace h : c.Passes [⟨.keyword .initial, s⟩] c' := h
        rw [eat, if_pos h.peek_eq, h.advance_eq]
        rfl
  exact (reads_identifier.bind fun _ ↦ hmark.map).along id (fun t ↦ ⟨t, rfl⟩) (fun _ ↦ rfl)
    fun _ ↦ rfl

end Read

end StateGen.Description
