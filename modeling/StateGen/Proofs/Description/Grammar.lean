import StateGen.Description.Parser

/-!
# The grammar of descriptions

Derivations of the grammar as trees. A tree keeps the place of every token, so that its `tokens` are
exactly those that it derives; the description that it stands for keeps only the names and the
places of whole items. The grammar is unambiguous: different trees derive different tokens.
-/

namespace StateGen.Description

namespace Grammar

/-! ## Derivations -/

/-- A name `ident`: a word that is a C identifier. -/
structure Name where
  ident : Ident
  isIdentifier : Text.isIdentifier ident.name

/-- Names `idents := ident (, ident)*`, with the place of every comma. -/
structure Names where
  first : Name
  others : List (Span × Name)

/-- Names and a semicolon, `idents ;`. -/
structure Line where
  names : Names
  semicolon : Span

/-- A semicolon, or entries between braces. -/
inductive Body (ε : Type) where
  | semicolon (span : Span)
  | block (left : Span) (entries : List ε) (right : Span)

/-- The guards `precondition idents ;` in the block of an edge. -/
structure GuardLine where
  keyword : Span
  line : Line

/-- The hooks of a state. -/
inductive HookKind where
  | entryPrecondition
  | exitPrecondition
  | onEnter
  | onExit

/-- An entry in the block of a state. -/
inductive Entry where
  /-- A keyword and `idents ;`. -/
  | hooks (kind : HookKind) (keyword : Span) (line : Line)
  /-- Direct edges `next-state idents` with `;` or a block of guards. -/
  | nextState (keyword : Span) (targets : Names) (body : Body GuardLine)
  /-- An edge `on ident -> ident` with `;` or a block of guards. -/
  | onEvent (keyword : Span) (event : Name) (arrow : Span) (target : Name) (body : Body GuardLine)

/-- An entry in the block of an event. -/
inductive EventLine where
  /-- Guards `precondition idents ;`. -/
  | precondition (keyword : Span) (line : Line)
  /-- Callbacks `callback idents ;`. -/
  | callback (keyword : Span) (line : Line)

/-- The value of an option. -/
inductive Value where
  | string (value : String) (span : Span)
  | word (value : String) (span : Span)

/-- An item. -/
inductive Item where
  /-- An option `option name (string | name) ;`. -/
  | option (keyword : Span) (key : Ident) (value : Value) (semicolon : Span)
  /-- Initial states `initial-state idents ;`. -/
  | initial (keyword : Span) (states : Line)
  /-- An event `event ident` with `;` or a block of hooks. -/
  | event (keyword : Span) (name : Name) (body : Body EventLine)
  /-- A state `state ident [initial]` with `;` or a block of entries. -/
  | state (keyword : Span) (name : Name) (mark : Option Span) (body : Body Entry)

/-! ## The tokens of a derivation -/

/-- A word. -/
def wordToken (i : Ident) : Token := ⟨.word i.name, i.span⟩

/-- A keyword. -/
def keywordToken (k : Keyword) (s : Span) : Token := ⟨.keyword k, s⟩

/-- A comma and the identifier behind it. -/
def commaTokens (n : Span × Name) : List Token := [⟨.comma, n.1⟩, wordToken n.2.ident]

def Names.tokens (ns : Names) : List Token :=
  wordToken ns.first.ident :: ns.others.flatMap commaTokens

def Line.tokens (l : Line) : List Token := l.names.tokens ++ [⟨.semicolon, l.semicolon⟩]

/-- The tokens of a body, given those of its entries. -/
def Body.tokens {ε : Type} (entryTokens : ε → List Token) : Body ε → List Token
  | .semicolon s => [⟨.semicolon, s⟩]
  | .block left entries right =>
    ⟨.leftBrace, left⟩ :: entries.flatMap entryTokens ++ [⟨.rightBrace, right⟩]

def GuardLine.tokens (g : GuardLine) : List Token :=
  keywordToken .precondition g.keyword :: g.line.tokens

/-- The keyword in front of hooks. -/
def HookKind.keyword : HookKind → Keyword
  | .entryPrecondition => .entryPrecondition
  | .exitPrecondition => .exitPrecondition
  | .onEnter => .onEnter
  | .onExit => .onExit

def Entry.tokens : Entry → List Token
  | .hooks kind keyword line => keywordToken kind.keyword keyword :: line.tokens
  | .nextState keyword targets body =>
    keywordToken .nextState keyword :: targets.tokens ++ body.tokens GuardLine.tokens
  | .onEvent keyword event arrow target body =>
    [keywordToken .on keyword, wordToken event.ident, ⟨.arrow, arrow⟩, wordToken target.ident]
      ++ body.tokens GuardLine.tokens

def EventLine.tokens : EventLine → List Token
  | .precondition keyword line => keywordToken .precondition keyword :: line.tokens
  | .callback keyword line => keywordToken .callback keyword :: line.tokens

def Value.token : Value → Token
  | .string value s => ⟨.string value, s⟩
  | .word value s => ⟨.word value, s⟩

/-- The mark of an initial state. -/
def markTokens (mark : Option Span) : List Token := mark.toList.map (keywordToken .initial)

def Item.tokens : Item → List Token
  | .option keyword key value semicolon =>
    [keywordToken .option keyword, wordToken key, value.token, ⟨.semicolon, semicolon⟩]
  | .initial keyword states => keywordToken .initialState keyword :: states.tokens
  | .event keyword name body =>
    keywordToken .event keyword :: wordToken name.ident :: body.tokens EventLine.tokens
  | .state keyword name mark body =>
    keywordToken .state keyword :: wordToken name.ident ::
      (markTokens mark ++ body.tokens Entry.tokens)

/-! ## The description of a derivation -/

/-- The identifiers in their order. -/
def Names.idents (ns : Names) : List Ident := ns.first.ident :: ns.others.map (·.2.ident)

def Line.idents (l : Line) : List Ident := l.names.idents

def Body.entries {ε : Type} : Body ε → List ε
  | .semicolon _ => []
  | .block _ entries _ => entries

/-- Where the last token of a body stands. -/
def Body.last {ε : Type} : Body ε → Span
  | .semicolon s => s
  | .block _ _ right => right

/-- The guards of an edge. -/
def Body.guards (b : Body GuardLine) : List Ident := b.entries.flatMap (·.line.idents)

/-- The entry that holds hooks. -/
def HookKind.entry : HookKind → List Ident → StateEntry
  | .entryPrecondition => .entryPrecondition
  | .exitPrecondition => .exitPrecondition
  | .onEnter => .onEnter
  | .onExit => .onExit

def Entry.toStateEntry : Entry → StateEntry
  | .hooks kind _ line => kind.entry line.idents
  | .nextState keyword targets body =>
    .nextState ⟨targets.idents, body.guards, keyword.cover body.last⟩
  | .onEvent keyword event _ target body =>
    .onEvent event.ident ⟨[target.ident], body.guards, keyword.cover body.last⟩

/-- The guards of a line. -/
def EventLine.preconditions : EventLine → List Ident
  | .precondition _ line => line.idents
  | .callback _ _ => []

/-- The callbacks of a line. -/
def EventLine.callbacks : EventLine → List Ident
  | .precondition _ _ => []
  | .callback _ line => line.idents

def Value.text : Value → String
  | .string value _ | .word value _ => value

def Item.toItem : Item → Description.Item
  | .option keyword key value semicolon => .option ⟨key, value.text, keyword.cover semicolon⟩
  | .initial keyword states => .initial ⟨states.idents, keyword.cover states.semicolon⟩
  | .event keyword name body =>
    .event
      ⟨name.ident, body.entries.flatMap EventLine.preconditions,
        body.entries.flatMap EventLine.callbacks, keyword.cover body.last⟩
  | .state keyword name mark body =>
    .state ⟨name.ident, mark.isSome, body.entries.map Entry.toStateEntry, keyword.cover body.last⟩

end Grammar

/-- A whole description, `item*`. -/
abbrev Derivation := List Grammar.Item

namespace Derivation

def tokens (items : Derivation) : List Token := items.flatMap Grammar.Item.tokens

/-- The description that a derivation stands for, where `finish` is the end of the text. -/
def description (finish : Token) (items : Derivation) : Description where
  items := items.map Grammar.Item.toItem
  span :=
    (items.tokens.head?.getD finish).span.cover
      ((items.tokens.getLast?.map Token.span).getD (.point .start))

end Derivation

/-! ## First and last tokens -/

namespace Grammar

/-- The first token of every tree is of a kind in `first`. -/
def Starts {τ : Type} (tokens : τ → List Token) (first : Token.Kind → Prop) : Prop :=
  ∀ t, ∃ tok ts, tokens t = tok :: ts ∧ first tok.kind

/-- The last token of every tree stands at `last`. -/
def Stops {τ : Type} (tokens : τ → List Token) (last : τ → Span) : Prop :=
  ∀ t, ∃ ts kind, tokens t = ts ++ [⟨kind, last t⟩]

theorem starts_guardLine : Starts GuardLine.tokens (·.isKeyword) := fun _ ↦ ⟨_, _, rfl, rfl⟩

theorem starts_entry : Starts Entry.tokens (·.isKeyword) := by
  intro e
  cases e <;> exact ⟨_, _, rfl, rfl⟩

theorem starts_eventLine : Starts EventLine.tokens (·.isKeyword) := by
  intro e
  cases e <;> exact ⟨_, _, rfl, rfl⟩

theorem starts_item : Starts Item.tokens (·.isKeyword) := by
  intro i
  cases i <;> exact ⟨_, _, rfl, rfl⟩

theorem starts_body {ε : Type} (entryTokens : ε → List Token) :
    Starts (Body.tokens entryTokens) fun kind ↦ kind = .semicolon ∨ kind = .leftBrace := by
  intro b
  cases b
  · exact ⟨_, _, rfl, .inl rfl⟩
  · exact ⟨_, _, rfl, .inr rfl⟩

theorem stops_body {ε : Type} (entryTokens : ε → List Token) :
    Stops (Body.tokens entryTokens) Body.last := by
  intro b
  cases b with
  | semicolon s => exact ⟨[], _, rfl⟩
  | block left entries right => exact ⟨_, _, rfl⟩

/-! ## Unambiguity -/

section

variable {τ : Type}

/-- Different trees never derive starts of the same tokens, if what comes behind each of them
satisfies `follow`. -/
def Unambiguous (tokens : τ → List Token) (follow : List Token → Prop) : Prop :=
  ∀ ⦃a b r s⦄, tokens a ++ r = tokens b ++ s → follow r → follow s → a = b ∧ r = s

/-- Trees that are unambiguous whatever follows. -/
abbrev SelfDelimiting (tokens : τ → List Token) : Prop := Unambiguous tokens fun _ ↦ True

/-- A repetition is unambiguous if it is clear where it ends. -/
theorem SelfDelimiting.flatMap {tokens : τ → List Token} (h : SelfDelimiting tokens)
    {stop : List Token → Prop} (hstop : ∀ a r, ¬ stop (tokens a ++ r)) :
    Unambiguous (fun as : List τ ↦ as.flatMap tokens) stop := by
  intro as
  -- Where one list has ended and the other goes on, the same tokens would both stop and go on.
  induction as with
  | nil =>
    intro bs r s heq hr hs
    cases bs with
    | nil => exact ⟨rfl, heq⟩
    | cons b bs =>
      simp only [List.flatMap_nil, List.nil_append, List.flatMap_cons, List.append_assoc] at heq
      exact absurd (heq ▸ hr) (hstop b _)
  | cons a as ih =>
    intro bs r s heq hr hs
    cases bs with
    | nil =>
      simp only [List.flatMap_nil, List.nil_append, List.flatMap_cons, List.append_assoc] at heq
      exact absurd (heq ▸ hs) (hstop a _)
    | cons b bs =>
      simp only [List.flatMap_cons, List.append_assoc] at heq
      obtain ⟨rfl, hrest⟩ := h heq trivial trivial
      obtain ⟨rfl, rfl⟩ := ih hrest hr hs
      exact ⟨rfl, rfl⟩

end

private theorem wordToken_inj {i j : Ident} : wordToken i = wordToken j ↔ i = j := by
  cases i
  cases j
  simp [wordToken]

private theorem keywordToken_inj {k l : Keyword} {s t : Span} :
    keywordToken k s = keywordToken l t ↔ k = l ∧ s = t := by
  simp [keywordToken]

theorem Name.ext {m n : Name} (h : m.ident = n.ident) : m = n := by
  cases m
  cases n
  cases h
  rfl

private theorem selfDelimiting_commaTokens : SelfDelimiting commaTokens := by
  rintro ⟨s, m⟩ ⟨t, n⟩ r r' h - -
  simp only [commaTokens, List.cons_append, List.nil_append, List.cons.injEq, Token.mk.injEq,
    true_and, wordToken_inj] at h
  obtain ⟨rfl, hname, rfl⟩ := h
  rw [Name.ext hname]
  exact ⟨rfl, rfl⟩

/-- What comes next is no comma. -/
def NoComma (r : List Token) : Prop := ∀ t ∈ r.head?, t.kind ≠ .comma

private theorem unambiguous_names : Unambiguous Names.tokens NoComma := by
  rintro ⟨m, ms⟩ ⟨n, ns⟩ r s h hr hs
  simp only [Names.tokens, List.cons_append, List.cons.injEq, wordToken_inj] at h
  obtain ⟨hfirst, hothers⟩ := h
  obtain ⟨rfl, rfl⟩ := selfDelimiting_commaTokens.flatMap
    (by intro n r h; exact h _ rfl rfl) hothers hr hs
  rw [Name.ext hfirst]
  exact ⟨rfl, rfl⟩

private theorem selfDelimiting_line : SelfDelimiting Line.tokens := by
  rintro ⟨ms, s⟩ ⟨ns, t⟩ r r' h - -
  simp only [Line.tokens, List.append_assoc] at h
  obtain ⟨rfl, hend⟩ := unambiguous_names h (by simp [NoComma]) (by simp [NoComma])
  simp only [List.cons_append, List.nil_append, List.cons.injEq, Token.mk.injEq, true_and] at hend
  obtain ⟨rfl, rfl⟩ := hend
  exact ⟨rfl, rfl⟩

/-- A body is unambiguous if its entries are and start with keywords. -/
private theorem selfDelimiting_body {ε : Type} {entryTokens : ε → List Token}
    (h : SelfDelimiting entryTokens) (hstart : Starts entryTokens (·.isKeyword)) :
    SelfDelimiting (Body.tokens entryTokens) := by
  have hentries : Unambiguous (fun es : List ε ↦ es.flatMap entryTokens)
      fun r ↦ ∃ t ∈ r.head?, t.kind = .rightBrace := by
    apply h.flatMap
    rintro e r ⟨t, ht, hkind⟩
    obtain ⟨tok, ts, heq, hkeyword⟩ := hstart e
    rw [heq] at ht
    cases ht
    rw [hkind] at hkeyword
    cases hkeyword
  rintro a b r r' heq - -
  cases a <;> cases b <;>
    simp only [Body.tokens, List.cons_append, List.nil_append, List.append_assoc, List.cons.injEq,
      Token.mk.injEq, true_and, reduceCtorEq, false_and] at heq
  case semicolon.semicolon =>
    obtain ⟨rfl, rfl⟩ := heq
    exact ⟨rfl, rfl⟩
  case block.block =>
    obtain ⟨rfl, heq⟩ := heq
    obtain ⟨rfl, hend⟩ := hentries heq ⟨_, rfl, rfl⟩ ⟨_, rfl, rfl⟩
    simp only [List.cons.injEq, Token.mk.injEq, true_and] at hend
    obtain ⟨rfl, rfl⟩ := hend
    exact ⟨rfl, rfl⟩

private theorem selfDelimiting_guardLine : SelfDelimiting GuardLine.tokens := by
  rintro ⟨s, l⟩ ⟨t, m⟩ r r' h - -
  simp only [GuardLine.tokens, List.cons_append, List.cons.injEq, keywordToken_inj, true_and] at h
  obtain ⟨rfl, hline⟩ := h
  obtain ⟨rfl, rfl⟩ := selfDelimiting_line hline trivial trivial
  exact ⟨rfl, rfl⟩

private theorem selfDelimiting_guards : SelfDelimiting (Body.tokens GuardLine.tokens) :=
  selfDelimiting_body selfDelimiting_guardLine starts_guardLine

private theorem noComma_body {ε : Type} (entryTokens : ε → List Token) (b : Body ε)
    (r : List Token) : NoComma (b.tokens entryTokens ++ r) := by
  cases b <;> simp [Body.tokens, NoComma]

private theorem HookKind.keyword_inj {k l : HookKind} (h : k.keyword = l.keyword) : k = l := by
  cases k <;> cases l <;> simp_all [HookKind.keyword]

private theorem selfDelimiting_entry : SelfDelimiting Entry.tokens := by
  rintro a b r r' h - -
  cases a with
  | hooks kind keyword line =>
    cases b with
    | hooks kind' keyword' line' =>
      simp only [Entry.tokens, List.cons_append, List.cons.injEq, keywordToken_inj] at h
      obtain ⟨⟨hkind, rfl⟩, hline⟩ := h
      obtain ⟨rfl, rfl⟩ := selfDelimiting_line hline trivial trivial
      rw [HookKind.keyword_inj hkind]
      exact ⟨rfl, rfl⟩
    | nextState | onEvent =>
      cases kind <;> simp [Entry.tokens, keywordToken_inj, HookKind.keyword] at h
  | nextState keyword targets body =>
    cases b with
    | hooks kind => cases kind <;> simp [Entry.tokens, keywordToken_inj, HookKind.keyword] at h
    | nextState keyword' targets' body' =>
      simp only [Entry.tokens, List.cons_append, List.append_assoc, List.cons.injEq,
        keywordToken_inj, true_and] at h
      obtain ⟨rfl, h⟩ := h
      obtain ⟨rfl, hbody⟩ := unambiguous_names h (noComma_body _ _ _) (noComma_body _ _ _)
      obtain ⟨rfl, rfl⟩ := selfDelimiting_guards hbody trivial trivial
      exact ⟨rfl, rfl⟩
    | onEvent => simp [Entry.tokens, keywordToken_inj] at h
  | onEvent keyword event arrow target body =>
    cases b with
    | hooks kind => cases kind <;> simp [Entry.tokens, keywordToken_inj, HookKind.keyword] at h
    | nextState => simp [Entry.tokens, keywordToken_inj] at h
    | onEvent keyword' event' arrow' target' body' =>
      simp only [Entry.tokens, List.cons_append, List.nil_append, List.cons.injEq,
        keywordToken_inj, wordToken_inj, Token.mk.injEq, true_and] at h
      obtain ⟨rfl, hevent, rfl, htarget, hbody⟩ := h
      obtain ⟨rfl, rfl⟩ := selfDelimiting_guards hbody trivial trivial
      rw [Name.ext hevent, Name.ext htarget]
      exact ⟨rfl, rfl⟩

private theorem selfDelimiting_eventLine : SelfDelimiting EventLine.tokens := by
  rintro a b r r' h - -
  cases a <;> cases b <;>
    simp only [EventLine.tokens, List.cons_append, List.cons.injEq, keywordToken_inj, reduceCtorEq,
      true_and, false_and] at h
  all_goals
    obtain ⟨rfl, hline⟩ := h
    obtain ⟨rfl, rfl⟩ := selfDelimiting_line hline trivial trivial
    exact ⟨rfl, rfl⟩

private theorem Value.token_inj {v w : Value} (h : v.token = w.token) : v = w := by
  cases v <;> cases w <;> simp_all [Value.token]

/-- The mark of an initial state is told apart from what comes behind it. -/
private theorem unambiguous_mark :
    Unambiguous markTokens fun r ↦ ∀ t ∈ r.head?, t.kind ≠ .keyword .initial := by
  intro a b r s h hr hs
  cases a <;> cases b <;>
    simp only [markTokens, Option.toList_none, Option.toList_some, List.map_nil, List.map_cons,
      List.nil_append, List.cons_append, List.cons.injEq, keywordToken_inj, true_and] at h
  · exact ⟨rfl, h⟩
  · exact absurd rfl (hr (keywordToken .initial _) (by rw [h]; rfl))
  · exact absurd rfl (hs (keywordToken .initial _) (by rw [← h]; rfl))
  · exact ⟨by rw [h.1], h.2⟩

private theorem selfDelimiting_item : SelfDelimiting Item.tokens := by
  rintro a b r r' h - -
  cases a <;> cases b <;>
    simp only [Item.tokens, List.cons_append, List.nil_append, List.append_assoc, List.cons.injEq,
      keywordToken_inj, wordToken_inj, Token.mk.injEq, reduceCtorEq, true_and, false_and] at h
  case option.option =>
    obtain ⟨rfl, rfl, hvalue, rfl, rfl⟩ := h
    rw [Value.token_inj hvalue]
    exact ⟨rfl, rfl⟩
  case initial.initial =>
    obtain ⟨rfl, hline⟩ := h
    obtain ⟨rfl, rfl⟩ := selfDelimiting_line hline trivial trivial
    exact ⟨rfl, rfl⟩
  case event.event =>
    obtain ⟨rfl, hname, hbody⟩ := h
    obtain ⟨rfl, rfl⟩ := selfDelimiting_body selfDelimiting_eventLine starts_eventLine
      hbody trivial trivial
    rw [Name.ext hname]
    exact ⟨rfl, rfl⟩
  case state.state body _ _ _ body' =>
    obtain ⟨rfl, hname, hmark⟩ := h
    obtain ⟨rfl, hbody⟩ := unambiguous_mark hmark
      (by cases body <;> simp [Body.tokens]) (by cases body' <;> simp [Body.tokens])
    obtain ⟨rfl, rfl⟩ := selfDelimiting_body selfDelimiting_entry starts_entry
      hbody trivial trivial
    rw [Name.ext hname]
    exact ⟨rfl, rfl⟩

end Grammar

/-- A list of tokens has at most one derivation. -/
theorem Derivation.tokens_injective {a b : Derivation} (h : a.tokens = b.tokens) : a = b := by
  have hitems : Grammar.Unambiguous tokens (· = []) := by
    apply Grammar.selfDelimiting_item.flatMap
    intro item r hnil
    obtain ⟨tok, ts, heq, -⟩ := Grammar.starts_item item
    rw [heq] at hnil
    cases hnil
  exact (hitems (congrArg (· ++ []) h) rfl rfl).1

end StateGen.Description
