import StateGen.Proofs.Analysis
import StateGen.Proofs.Description.Names
import StateGen.Proofs.Token.Places

/-!
# Where declarations point

The declarations of a readable description lie on lines of its text. Those that point at a name
quote it: the columns of the span cut the name out of its line. The declaration of an edge with an
event reaches from the keyword `on` to the end of its entry, and that of an option from the keyword
`option` to its semicolon.
-/

namespace StateGen

namespace Description

open Grammar

/-! ## Items and their last tokens -/

/-- The token that ends a body. -/
def Grammar.Body.closer {ε : Type} : Body ε → Token
  | .semicolon s => ⟨.semicolon, s⟩
  | .block _ _ right => ⟨.rightBrace, right⟩

/-- How the end of a body is written. -/
def Grammar.Body.closing {ε : Type} : Body ε → String
  | .semicolon _ => ";"
  | .block .. => "\x7d"

/-- A state `source` with an entry `on event -> target` and this body, behind the keyword. -/
def Derivation.HasEdge (items : Derivation) (source event target : String) (keyword : Span)
    (body : Body GuardLine) : Prop :=
  ∃ stateKeyword name mark stateBody e arrow t,
    .state stateKeyword name mark stateBody ∈ items ∧
      .onEvent keyword e arrow t body ∈ stateBody.entries ∧
      name.ident.name = source ∧ e.ident.name = event ∧ t.ident.name = target

/-- An item `option key value;`. -/
def Derivation.HasOption (items : Derivation) (key value : String) (keyword semicolon : Span) :
    Prop :=
  ∃ k v, .option keyword k v semicolon ∈ items ∧ optionKey k.name = key ∧ v.text = value

/-- What a declaration points at in a text with this derivation. -/
def PointsInto (file : SourceFile) (items : Derivation) (d : Declaration) : Prop :=
  match d.kind with
  | .transition source (some event) target =>
    ∃ keyword body, items.HasEdge source event target keyword body ∧
      keyword.Quotes file "on" ∧ body.last.Quotes file body.closing ∧
      d.span = .between keyword.start body.last.stop
  | .config key value =>
    ∃ keyword semicolon, items.HasOption key value keyword semicolon ∧
      keyword.Quotes file "option" ∧ semicolon.Quotes file ";" ∧
      d.span = .between keyword.start semicolon.stop
  | .state name | .event name | .initial name | .precondition _ name | .callback _ name
  | .transition _ none name => d.span.Quotes file name

private theorem sublist_flatMap {α β : Type} {f : α → List β} {a : α} {as : List α} (h : a ∈ as) :
    (f a).Sublist (as.flatMap f) := by
  rw [List.flatMap_def]
  exact List.sublist_flatten_of_mem (List.mem_map_of_mem h)

private theorem sublist_closer {ε : Type} (entryTokens : ε → List Token) (b : Body ε) :
    [b.closer].Sublist (b.tokens entryTokens) := by
  cases b with
  | semicolon s => exact .refl _
  | block left entries right => exact List.sublist_append_right _ _

private theorem sublist_body {ε : Type} {entryTokens : ε → List Token} {b : Body ε} {entry : ε}
    (h : entry ∈ b.entries) : (entryTokens entry).Sublist (b.tokens entryTokens) := by
  cases b with
  | semicolon => cases h
  | block left entries right =>
    have hentries := sublist_flatMap (f := entryTokens) h
    exact (hentries.trans (List.sublist_append_left _ _)).cons _

/-! ## Places in a derived text -/

/-- The tokens of a derivation stand in the text, one behind the other. -/
structure Derivation.StandsIn (items : Derivation) (file : SourceFile) : Prop where
  covers : ∀ t ∈ items.tokens, ∃ before w, t.Covers file.text.toList before w
  inOrder : items.tokens.Pairwise Token.UpTo

namespace Derivation.StandsIn

variable {items : Derivation} {file : SourceFile} (h : items.StandsIn file)

include h

private theorem quotes {t : Token} (ht : t ∈ items.tokens)
    (hstring : ∀ value, t.kind ≠ .string value) :
    t.span.Quotes file (String.ofList t.kind.print) := by
  obtain ⟨before, w, hcovers⟩ := h.covers t ht
  exact hcovers.quotes hstring

/-- A span from one token to a later one. -/
private theorem cover_eq {t u : Token} (htu : [t, u].Sublist items.tokens)
    (hstring : ∀ value, u.kind ≠ .string value) :
    t.span.cover u.span = .between t.span.start u.span.stop ∧
      (t.span.cover u.span).OnLines file := by
  obtain ⟨hstart, hstop⟩ : t.UpTo u := by
    have hpair := h.inOrder.sublist htu
    simpa using hpair
  have hbetween : t.span.cover u.span = .between t.span.start u.span.stop := by
    simp only [Span.cover, Position.before_eq_false_iff.2 hstart,
      Position.before_eq_false_iff.2 hstop, Bool.false_eq_true, if_false]
  refine ⟨hbetween, ?_⟩
  obtain ⟨_, _, ht⟩ := h.covers t (htu.subset (by simp))
  obtain ⟨_, _, hu⟩ := h.covers u (htu.subset (by simp))
  obtain ⟨hline, -, hcolumn, -⟩ := hu.quotes hstring
  rw [hbetween]
  exact ht.onLines hu (hstart.trans (.inr ⟨hline, hcolumn⟩))

private theorem quotes_name {finish : Token} {d : Declaration} {name : String}
    (hd : d ∈ (items.description finish).declarations) (hquoted : d.kind.quoted? = some name) :
    d.span.Quotes file name := by
  obtain ⟨i, rfl, hspan, -, hword⟩ := Derivation.spells hd hquoted
  have hquotes := h.quotes hword (by simp [wordToken])
  rw [← hspan]
  simpa [wordToken, Token.Kind.print] using hquotes

/-- A span from a keyword to a later token. -/
private theorem quotes_keyword {k : Keyword} {keyword : Span} {u : Token}
    (htu : [keywordToken k keyword, u].Sublist items.tokens)
    (hstring : ∀ value, u.kind ≠ .string value) :
    keyword.Quotes file k.text ∧ u.span.Quotes file (String.ofList u.kind.print) := by
  constructor
  · have hquotes := h.quotes (htu.subset (List.mem_cons_self)) (by simp [keywordToken])
    simpa [keywordToken, Token.Kind.print] using hquotes
  · exact h.quotes (htu.subset (by simp)) hstring

private theorem pointsInto_edge {finish : Token} {source event target : String} {span : Span}
    (hd : ⟨.transition source (some event) target, span⟩ ∈
      (items.description finish).declarations) :
    span.OnLines file ∧ PointsInto file items ⟨.transition source (some event) target, span⟩ := by
  obtain ⟨_, hitem, hd⟩ := exists_item_of_mem_declarations _ hd
  obtain ⟨item, hmem, rfl⟩ := List.mem_map.1 hitem
  cases item with
  | option | initial | event => cases hd
  | state stateKeyword name mark stateBody =>
    obtain ⟨_, hbody, hd⟩ := List.mem_flatMap.1 hd
    obtain ⟨entry, hentry, rfl⟩ := List.mem_map.1 hbody
    cases entry with
    | hooks kind keyword line => cases kind <;> cases hd
    | nextState keyword targets body =>
      obtain ⟨t, -, heq⟩ := List.mem_map.1 hd
      cases heq
    | onEvent keyword e arrow t body =>
      cases List.mem_singleton.1 hd
      have hedge : [keywordToken .on keyword, body.closer].Sublist
          (Entry.onEvent keyword e arrow t body).tokens :=
        ((sublist_closer GuardLine.tokens body).trans (List.sublist_append_right _ _)).cons_cons _
      have hstate : (stateBody.tokens Entry.tokens).Sublist
          (Grammar.Item.state stateKeyword name mark stateBody).tokens :=
        ((List.sublist_append_right _ _).cons _).cons _
      have hsub := hedge.trans ((sublist_body hentry).trans (hstate.trans (sublist_flatMap hmem)))
      have hstring : ∀ value, body.closer.kind ≠ .string value := by
        cases body <;> simp [Body.closer]
      have hlast : body.closer.span = body.last := by
        cases body <;> rfl
      have hclosing : String.ofList body.closer.kind.print = body.closing := by
        cases body <;> rfl
      obtain ⟨hspan, hlines⟩ := h.cover_eq hsub hstring
      obtain ⟨hon, hend⟩ := h.quotes_keyword hsub hstring
      rw [hlast] at hspan hlines hend
      rw [hclosing] at hend
      exact ⟨hlines, keyword, body, ⟨stateKeyword, name, mark, stateBody, e, arrow, t, hmem, hentry,
        rfl, rfl, rfl⟩, hon, hend, hspan⟩

private theorem pointsInto_option {finish : Token} {key value : String} {span : Span}
    (hd : ⟨.config key value, span⟩ ∈ (items.description finish).declarations) :
    span.OnLines file ∧ PointsInto file items ⟨.config key value, span⟩ := by
  obtain ⟨_, hitem, hd⟩ := exists_item_of_mem_declarations _ hd
  obtain ⟨item, hmem, rfl⟩ := List.mem_map.1 hitem
  cases item with
  | initial | event | state => cases hd
  | option keyword k v semicolon =>
    cases List.mem_singleton.1 hd
    have hoption : [keywordToken .option keyword, ⟨.semicolon, semicolon⟩].Sublist
        (Grammar.Item.option keyword k v semicolon).tokens :=
      .cons_cons _ (.cons _ (.cons _ (.refl _)))
    have hsub := hoption.trans (sublist_flatMap hmem)
    obtain ⟨hspan, hlines⟩ := h.cover_eq hsub (by simp)
    obtain ⟨hkeyword, hend⟩ := h.quotes_keyword hsub (by simp)
    exact ⟨hlines, keyword, semicolon, ⟨k, v, hmem, rfl, rfl⟩, hkeyword, hend, hspan⟩

end Derivation.StandsIn

/-- The text of a readable description derives from items whose tokens stand in it. -/
private theorem exists_standsIn {file : SourceFile} (h : file.IsReadable) :
    ∃ (items : Derivation) (finish : Token), (Token.lex file).1 = items.tokens ++ [finish] ∧
      file.description = items.description finish ∧ items.StandsIn file := by
  obtain ⟨items, finish, hlex, hdescription, -⟩ := h.exists_derivation
  obtain ⟨tokens, finish', hlex', -, hcovers, horder⟩ := Token.exists_lex_eq_covering file
  obtain ⟨rfl, -⟩ := List.append_inj' (hlex.symm.trans hlex') rfl
  exact ⟨items, finish, hlex, hdescription, hcovers, horder⟩

/-- The declarations of a readable description lie on lines of its text and point at what they
declare: at a name, at the entry of an edge with an event, or at an option. -/
theorem declarations_point_at_words (file : SourceFile) (h : file.IsReadable) :
    ∃ (items : Derivation) (finish : Token), (Token.lex file).1 = items.tokens ++ [finish] ∧
      file.description = items.description finish ∧
      ∀ d ∈ file.description.declarations, d.span.OnLines file ∧ PointsInto file items d := by
  obtain ⟨items, finish, hlex, hdescription, hstands⟩ := exists_standsIn h
  refine ⟨items, finish, hlex, hdescription, fun d hd ↦ ?_⟩
  rw [hdescription] at hd
  have hname : ∀ name, d.kind.quoted? = some name → d.span.Quotes file name := fun name ↦
    hstands.quotes_name hd
  obtain ⟨kind, span⟩ := d
  cases kind with
  | config key value => exact hstands.pointsInto_option hd
  | state name | event name | initial name =>
    have hquotes := hname name rfl
    exact ⟨hquotes.onLines, hquotes⟩
  | precondition target name | callback target name =>
    have hquotes := hname name rfl
    exact ⟨hquotes.onLines, hquotes⟩
  | transition source event target =>
    cases event with
    | some event => exact hstands.pointsInto_edge hd
    | none =>
      have hquotes := hname target rfl
      exact ⟨hquotes.onLines, hquotes⟩

private def onLine (line first last : Nat) : Span := ⟨line, first, line, last⟩

/-- A door whose lines end with carriage returns, behind a comment that is not ASCII. -/
private def door : SourceFile where
  name := "door.fsm"
  text := "# Tür\r\noption out \"x\";\r\nstate shut initial \x7b\r\n"
    ++ "  on push -> open \x7b precondition free; \x7d\r\n\x7d\r\n"

private def doorItems : Derivation :=
  [.option (onLine 2 1 6) ⟨"out", onLine 2 8 10⟩ (.string "x" (onLine 2 12 14)) (onLine 2 15 15),
    .state (onLine 3 1 5) ⟨⟨"shut", onLine 3 7 10⟩, by decide⟩ (some (onLine 3 12 18))
      (.block (onLine 3 20 20)
        [.onEvent (onLine 4 3 4) ⟨⟨"push", onLine 4 6 9⟩, by decide⟩ (onLine 4 11 12)
          ⟨⟨"open", onLine 4 14 17⟩, by decide⟩
          (.block (onLine 4 19 19)
            [⟨onLine 4 21 32, ⟨⟨⟨⟨"free", onLine 4 34 37⟩, by decide⟩, []⟩, onLine 4 38 38⟩⟩]
            (onLine 4 40 40))]
        (onLine 5 1 1))]

private theorem lex_door :
    Token.lex door = (doorItems.tokens ++ [⟨.eof, onLine 6 1 1⟩], .empty) := by
  decide +kernel

/-- The state and the guard of the door are quoted, and its edge ends with the closing brace. -/
theorem declarations_point_at_words_door :
    door.IsReadable ∧
      ∃ items : Derivation,
        (onLine 3 7 10).Quotes door "shut" ∧ (onLine 4 34 37).Quotes door "free" ∧
        (∃ keyword body, items.HasEdge "shut" "push" "open" keyword body ∧
          keyword.Quotes door "on" ∧ body.last.Quotes door body.closing ∧
          onLine 4 3 40 = .between keyword.start body.last.stop) ∧
        (∃ keyword semicolon, items.HasOption "out" "x" keyword semicolon ∧
          keyword.Quotes door "option" ∧ semicolon.Quotes door ";" ∧
          onLine 2 1 15 = .between keyword.start semicolon.stop) := by
  obtain ⟨hreadable, hdescription⟩ := SourceFile.isReadable_of_derivation lex_door (by decide) rfl
  obtain ⟨items, finish, -, -, hpoints⟩ := declarations_point_at_words door hreadable
  have hmem : ∀ d ∈ (doorItems.description ⟨.eof, onLine 6 1 1⟩).declarations,
      PointsInto door items d := by
    rw [← hdescription]
    exact fun d hd ↦ (hpoints d hd).2
  exact ⟨hreadable, items, hmem ⟨.state "shut", onLine 3 7 10⟩ (by decide),
    hmem ⟨.precondition (.transition "shut" "push") "free", onLine 4 34 37⟩ (by decide),
    hmem ⟨.transition "shut" (some "push") "open", onLine 4 3 40⟩ (by decide),
    hmem ⟨.config "out" "x", onLine 2 1 15⟩ (by decide +kernel)⟩

end Description

end StateGen
