import StateGen.Proofs.Description.Reading

/-!
# Nothing is read behind the end of the text

A list of tokens may go on behind its first `eof`. No reading function steps over that token, and
none asks what stands behind it: cutting the list off there changes neither what is read nor what
is reported. This is proved once for each way of combining reading functions and then, function by
function, up to the whole description.
-/

namespace StateGen.Description

/-! ## Cursors -/

namespace Cursor

variable {c c' c'' : Cursor}

/-- Reading leads from one cursor to the other, and over no end of the text. -/
def LeadsTo (c c' : Cursor) : Prop := ∃ ts, c.Passes ts c' ∧ ∀ t ∈ ts, t.kind ≠ .eof

theorem LeadsTo.refl (c : Cursor) : c.LeadsTo c :=
  ⟨[], passes_nil_iff.2 rfl, fun _ h ↦ by cases h⟩

theorem LeadsTo.trans (h : c.LeadsTo c') (h' : c'.LeadsTo c'') : c.LeadsTo c'' := by
  obtain ⟨ts, hts, hinner⟩ := h
  obtain ⟨us, hus, hinner'⟩ := h'
  exact ⟨ts ++ us, passes_append_iff.2 ⟨c', hts, hus⟩,
    List.forall_mem_append.2 ⟨hinner, hinner'⟩⟩

theorem LeadsTo.ends (h : c.LeadsTo c') (hc : c.Ends) : c'.Ends := by
  obtain ⟨ts, hts, -⟩ := h
  exact hts.ends hc

/-- The same place, with nothing behind the first end of the text. -/
def cut (c : Cursor) : Cursor where
  previous := c.previous
  rest := c.rest.takeWhile (·.kind != .eof)
  finish := (c.rest.find? (·.kind == .eof)).getD c.finish

private theorem cut_eof {previous : Span} {t : Token} {ts : List Token} {finish : Token}
    (h : t.kind = .eof) : cut ⟨previous, t :: ts, finish⟩ = ⟨previous, [], t⟩ := by
  simp [cut, h]

private theorem cut_cons {previous : Span} {t : Token} {ts : List Token} {finish : Token}
    (h : t.kind ≠ .eof) :
    cut ⟨previous, t :: ts, finish⟩ =
      { cut ⟨previous, ts, finish⟩ with rest := t :: (cut ⟨previous, ts, finish⟩).rest } := by
  simp [cut, h]

/-- The token that is read next. -/
private def next (c : Cursor) : Token := c.rest.head?.getD c.finish

private theorem peek_eq (c : Cursor) : c.peek = c.next.kind := by
  unfold peek next
  split <;> simp_all

private theorem span_eq (c : Cursor) : c.span = c.next.span := by
  unfold span next
  split <;> simp_all

private theorem next_cut (c : Cursor) : c.cut.next = c.next := by
  obtain ⟨previous, rest, finish⟩ := c
  cases rest with
  | nil => rfl
  | cons t ts =>
    by_cases ht : t.kind = .eof
    · rw [cut_eof ht]
      rfl
    · rw [cut_cons ht]
      rfl

@[simp] theorem peek_cut (c : Cursor) : c.cut.peek = c.peek := by
  rw [peek_eq, next_cut, peek_eq]

@[simp] theorem span_cut (c : Cursor) : c.cut.span = c.span := by
  rw [span_eq, next_cut, span_eq]

@[simp] theorem atEnd_cut (c : Cursor) : c.cut.atEnd = c.atEnd := by
  rw [atEnd, atEnd, peek_cut]

theorem advance_cut (h : c.peek ≠ .eof) : c.cut.advance = c.advance.cut := by
  obtain ⟨previous, rest, finish⟩ := c
  cases rest with
  | nil => rfl
  | cons t ts =>
    have ht : t.kind ≠ .eof := h
    rw [cut_cons ht]
    rfl

theorem leadsTo_advance (h : c.peek ≠ .eof) : c.LeadsTo c.advance := by
  obtain ⟨previous, rest, finish⟩ := c
  cases rest with
  | nil => exact .refl _
  | cons t ts =>
    refine ⟨[t], passes_singleton_iff.2 ⟨rfl, rfl⟩, fun u hu ↦ ?_⟩
    rw [List.mem_singleton.1 hu]
    exact h

/-! ## Skipping tokens -/

section

variable {p : Token.Kind → Bool}

/-- Skipping is stepping over tokens one by one. -/
theorem skipWhile_induction {motive : Cursor → Cursor → Prop}
    (stay : ∀ c, p c.peek = false ∨ c.rest = [] → motive c c)
    (step : ∀ c c', p c.peek = true → c.rest ≠ [] → motive c.advance c' → motive c c')
    (c : Cursor) : motive c (c.skipWhile p) := by
  obtain ⟨previous, rest, finish⟩ := c
  induction rest generalizing previous with
  | nil => exact stay _ (.inr rfl)
  | cons t ts ih =>
    cases ht : p t.kind with
    | false =>
      rw [skipWhile_of_not ht]
      exact stay _ (.inl ht)
    | true =>
      rw [skipWhile_advance ht]
      exact step _ _ ht (List.cons_ne_nil t ts) (ih t.span)

theorem peek_ne_eof (hp : p .eof = false) (h : p c.peek = true) : c.peek ≠ .eof := by
  intro heof
  rw [heof, hp] at h
  cases h

theorem leadsTo_skipWhile (hp : p .eof = false) (c : Cursor) : c.LeadsTo (c.skipWhile p) := by
  refine skipWhile_induction (fun c _ ↦ .refl c) (fun c c' h _ ih ↦ ?_) c
  exact (leadsTo_advance (peek_ne_eof hp h)).trans ih

theorem skipWhile_cut (hp : p .eof = false) (c : Cursor) :
    c.cut.skipWhile p = (c.skipWhile p).cut := by
  refine skipWhile_induction (motive := fun c c' ↦ c.cut.skipWhile p = c'.cut) ?_ ?_ c
  · rintro c (h | hrest)
    · exact skipWhile_of_not (by rwa [peek_cut])
    · rw [skipWhile, cut, hrest]
      rfl
  · intro c c' h _ ih
    rw [skipWhile_advance (by rwa [peek_cut]), advance_cut (peek_ne_eof hp h)]
    exact ih

end

theorem leadsTo_recover (c : Cursor) : c.LeadsTo c.recover := by
  have hskip := leadsTo_skipWhile
    (p := fun k ↦ k != .eof && k != .semicolon && k != .rightBrace && !startsItem k) rfl c
  unfold recover
  dsimp only
  split
  · next hpeek => exact hskip.trans (leadsTo_advance (by rw [hpeek]; simp))
  · exact hskip

theorem recover_cut (c : Cursor) : c.cut.recover = c.recover.cut := by
  unfold recover
  dsimp only
  rw [skipWhile_cut rfl, peek_cut]
  split
  · next hpeek => exact advance_cut (by rw [hpeek]; simp)
  · rfl

theorem leadsTo_toNextItem (c : Cursor) : c.LeadsTo c.toNextItem := leadsTo_skipWhile rfl c

theorem toNextItem_cut (c : Cursor) : c.cut.toNextItem = c.toNextItem.cut := skipWhile_cut rfl c

end Cursor

/-! ## Reading functions -/

namespace Read

open Cursor

variable {α β : Type}

/-- Where a reading ended, with a value or with a mistake. -/
def stop : Except Failure (α × Cursor) → Cursor
  | .ok (_, c) => c
  | .error f => f.cursor

/-- The same outcome of a reading, with nothing behind the first end of the text. -/
def cutOff : Except Failure (α × Cursor) → Except Failure (α × Cursor)
  | .ok (a, c) => .ok (a, c.cut)
  | .error f => .error { f with cursor := f.cursor.cut }

/-- A reading function for which the first end of the text is the last of the tokens. -/
structure StopsAtEnd (p : Read α) : Prop where
  leadsTo : ∀ c : Cursor, c.LeadsTo (stop (p c))
  cut : ∀ c : Cursor, p c.cut = cutOff (p c)

section

variable {p : Read α} {c c' : Cursor} {a : α} {f : Failure}

theorem StopsAtEnd.ok (hp : StopsAtEnd p) (h : p c = .ok (a, c')) : c.LeadsTo c' := by
  have hleads := hp.leadsTo c
  rwa [h] at hleads

theorem StopsAtEnd.fail (hp : StopsAtEnd p) (h : p c = .error f) : c.LeadsTo f.cursor := by
  have hleads := hp.leadsTo c
  rwa [h] at hleads

end

theorem stopsAtEnd_pure (a : α) : StopsAtEnd (pure a : Read α) := ⟨.refl, fun _ ↦ rfl⟩

theorem StopsAtEnd.bind {p : Read α} {q : α → Read β} (hp : StopsAtEnd p)
    (hq : ∀ a, StopsAtEnd (q a)) : StopsAtEnd (p >>= q) := by
  constructor
  · intro c
    rw [bind_apply]
    split
    · next a c' hpc => exact (hp.ok hpc).trans ((hq a).leadsTo c')
    · next hpc => exact hp.fail hpc
  · intro c
    rw [bind_apply, bind_apply, hp.cut]
    cases p c with
    | ok r => exact (hq r.1).cut r.2
    | error f => rfl

/-- A reading function that asks for the next token only, and steps over no end of the text. -/
private theorem stopsAtEnd_of_steps {p : Read α}
    (steps : ∀ c : Cursor,
      (∃ a, c.peek ≠ .eof ∧ p c = .ok (a, c.advance) ∧ p c.cut = .ok (a, c.cut.advance)) ∨
      (∃ a, p c = .ok (a, c) ∧ p c.cut = .ok (a, c.cut)) ∨
      ∃ m s, p c = .error ⟨m, s, c⟩ ∧ p c.cut = .error ⟨m, s, c.cut⟩) : StopsAtEnd p := by
  constructor
  · intro c
    obtain ⟨a, hpeek, hc, -⟩ | ⟨a, hc, -⟩ | ⟨m, s, hc, -⟩ := steps c
    · rw [hc]
      exact leadsTo_advance hpeek
    · rw [hc]
      exact .refl c
    · rw [hc]
      exact .refl c
  · intro c
    obtain ⟨a, hpeek, hc, hcut⟩ | ⟨a, hc, hcut⟩ | ⟨m, s, hc, hcut⟩ := steps c
    · rw [hc, hcut, advance_cut hpeek, cutOff]
    · rw [hc, hcut, cutOff]
    · rw [hc, hcut, cutOff]

theorem stopsAtEnd_previous : StopsAtEnd previous := ⟨.refl, fun _ ↦ rfl⟩

theorem stopsAtEnd_eat {kind : Token.Kind} (hkind : kind ≠ .eof) : StopsAtEnd (eat kind) := by
  refine stopsAtEnd_of_steps fun c ↦ ?_
  rw [eat, eat, peek_cut]
  split
  · next hpeek => exact .inl ⟨true, hpeek ▸ hkind, rfl, rfl⟩
  · exact .inr (.inl ⟨false, rfl, rfl⟩)

theorem stopsAtEnd_expect {kind : Token.Kind} (hkind : kind ≠ .eof) :
    StopsAtEnd (expect kind) := by
  refine stopsAtEnd_of_steps fun c ↦ ?_
  rw [expect, expect, peek_cut, span_cut]
  split
  · next hpeek => exact .inl ⟨c.span, hpeek ▸ hkind, rfl, rfl⟩
  · exact .inr (.inr ⟨_, _, rfl, rfl⟩)

theorem stopsAtEnd_word : StopsAtEnd word := by
  refine stopsAtEnd_of_steps fun c ↦ ?_
  rw [word, word, peek_cut, span_cut]
  split
  · next hpeek => exact .inl ⟨_, by simp [hpeek], rfl, rfl⟩
  · exact .inr (.inr ⟨_, _, rfl, rfl⟩)

theorem stopsAtEnd_optionValue : StopsAtEnd optionValue := by
  refine stopsAtEnd_of_steps fun c ↦ ?_
  rw [optionValue, optionValue, peek_cut, span_cut]
  split
  · next hpeek => exact .inl ⟨_, by simp [hpeek], rfl, rfl⟩
  · next hpeek => exact .inl ⟨_, by simp [hpeek], rfl, rfl⟩
  · exact .inr (.inr ⟨_, _, rfl, rfl⟩)

theorem stopsAtEnd_identifier : StopsAtEnd identifier := by
  constructor
  · intro c
    unfold identifier
    split
    · next hword => exact stopsAtEnd_word.fail hword
    · next hword =>
      split
      · exact stopsAtEnd_word.ok hword
      · exact stopsAtEnd_word.ok hword
  · intro c
    rw [identifier, identifier, stopsAtEnd_word.cut]
    cases word c with
    | error f => rfl
    | ok r =>
      simp only [cutOff]
      split
      · rfl
      · rfl

/-- One round of repeated reading. -/
theorem repeatWhile_eq (go : Cursor → Bool) (p : Read α) (hp : Consumes p) (c : Cursor) :
    repeatWhile go p hp c =
      if go c then
        match p c with
        | .error f => .error f
        | .ok (a, c') =>
          match repeatWhile go p hp c' with
          | .error f => .error f
          | .ok (as, c'') => .ok (a :: as, c'')
      else .ok ([], c) := by
  rw [repeatWhile]
  split
  · split
    · next hpc => simp only [hpc]
    · next c' hpc =>
      cases hrest : repeatWhile go p hp c' with
      | error f => simp only [hpc, hrest]
      | ok r => simp only [hpc, hrest]
  · rfl

theorem stopsAtEnd_repeatWhile {go : Cursor → Bool} {p : Read α} (hp : Consumes p)
    (hgo : ∀ c, go c.cut = go c) (h : StopsAtEnd p) : StopsAtEnd (repeatWhile go p hp) := by
  constructor
  · intro c
    fun_induction repeatWhile go p hp c with
    | case1 c _ f hpc => exact h.fail hpc
    | case2 c _ a c' hpc f hrest ih =>
      rw [hrest] at ih
      exact (h.ok hpc).trans ih
    | case3 c _ a c' hpc as c'' hrest ih =>
      rw [hrest] at ih
      exact (h.ok hpc).trans ih
    | case4 c => exact .refl c
  · intro c
    fun_induction repeatWhile go p hp c with
    | case1 c hc f hpc => rw [repeatWhile_eq, hgo, if_pos hc, h.cut, hpc, cutOff, cutOff]
    | case2 c hc a c' hpc f hrest ih =>
      rw [hrest] at ih
      simp only [repeatWhile_eq go p hp c.cut, hgo, hc, if_true, h.cut, hpc, cutOff, ih]
    | case3 c hc a c' hpc as c'' hrest ih =>
      rw [hrest] at ih
      simp only [repeatWhile_eq go p hp c.cut, hgo, hc, if_true, h.cut, hpc, cutOff, ih]
    | case4 c hc => rw [repeatWhile_eq, hgo, if_neg hc, cutOff]

theorem stopsAtEnd_commaIdentifier : StopsAtEnd commaIdentifier :=
  (stopsAtEnd_expect (by decide)).bind fun _ ↦ stopsAtEnd_identifier

theorem stopsAtEnd_identifiers : StopsAtEnd identifiers :=
  stopsAtEnd_identifier.bind fun _ ↦
    (stopsAtEnd_repeatWhile _ (fun c ↦ by rw [peek_cut]) stopsAtEnd_commaIdentifier).bind fun _ ↦
      stopsAtEnd_pure _

theorem stopsAtEnd_hooks : StopsAtEnd hooks :=
  stopsAtEnd_identifiers.bind fun _ ↦ (stopsAtEnd_expect (by decide)).bind fun _ ↦ stopsAtEnd_pure _

theorem inBlock_cut (c : Cursor) : inBlock c.cut = inBlock c := by
  rw [inBlock, inBlock, peek_cut, atEnd_cut]

theorem stopsAtEnd_edgeGuards : StopsAtEnd edgeGuards :=
  (stopsAtEnd_expect (by decide)).bind fun _ ↦ stopsAtEnd_hooks

theorem stopsAtEnd_edgeEnd : StopsAtEnd edgeEnd := by
  refine (stopsAtEnd_eat (by decide)).bind fun short ↦ ?_
  cases short
  · exact (stopsAtEnd_expect (by decide)).bind fun _ ↦
      (stopsAtEnd_repeatWhile _ inBlock_cut stopsAtEnd_edgeGuards).bind fun _ ↦
        (stopsAtEnd_expect (by decide)).bind fun _ ↦ stopsAtEnd_pure _
  · exact stopsAtEnd_pure _

theorem stopsAtEnd_nextState (start : Span) : StopsAtEnd (nextState start) :=
  stopsAtEnd_identifiers.bind fun _ ↦ stopsAtEnd_edgeEnd.bind fun _ ↦
    stopsAtEnd_previous.bind fun _ ↦ stopsAtEnd_pure _

theorem stopsAtEnd_onEvent (start : Span) : StopsAtEnd (onEvent start) :=
  stopsAtEnd_identifier.bind fun _ ↦ (stopsAtEnd_expect (by decide)).bind fun _ ↦
    stopsAtEnd_identifier.bind fun _ ↦ stopsAtEnd_edgeEnd.bind fun _ ↦
      stopsAtEnd_previous.bind fun _ ↦ stopsAtEnd_pure _

theorem stopsAtEnd_dispatch {rest : Token.Kind → Option (Span → Read α)}
    {otherwise : Token.Kind → Mistake} (heof : rest .eof = none)
    (h : ∀ {kind p}, rest kind = some p → ∀ s, StopsAtEnd (p s)) :
    StopsAtEnd (dispatch rest otherwise) := by
  have hne {c : Cursor} {p : Span → Read α} (hp : rest c.peek = some p) : c.peek ≠ .eof := by
    intro hpeek
    rw [hpeek, heof] at hp
    cases hp
  constructor
  · intro c
    unfold dispatch
    split
    · next p hp => exact (leadsTo_advance (hne hp)).trans ((h hp c.span).leadsTo c.advance)
    · exact .refl c
  · intro c
    rw [dispatch, dispatch, peek_cut, span_cut]
    split
    · next p hp => rw [advance_cut (hne hp), (h hp c.span).cut]
    · rfl

theorem stopsAtEnd_stateEntry : StopsAtEnd stateEntry := by
  refine stopsAtEnd_dispatch rfl fun {kind p} hp s ↦ ?_
  unfold stateEntryRest at hp
  split at hp <;> cases hp
  iterate 4 exact stopsAtEnd_hooks.bind fun _ ↦ stopsAtEnd_pure _
  · exact stopsAtEnd_nextState s
  · exact stopsAtEnd_onEvent s

theorem stopsAtEnd_eventHooks : StopsAtEnd eventHooks := by
  refine stopsAtEnd_dispatch rfl fun {kind p} hp s ↦ ?_
  unfold eventHooksRest at hp
  split at hp <;> cases hp
  iterate 2 exact stopsAtEnd_hooks.bind fun _ ↦ stopsAtEnd_pure _

theorem stopsAtEnd_optionItem (start : Span) : StopsAtEnd (optionItem start) :=
  stopsAtEnd_word.bind fun _ ↦ stopsAtEnd_optionValue.bind fun _ ↦
    (stopsAtEnd_expect (by decide)).bind fun _ ↦ stopsAtEnd_previous.bind fun _ ↦ stopsAtEnd_pure _

theorem stopsAtEnd_initialItem (start : Span) : StopsAtEnd (initialItem start) :=
  stopsAtEnd_identifiers.bind fun _ ↦ (stopsAtEnd_expect (by decide)).bind fun _ ↦
    stopsAtEnd_previous.bind fun _ ↦ stopsAtEnd_pure _

theorem stopsAtEnd_stateHead : StopsAtEnd stateHead :=
  stopsAtEnd_identifier.bind fun _ ↦ (stopsAtEnd_eat (by decide)).bind fun _ ↦ stopsAtEnd_pure _

theorem stopsAtEnd_opensBlock : StopsAtEnd opensBlock := by
  refine (stopsAtEnd_eat (by decide)).bind fun short ↦ ?_
  cases short
  · exact (stopsAtEnd_expect (by decide)).bind fun _ ↦ stopsAtEnd_pure _
  · exact stopsAtEnd_pure _

end Read

/-! ## Blocks and items -/

/-- One round of reading a block. -/
theorem block_eq {β : Type} (file : SourceFile) (p : Read β) (hp : p.Consumes) (c : Cursor)
    (ds : Diagnostics) :
    block file p hp c ds =
      if !Read.inBlock c then ⟨some [], c, ds⟩
      else if ds.isFull then ⟨none, c, ds⟩
      else
        match p c with
        | .ok (b, c') =>
          { block file p hp c' ds with value := (block file p hp c' ds).value.map (b :: ·) }
        | .error f => block file p hp f.cursor.recover (f.report file ds) := by
  rw [block]
  split
  · rfl
  · split
    · rfl
    · split
      · next hpc => simp only [hpc]
      · next hpc => simp only [hpc]

/-- One round of reading items. -/
theorem itemsFrom_eq (file : SourceFile) (c : Cursor) (ds : Diagnostics) :
    itemsFrom file c ds =
      if c.atEnd || ds.isFull then ([], c, ds)
      else
        let x := itemRest file c.peek c.span c.advance ds
        match x.value with
        | some item =>
          let (items, c, ds) := itemsFrom file x.cursor x.diagnostics
          (item :: items, c, ds)
        | none => itemsFrom file x.cursor.toNextItem x.diagnostics := by
  rw [itemsFrom]
  split
  · rfl
  · dsimp only
    split
    · next hx => simp only [hx]
    · next hx => simp only [hx]

namespace Attempt

variable {α β : Type} {file : SourceFile}

/-- The same outcome of an attempt, with nothing behind the first end of the text. -/
def cut (x : Attempt α) : Attempt α := { x with cursor := x.cursor.cut }

/-- An attempt for which the first end of the text is the last of the tokens. -/
structure StopsAtEnd (g : Cursor → Diagnostics → Attempt α) : Prop where
  leadsTo : ∀ (c : Cursor) ds, c.LeadsTo (g c ds).cursor
  cut : ∀ (c : Cursor) ds, g c.cut ds = (g c ds).cut

theorem stopsAtEnd_done {value : Cursor → α} (h : ∀ c, value c.cut = value c) :
    StopsAtEnd fun c ds ↦ ⟨some (value c), c, ds⟩ := by
  refine ⟨fun c _ ↦ .refl c, fun c ds ↦ ?_⟩
  rw [cut, h]

theorem stopsAtEnd_ofRead {p : Read α} (hp : p.StopsAtEnd) : StopsAtEnd (ofRead file p) := by
  constructor
  · intro c ds
    unfold ofRead
    split
    · next hpc => exact hp.ok hpc
    · next hpc => exact hp.fail hpc
  · intro c ds
    rw [ofRead, ofRead, hp.cut]
    cases p c with
    | ok r => rfl
    | error f => rfl

theorem StopsAtEnd.andThen {g : Cursor → Diagnostics → Attempt α}
    {f : α → Cursor → Diagnostics → Attempt β} (hg : StopsAtEnd g) (hf : ∀ a, StopsAtEnd (f a)) :
    StopsAtEnd fun c ds ↦ (g c ds).andThen f := by
  constructor
  · intro c ds
    unfold Attempt.andThen
    split
    · exact (hg.leadsTo c ds).trans ((hf _).leadsTo _ _)
    · exact hg.leadsTo c ds
  · intro c ds
    rw [hg.cut]
    unfold Attempt.andThen Attempt.cut
    dsimp only
    split
    · next a _ => exact (hf a).cut _ _
    · rfl

theorem stopsAtEnd_block {p : Read α} {hconsumes : p.Consumes} (hp : p.StopsAtEnd) :
    StopsAtEnd (block file p hconsumes) := by
  constructor
  · intro c ds
    fun_induction block file p hconsumes c ds with
    | case1 c => exact .refl c
    | case2 c => exact .refl c
    | case3 c ds _ _ b c' hpc _ ih => exact (hp.ok hpc).trans ih
    | case4 c ds _ _ f hpc ih => exact ((hp.fail hpc).trans f.cursor.leadsTo_recover).trans ih
  · intro c ds
    fun_induction block file p hconsumes c ds with
    | case1 c ds hin => rw [block_eq, Read.inBlock_cut, if_pos hin, cut]
    | case2 c ds hin hfull => rw [block_eq, Read.inBlock_cut, if_neg hin, if_pos hfull, cut]
    | case3 c ds hin hfull b c' hpc rest ih =>
      rw [block_eq, Read.inBlock_cut, if_neg hin, if_neg hfull, hp.cut, hpc]
      simp only [Read.cutOff, ih, cut, rest]
    | case4 c ds hin hfull f hpc ih =>
      rw [block_eq, Read.inBlock_cut, if_neg hin, if_neg hfull, hp.cut, hpc]
      simp only [Read.cutOff, Cursor.recover_cut]
      exact ih

theorem stopsAtEnd_body {p : Read α} {hconsumes : p.Consumes} (hp : p.StopsAtEnd) :
    StopsAtEnd (body file p hconsumes) := by
  unfold body
  refine (stopsAtEnd_ofRead Read.stopsAtEnd_opensBlock).andThen fun opens ↦ ?_
  cases opens
  · exact stopsAtEnd_done fun _ ↦ rfl
  · simp only [if_true]
    refine (stopsAtEnd_block hp).andThen fun _ ↦ ?_
    exact (stopsAtEnd_ofRead (Read.stopsAtEnd_expect (by decide))).andThen fun _ ↦
      stopsAtEnd_done fun _ ↦ rfl

theorem stopsAtEnd_eventItem (start : Span) : StopsAtEnd (eventItem file start) := by
  unfold eventItem
  refine (stopsAtEnd_ofRead Read.stopsAtEnd_identifier).andThen fun _ ↦ ?_
  exact (stopsAtEnd_body Read.stopsAtEnd_eventHooks).andThen fun _ ↦ stopsAtEnd_done fun _ ↦ rfl

theorem stopsAtEnd_stateItem (start : Span) : StopsAtEnd (stateItem file start) := by
  unfold stateItem
  refine (stopsAtEnd_ofRead Read.stopsAtEnd_stateHead).andThen fun _ ↦ ?_
  exact (stopsAtEnd_body Read.stopsAtEnd_stateEntry).andThen fun _ ↦ stopsAtEnd_done fun _ ↦ rfl

theorem stopsAtEnd_itemRest (kind : Token.Kind) (start : Span) :
    StopsAtEnd (itemRest file kind start) := by
  unfold itemRest
  split
  · exact (stopsAtEnd_ofRead (Read.stopsAtEnd_optionItem start)).andThen fun _ ↦
      stopsAtEnd_done fun _ ↦ rfl
  · exact (stopsAtEnd_ofRead (Read.stopsAtEnd_initialItem start)).andThen fun _ ↦
      stopsAtEnd_done fun _ ↦ rfl
  · exact (stopsAtEnd_eventItem start).andThen fun _ ↦ stopsAtEnd_done fun _ ↦ rfl
  · exact (stopsAtEnd_stateItem start).andThen fun _ ↦ stopsAtEnd_done fun _ ↦ rfl
  · exact ⟨fun c _ ↦ .refl c, fun _ _ ↦ rfl⟩

end Attempt

section

variable {file : SourceFile} {c : Cursor} {ds : Diagnostics}

private theorem peek_ne_eof_of_goes_on (hgo : ¬ (c.atEnd || ds.isFull) = true) :
    c.peek ≠ .eof := by
  intro heof
  exact hgo (by simp [Cursor.atEnd, heof])

/-- An item is read from its first token on, which is not the end of the text. -/
private theorem leadsTo_item (hgo : ¬ (c.atEnd || ds.isFull) = true) :
    c.LeadsTo (itemRest file c.peek c.span c.advance ds).cursor :=
  (Cursor.leadsTo_advance (peek_ne_eof_of_goes_on hgo)).trans
    ((Attempt.stopsAtEnd_itemRest _ _).leadsTo _ _)

private theorem item_cut (hgo : ¬ (c.atEnd || ds.isFull) = true) :
    itemRest file c.cut.peek c.cut.span c.cut.advance ds =
      (itemRest file c.peek c.span c.advance ds).cut := by
  rw [Cursor.peek_cut, Cursor.span_cut, Cursor.advance_cut (peek_ne_eof_of_goes_on hgo),
    (Attempt.stopsAtEnd_itemRest _ _).cut]

end

/-- No end of the text is among the tokens that items take. -/
theorem leadsTo_itemsFrom (file : SourceFile) (c : Cursor) (ds : Diagnostics) :
    c.LeadsTo (itemsFrom file c ds).2.1 := by
  fun_induction itemsFrom file c ds with
  | case1 c => exact .refl c
  | case2 c ds hgo x item hx items c' ds' hrest ih =>
    rw [hrest] at ih
    exact (leadsTo_item hgo).trans ih
  | case3 c ds hgo x hx ih =>
    exact ((leadsTo_item hgo).trans x.cursor.leadsTo_toNextItem).trans ih

/-- What stands behind the end of the text changes no item and no report. -/
theorem itemsFrom_cut (file : SourceFile) (c : Cursor) (ds : Diagnostics) :
    itemsFrom file c.cut ds =
      ((itemsFrom file c ds).1, (itemsFrom file c ds).2.1.cut, (itemsFrom file c ds).2.2) := by
  fun_induction itemsFrom file c ds with
  | case1 c ds hstop => rw [itemsFrom_eq, Cursor.atEnd_cut, if_pos hstop]
  | case2 c ds hgo x item hx items c' ds' hrest ih =>
    rw [hrest] at ih
    rw [itemsFrom_eq, Cursor.atEnd_cut, if_neg hgo, item_cut hgo]
    simp only [Attempt.cut, hx, ih, x]
  | case3 c ds hgo x hx ih =>
    rw [itemsFrom_eq, Cursor.atEnd_cut, if_neg hgo, item_cut hgo]
    simp only [Attempt.cut, hx, Cursor.toNextItem_cut, x]
    exact ih

end StateGen.Description
