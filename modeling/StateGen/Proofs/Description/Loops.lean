import StateGen.Proofs.Description.EndOfText
import StateGen.Proofs.Description.Parsing
import StateGen.Proofs.Description.Reports

/-!
# The loops of a reading

A reading goes round in loops: over the tokens behind a mistake, the names of a list, the guards of
an edge, the entries of a block, the items of a description. Here each loop is given by what one of
its rounds does, and nothing in that keeps it from going on for ever: in front of a last token that
is no end of the text, the search for the next item would. Where the end of the text stands behind
the tokens every loop ends, with no more rounds than there are tokens to read and errors to report.
-/

namespace StateGen.Description

/-! ## Loops -/

/-- What one round of a loop comes to: another round from some state, or the result. -/
inductive Round (σ β : Type) where
  | again (s : σ)
  | done (b : β)

/-- The loop ends with a result, after at most `n` rounds that are followed by another one. -/
inductive EndsWithin {σ β : Type} (round : σ → Round σ β) : Nat → σ → β → Prop where
  | done {n : Nat} {s : σ} {b : β} : round s = .done b → EndsWithin round n s b
  | again {n : Nat} {s s' : σ} {b : β} :
    round s = .again s' → EndsWithin round n s' b → EndsWithin round (n + 1) s b

theorem EndsWithin.mono {σ β : Type} {round : σ → Round σ β} {m n : Nat} {s : σ} {b : β}
    (h : EndsWithin round m s b) (hmn : m ≤ n) : EndsWithin round n s b := by
  induction h generalizing n with
  | done hround => exact .done hround
  | again hround _ ih =>
    cases n with
    | zero => omega
    | succ n => exact .again hround (ih (Nat.le_of_succ_le_succ hmn))

/-! ## Behind a mistake -/

namespace Cursor

variable {c : Cursor}

/-- One round of the search for the end of a broken entry. -/
def recoverRound (c : Cursor) : Round Cursor Cursor :=
  if c.atEnd then .done c
  else if c.peek = .semicolon then .done c.advance
  else if c.peek = .rightBrace || startsItem c.peek then .done c
  else .again c.advance

/-- One round of the search for the next item. -/
def nextItemRound (c : Cursor) : Round Cursor Cursor :=
  if c.atEnd || startsItem c.peek then .done c else .again c.advance

/-- A loop that steps over tokens of one sort ends, if the end of the text is not of that sort. -/
private theorem endsWithin_skipWhile {p : Token.Kind → Bool} {round : Cursor → Round Cursor Cursor}
    (result : Cursor → Cursor) (heof : p .eof = false)
    (hdone : ∀ c, p c.peek = false → round c = .done (result c))
    (hagain : ∀ c, p c.peek = true → round c = .again c.advance) (hc : c.Ends) :
    EndsWithin round c.remaining c (result (c.skipWhile p)) := by
  refine skipWhile_induction (motive := fun c c' ↦ c.Ends →
    EndsWithin round c.remaining c (result c')) ?_ ?_ c hc
  · intro c hstay hc
    refine .done (hdone c (hstay.elim id fun hrest ↦ ?_))
    rw [peek, hrest, ← heof]
    exact congrArg p hc
  · intro c c' hstep hrest ih hc
    have hlt := remaining_advance_lt hrest
    have hadvance : c.advance.Ends := (leadsTo_advance (peek_ne_eof heof hstep)).ends hc
    exact (EndsWithin.again (hagain c hstep) (ih hadvance)).mono hlt

theorem endsWithin_recover (hc : c.Ends) :
    EndsWithin recoverRound c.remaining c c.recover := by
  refine endsWithin_skipWhile (fun c ↦ if c.peek = .semicolon then c.advance else c) rfl ?_ ?_ hc
  · intro c hstay
    by_cases hsemicolon : c.peek = .semicolon
    · simp [recoverRound, atEnd, hsemicolon]
    · have hstop : c.atEnd = true ∨ (c.peek = .rightBrace || startsItem c.peek) = true := by
        simp only [Bool.and_eq_false_iff, bne_eq_false_iff_eq, Bool.not_eq_false', hsemicolon,
          or_false] at hstay
        simpa [atEnd, or_assoc] using hstay
      rw [if_neg hsemicolon, recoverRound, if_neg hsemicolon]
      split
      · rfl
      · next hend => rw [if_pos (hstop.resolve_left hend)]
  · intro c hstep
    simp only [Bool.and_eq_true, bne_iff_ne, Bool.not_eq_true'] at hstep
    obtain ⟨⟨⟨heof, hsemicolon⟩, hbrace⟩, hitem⟩ := hstep
    simp [recoverRound, atEnd, heof, hsemicolon, hbrace, hitem]

theorem endsWithin_toNextItem (hc : c.Ends) :
    EndsWithin nextItemRound c.remaining c c.toNextItem := by
  refine endsWithin_skipWhile id rfl (fun c hstay ↦ if_pos ?_) (fun c hstep ↦ if_neg ?_) hc
  · simp only [Bool.and_eq_false_iff, bne_eq_false_iff_eq, Bool.not_eq_false'] at hstay
    simpa [atEnd] using hstay
  · simp only [Bool.and_eq_true, bne_iff_ne, Bool.not_eq_true'] at hstep
    simpa [atEnd] using hstep

/-- In front of a last token that neither is the end of the text nor starts an item, the search for
the next item goes on for ever. -/
theorem not_endsWithin_nextItemRound (hrest : c.rest = []) (heof : c.peek ≠ .eof)
    (hitem : startsItem c.peek = false) {n : Nat} {c' : Cursor} :
    ¬ EndsWithin nextItemRound n c c' := by
  have hround : nextItemRound c = .again c := by
    rw [nextItemRound, if_neg (by simp [atEnd, heof, hitem]), advance_of_rest_eq_nil hrest]
  intro h
  induction h with
  | done hdone => cases hround.symm.trans hdone
  | again hagain _ ih =>
    cases hround.symm.trans hagain
    exact ih hrest heof hitem hround

/-- The next item is found from wherever the search for the end of a broken entry stopped. -/
theorem toNextItem_recover (c : Cursor) : c.recover.toNextItem = c.toNextItem := by
  have hstep {c : Cursor} (heof : c.peek ≠ .eof) (hitem : startsItem c.peek = false) :
      c.advance.toNextItem = c.toNextItem := (skipWhile_advance (by simp [heof, hitem])).symm
  have hskip : (c.skipWhile fun k ↦
      k != .eof && k != .semicolon && k != .rightBrace && !startsItem k).toNextItem =
        c.toNextItem := by
    refine skipWhile_induction (motive := fun c c' ↦ c'.toNextItem = c.toNextItem)
      (fun _ _ ↦ rfl) (fun c c' hskipped _ ih ↦ ?_) c
    simp only [Bool.and_eq_true, bne_iff_ne, Bool.not_eq_true'] at hskipped
    exact ih.trans (hstep hskipped.1.1.1 hskipped.2)
  unfold recover
  dsimp only
  split
  · next hsemicolon => rw [hstep (by simp [hsemicolon]) (by rw [hsemicolon]; rfl), hskip]
  · exact hskip

end Cursor

/-! ## Lists -/

namespace Read

variable {α : Type}

/-- One round of repeated reading, behind the values so far. -/
def repeatRound (go : Cursor → Bool) (p : Read α) :
    Cursor × List α → Round (Cursor × List α) (Except Failure (List α × Cursor))
  | (c, values) =>
    if go c then
      match p c with
      | .error f => .done (.error f)
      | .ok (a, c') => .again (c', values ++ [a])
    else .done (.ok (values, c))

private theorem endsWithin_repeatWhile_behind (go : Cursor → Bool) {p : Read α} (hp : Consumes p)
    (c : Cursor) (values : List α) :
    EndsWithin (repeatRound go p) c.remaining (c, values)
      ((repeatWhile go p hp c).map fun (others, c') ↦ (values ++ others, c')) := by
  -- The loop appends to the values so far, whereas the recursion puts each value in front of the
  -- later ones.
  fun_induction repeatWhile go p hp c generalizing values with
  | case1 c hgo f hpc => exact .done (by simp [repeatRound, hgo, hpc, Except.map])
  | case2 c hgo a c' hpc f hrest ih =>
    have hround : repeatRound go p (c, values) = .again (c', values ++ [a]) := by
      simp [repeatRound, hgo, hpc]
    have hend := ih (values ++ [a])
    rw [hrest] at hend
    exact (EndsWithin.again hround hend).mono (hp.ok hpc)
  | case3 c hgo a c' hpc others c'' hrest ih =>
    have hround : repeatRound go p (c, values) = .again (c', values ++ [a]) := by
      simp [repeatRound, hgo, hpc]
    have hend := ih (values ++ [a])
    rw [hrest] at hend
    simpa [Except.map] using (EndsWithin.again hround hend).mono (hp.ok hpc)
  | case4 c hgo => exact .done (by simp [repeatRound, hgo, Except.map])

/-- Every round of repeated reading takes a token. -/
theorem endsWithin_repeatWhile (go : Cursor → Bool) {p : Read α} (hp : Consumes p) (c : Cursor) :
    EndsWithin (repeatRound go p) c.remaining (c, []) (repeatWhile go p hp c) := by
  have hend := endsWithin_repeatWhile_behind go hp c []
  cases hread : repeatWhile go p hp c with
  | ok r => rwa [hread] at hend
  | error f => rwa [hread] at hend

end Read

/-! ## Blocks and items -/

section

variable {α : Type} (file : SourceFile)

/-- Number of rounds that suffice where every round takes a token or adds an error. -/
def roundsLeft (c : Cursor) (ds : Diagnostics) : Nat :=
  c.remaining + (Diagnostics.capacity - ds.totalErrors)

/-- One round of reading a block, behind the entries so far. -/
def blockRound (p : Read α) :
    Cursor × Diagnostics × List α → Round (Cursor × Diagnostics × List α) (Attempt (List α))
  | (c, ds, entries) =>
    if !Read.inBlock c then .done ⟨some entries, c, ds⟩
    else if ds.isFull then .done ⟨none, c, ds⟩
    else
      match p c with
      | .ok (entry, c') => .again (c', ds, entries ++ [entry])
      | .error f => .again (f.cursor.recover, f.report file ds, entries)

/-- One round of reading items, behind the items so far. -/
def itemRound :
    Cursor × Diagnostics × List Item →
      Round (Cursor × Diagnostics × List Item) (List Item × Cursor × Diagnostics)
  | (c, ds, items) =>
    if c.atEnd || ds.isFull then .done (items, c, ds)
    else
      let x := itemRest file c.peek c.span c.advance ds
      match x.value with
      | some item => .again (x.cursor, x.diagnostics, items ++ [item])
      | none => .again (x.cursor.toNextItem, x.diagnostics, items)

private theorem totalErrors_lt_of_not_isFull {ds : Diagnostics} (h : ¬ ds.isFull = true) :
    ds.totalErrors < Diagnostics.capacity := by
  simpa [Diagnostics.isFull] using h

private theorem endsWithin_block_behind {p : Read α} (hp : p.Consumes) (c : Cursor)
    (ds : Diagnostics) (entries : List α) :
    EndsWithin (blockRound file p) (roundsLeft c ds) (c, ds, entries)
      { block file p hp c ds with value := (block file p hp c ds).value.map (entries ++ ·) } := by
  fun_induction block file p hp c ds generalizing entries with
  | case1 c ds hin => exact .done (by simp [blockRound, hin])
  | case2 c ds hin hfull => exact .done (by simp [blockRound, hin, hfull])
  | case3 c ds hin hfull entry c' hpc rest ih =>
    have hround : blockRound file p (c, ds, entries) = .again (c', ds, entries ++ [entry]) := by
      simp [blockRound, hin, hfull, hpc]
    have hless : roundsLeft c' ds + 1 ≤ roundsLeft c ds := by
      have htaken := hp.ok hpc
      unfold roundsLeft
      omega
    have hend := (EndsWithin.again hround (ih (entries ++ [entry]))).mono hless
    simpa [Function.comp_def] using hend
  | case4 c ds hin hfull f hpc ih =>
    have hround : blockRound file p (c, ds, entries) =
        .again (f.cursor.recover, f.report file ds, entries) := by
      simp [blockRound, hin, hfull, hpc]
    -- In front of an item the cursor stays where it is, and only the error brings the loop on.
    have hless : roundsLeft f.cursor.recover (f.report file ds) + 1 ≤ roundsLeft c ds := by
      have hkept := Nat.le_trans f.cursor.remaining_recover_le (hp.fail hpc)
      have hroom := totalErrors_lt_of_not_isFull hfull
      rw [roundsLeft, totalErrors_report, roundsLeft]
      omega
    exact (EndsWithin.again hround (ih entries)).mono hless

/-- Every round of a block takes a token or adds an error. -/
theorem endsWithin_block {p : Read α} (hp : p.Consumes) (c : Cursor) (ds : Diagnostics) :
    EndsWithin (blockRound file p) (roundsLeft c ds) (c, ds, []) (block file p hp c ds) := by
  simpa using endsWithin_block_behind file hp c ds []

/-- An item that was read leaves less to do than there was in front of it. -/
private theorem roundsLeft_item_lt {c c' : Cursor} {ds : Diagnostics}
    (hgo : ¬ (c.atEnd || ds.isFull) = true)
    (hkept : c'.remaining ≤ (itemRest file c.peek c.span c.advance ds).cursor.remaining) :
    roundsLeft c' (itemRest file c.peek c.span c.advance ds).diagnostics + 1 ≤ roundsLeft c ds := by
  have hgrows : ds.totalErrors ≤
      (itemRest file c.peek c.span c.advance ds).diagnostics.totalErrors :=
    (Attempt.reports_item c ds).totalErrors_le
  have hfull : ¬ ds.isFull = true := fun hfull ↦ hgo (by simp [hfull])
  have hroom := totalErrors_lt_of_not_isFull hfull
  unfold roundsLeft
  rcases remaining_itemRest_lt_or file c ds with hlt | ⟨hle, hfail⟩
  · omega
  · rw [hfail.totalErrors]
    omega

private theorem endsWithin_itemsFrom_behind (c : Cursor) (ds : Diagnostics) (items : List Item) :
    EndsWithin (itemRound file) (roundsLeft c ds) (c, ds, items)
      (items ++ (itemsFrom file c ds).1, (itemsFrom file c ds).2) := by
  fun_induction itemsFrom file c ds generalizing items with
  | case1 c ds hstop => exact .done (by simp [itemRound, hstop])
  | case2 c ds hgo x item hx others c' ds' hrest ih =>
    have hround : itemRound file (c, ds, items) =
        .again (x.cursor, x.diagnostics, items ++ [item]) := by
      rw [itemRound, if_neg hgo]
      simp only [hx, x]
    have hend := ih (items ++ [item])
    rw [hrest, List.append_assoc] at hend
    exact (EndsWithin.again hround hend).mono (roundsLeft_item_lt file hgo (Nat.le_refl _))
  | case3 c ds hgo x hx ih =>
    have hround : itemRound file (c, ds, items) =
        .again (x.cursor.toNextItem, x.diagnostics, items) := by
      rw [itemRound, if_neg hgo]
      simp only [hx, x]
    exact (EndsWithin.again hround (ih items)).mono
      (roundsLeft_item_lt file hgo x.cursor.remaining_toNextItem_le)

/-- Every round of reading items takes a token or adds an error. -/
theorem endsWithin_itemsFrom (c : Cursor) (ds : Diagnostics) :
    EndsWithin (itemRound file) (roundsLeft c ds) (c, ds, []) (itemsFrom file c ds) :=
  endsWithin_itemsFrom_behind file c ds []

end

/-! ## The whole description -/

/-- The cursor in front of a whole list, with all that stands behind its first `eof`. Behind the
list its last token is read again and again, and behind the empty list the end of the file. -/
def Cursor.whole (file : SourceFile) (tokens : List Token) : Cursor where
  previous := .point .start
  rest := tokens
  finish := tokens.getLast?.getD ⟨.eof, file.endSpan⟩

namespace Cursor

variable {file : SourceFile} {tokens : List Token}

theorem cut_whole (file : SourceFile) (tokens : List Token) :
    (whole file tokens).cut = ofTokens file tokens := by
  unfold whole cut ofTokens
  cases tokens.find? (·.kind == .eof) with
  | some t => rfl
  | none =>
    cases tokens.getLast? with
    | some t => rfl
    | none => rfl

theorem ends_whole (h : ∀ t ∈ tokens.getLast?, t.kind = .eof) : (whole file tokens).Ends := by
  unfold Ends whole
  cases hlast : tokens.getLast? with
  | some t => exact h t hlast
  | none => rfl

end Cursor

/-- The loops that can start at a cursor end, and none of them leads over an end of the text. -/
structure LoopsEnd (file : SourceFile) (c : Cursor) : Prop where
  recover : EndsWithin Cursor.recoverRound c.remaining c c.recover ∧ c.LeadsTo c.recover
  /-- The search for the next item starts where the one for the end of an entry stopped. -/
  nextItem : EndsWithin Cursor.nextItemRound c.remaining c.recover c.toNextItem ∧
    c.LeadsTo c.toNextItem
  names :
    let others := Read.repeatWhile (fun c ↦ c.peek == .comma) Read.commaIdentifier
      Read.consumes_commaIdentifier c
    EndsWithin (Read.repeatRound (fun c ↦ c.peek == .comma) Read.commaIdentifier) c.remaining
      (c, []) others ∧ c.LeadsTo (Read.stop others)
  guards :
    let guards := Read.repeatWhile Read.inBlock Read.edgeGuards Read.consumes_edgeGuards c
    EndsWithin (Read.repeatRound Read.inBlock Read.edgeGuards) c.remaining (c, []) guards ∧
      c.LeadsTo (Read.stop guards)
  hooks : ∀ ds,
    let hooks := block file Read.eventHooks Read.consumes_eventHooks c ds
    EndsWithin (blockRound file Read.eventHooks) (roundsLeft c ds) (c, ds, []) hooks ∧
      c.LeadsTo hooks.cursor
  entries : ∀ ds,
    let entries := block file Read.stateEntry Read.consumes_stateEntry c ds
    EndsWithin (blockRound file Read.stateEntry) (roundsLeft c ds) (c, ds, []) entries ∧
      c.LeadsTo entries.cursor

theorem loopsEnd (file : SourceFile) {c : Cursor} (hc : c.Ends) : LoopsEnd file c where
  recover := ⟨Cursor.endsWithin_recover hc, c.leadsTo_recover⟩
  nextItem := by
    have hend := Cursor.endsWithin_toNextItem (c.leadsTo_recover.ends hc)
    rw [Cursor.toNextItem_recover] at hend
    exact ⟨hend.mono c.remaining_recover_le, c.leadsTo_toNextItem⟩
  names := ⟨Read.endsWithin_repeatWhile _ _ c, (Read.stopsAtEnd_repeatWhile _
    (fun c ↦ by rw [Cursor.peek_cut]) Read.stopsAtEnd_commaIdentifier).leadsTo c⟩
  guards := ⟨Read.endsWithin_repeatWhile _ _ c, (Read.stopsAtEnd_repeatWhile _
    Read.inBlock_cut Read.stopsAtEnd_edgeGuards).leadsTo c⟩
  hooks ds := ⟨endsWithin_block file _ c ds,
    (Attempt.stopsAtEnd_block Read.stopsAtEnd_eventHooks).leadsTo c ds⟩
  entries ds := ⟨endsWithin_block file _ c ds,
    (Attempt.stopsAtEnd_block Read.stopsAtEnd_stateEntry).leadsTo c ds⟩

/-- A reading of tokens that end with the end of the text, or of none, ends with a description.
So does every loop on its way, and none of them leads over the first end of the text. Nothing that
stands behind it makes a difference. -/
theorem reading_terminates (file : SourceFile) (tokens : List Token)
    (hend : ∀ t ∈ tokens.getLast?, t.kind = .eof) :
    (∃ items c ds,
      EndsWithin (itemRound file) (tokens.length + Diagnostics.capacity)
        (.whole file tokens, .empty, []) (items, c, ds) ∧
      (Cursor.whole file tokens).LeadsTo c ∧
      ofTokens file tokens =
        (⟨items, (Cursor.whole file tokens).span.cover c.previous⟩, ds)) ∧
    (∀ c, (Cursor.whole file tokens).LeadsTo c → LoopsEnd file c) ∧
    ∀ read finish behind behind', tokens = read ++ finish :: behind →
      (∀ t ∈ read, t.kind ≠ .eof) → finish.kind = .eof →
        ofTokens file (read ++ finish :: behind') = ofTokens file tokens := by
  refine ⟨?_, fun c hc ↦ loopsEnd file (hc.ends (Cursor.ends_whole hend)), ?_⟩
  · have hitems := endsWithin_itemsFrom file (.whole file tokens) .empty
    have hleads := leadsTo_itemsFrom file (.whole file tokens) .empty
    have hcut := itemsFrom_cut file (.whole file tokens) .empty
    refine ⟨_, _, _, hitems, hleads, ?_⟩
    rw [ofTokens, ← Cursor.cut_whole, hcut, Cursor.span_cut]
    rfl
  · rintro read finish behind behind' rfl hread hfinish
    rw [ofTokens, ofTokens, cursor_ofTokens file hread hfinish,
      cursor_ofTokens file hread hfinish]

/-- A state with an item in its block, which fills the store of errors, and tokens behind the end of
the text. -/
def itemInBlock : List Token :=
  [⟨.keyword .state, ⟨1, 1, 1, 5⟩⟩, ⟨.word "A", ⟨1, 7, 1, 7⟩⟩, ⟨.leftBrace, ⟨1, 9, 1, 9⟩⟩,
    ⟨.keyword .event, ⟨1, 11, 1, 15⟩⟩, ⟨.eof, ⟨1, 16, 1, 16⟩⟩, ⟨.semicolon, ⟨1, 18, 1, 18⟩⟩,
    ⟨.eof, ⟨1, 19, 1, 19⟩⟩]

theorem reading_terminates_itemInBlock :
    let file : SourceFile := ⟨"machine", "state A \x7b event ;"⟩
    (∀ t ∈ itemInBlock.getLast?, t.kind = .eof) ∧
      (∃ items c ds,
        EndsWithin (itemRound file) 27 (.whole file itemInBlock, .empty, []) (items, c, ds) ∧
        (Cursor.whole file itemInBlock).LeadsTo c) ∧
      LoopsEnd file (.whole file itemInBlock) := by
  intro file
  have hend : ∀ t ∈ itemInBlock.getLast?, t.kind = .eof := by
    rintro t ⟨⟩
    rfl
  obtain ⟨⟨items, c, ds, hitems, hleads, -⟩, hloops, -⟩ :=
    reading_terminates file itemInBlock hend
  exact ⟨hend, ⟨items, c, ds, hitems, hleads⟩, hloops _ (.refl _)⟩

end StateGen.Description
