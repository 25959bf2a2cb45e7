import StateGen.Proofs.Description.Blame
import StateGen.Proofs.Description.Parsing

/-!
# Mistakes that are reported again

Behind a mistake the reading goes on at a later token than the one that was blamed, so that reports
differ at least in their places. There are two exceptions. A block does not get past a word that
starts an item and reports it until the store is full. And an edge whose block is still open at the
end of the text is reported there together with the state around it, in the same words. Nothing is
reported behind either of them.
-/

namespace StateGen.Description

open Diagnostic (Mark)
open Diagnostics (ofMarks isFull_ofMarks)

/-! ## Blocks -/

private theorem ne_of_startsItem {kind kind' : Token.Kind} (h : startsItem kind)
    (h' : startsItem kind' = false) : kind ≠ kind' := by
  rintro rfl
  cases h.symm.trans h'

namespace Cursor

variable {c : Cursor}

private theorem skipTokens_stops (p : Token.Kind → Bool) (previous : Span) (ts : List Token) :
    (skipTokens p previous ts).2 = [] ∨
      ∃ t ts', (skipTokens p previous ts).2 = t :: ts' ∧ p t.kind = false := by
  fun_induction skipTokens p previous ts with
  | case1 => exact .inl rfl
  | case2 previous t ts hp ih => exact ih
  | case3 previous t ts hp => exact .inr ⟨t, ts, rfl, by simpa using hp⟩

/-- Behind what is skipped an item starts, or nothing is left. -/
theorem startsItem_toNextItem (hc : c.WellPlaced) :
    startsItem c.toNextItem.peek ∨ c.toNextItem.rest = [] := by
  rcases skipTokens_stops (fun k ↦ k != .eof && !startsItem k) c.previous c.rest with
    hnil | ⟨t, ts, hts, ht⟩
  · exact .inr hnil
  · refine .inl ?_
    have hrest : c.toNextItem.rest = t :: ts := hts
    have heof : t.kind ≠ .eof :=
      (hc.reaches (reaches_skipWhile _ c)).inner t (hts ▸ List.mem_cons_self)
    rw [peek, hrest]
    simpa [heof] using ht

/-- In front of an item there is nothing to skip. -/
theorem recover_of_startsItem (h : startsItem c.peek) : c.recover = c := by
  rw [recover, skipWhile_of_not (by simp [h]), if_neg (ne_of_startsItem h rfl)]

/-- Going on behind a mistake gets on, unless the block ends or an item starts. -/
theorem remaining_recover_lt (hc : c.WellPlaced) (hrest : c.rest ≠ [])
    (hbrace : c.peek ≠ .rightBrace) (hitem : ¬ startsItem c.peek) :
    c.recover.remaining < c.remaining := by
  obtain ⟨previous, rest, finish⟩ := c
  cases rest with
  | nil => exact absurd rfl hrest
  | cons t ts =>
    by_cases hsemicolon : t.kind = .semicolon
    · rw [recover, skipWhile_of_not (by simp [peek, hsemicolon])]
      simp [peek, hsemicolon, advance, remaining]
    · have hskip : recover ⟨previous, t :: ts, finish⟩ = recover ⟨t.span, ts, finish⟩ := by
        have heof : t.kind ≠ .eof := hc.inner t List.mem_cons_self
        rw [peek] at hbrace hitem
        rw [recover, skipWhile_advance (by simp [peek, heof, hsemicolon, hbrace, hitem])]
        rfl
      rw [hskip]
      exact Nat.lt_succ_of_le (remaining_recover_le ⟨t.span, ts, finish⟩)

/-- A place that the search for the end of a broken entry does not leave. -/
def Halts (c : Cursor) : Prop := c.rest = [] ∨ c.peek = .rightBrace ∨ startsItem c.peek

theorem halts_recover (hc : c.WellPlaced) (h : c.recover.rest = c.rest) : c.recover.Halts := by
  rw [Halts, h, peek_congr c.reaches_recover h]
  by_contra hleaves
  simp only [not_or] at hleaves
  have hlt := remaining_recover_lt hc hleaves.1 hleaves.2.1 hleaves.2.2
  rw [remaining, remaining, h] at hlt
  exact Nat.lt_irrefl _ hlt

end Cursor

/-- The reports differ, but for the last one. It may be there twice at the end of a text in which
the block of an edge is not closed. In front of an item inside a block it is repeated until the
store is full. -/
inductive AlmostDistinct (tokens : List Token) (finish : Token) : List Mark → Prop where
  | distinct {ms : List Mark} : ms.Nodup → AlmostDistinct tokens finish ms
  | unclosed {before : List Mark} {m : Mark} :
    m = Mistake.mark (.expected .rightBrace .eof) finish.span → (before ++ [m]).Nodup →
      AlmostDistinct tokens finish (before ++ [m, m])
  | stuck {before : List Mark} {n : Nat} {t : Token} {mistake : Mistake} :
    t ∈ tokens → startsItem t.kind →
      mistake ∈ [Mistake.unexpectedInState t.kind, Mistake.expectedEventHook t.kind] →
      (before ++ [mistake.mark t.span]).Nodup →
      (before ++ List.replicate n (mistake.mark t.span)).length = Diagnostics.capacity →
      AlmostDistinct tokens finish (before ++ List.replicate n (mistake.mark t.span))

/-- Nothing more is reported: the end of the text is next, or the store is full. -/
def Over (o c : Cursor) (ms : List Mark) : Prop :=
  AlmostDistinct o.rest o.finish ms ∧ (c.atEnd ∨ Diagnostics.capacity ≤ ms.length)

/-- A reading function for the entries of a block. Where an item starts it finds none. -/
structure ReadsEntries {α : Type} (p : Read α) (refusal : Token.Kind → Mistake) : Prop where
  tracks : p.Tracks
  refuses : ∀ {c : Cursor}, startsItem c.peek → p c = .error ⟨refusal c.peek, c.span, c⟩
  refusal_mem : ∀ kind,
    refusal kind ∈ [Mistake.unexpectedInState kind, Mistake.expectedEventHook kind]

theorem readsEntries_stateEntry : ReadsEntries Read.stateEntry .unexpectedInState where
  tracks := Read.tracks_stateEntry
  refuses := by
    intro c h
    have hrest : Read.stateEntryRest c.peek = none := by
      unfold startsItem at h
      split at h <;> simp_all [Read.stateEntryRest]
    rw [Read.stateEntry, Read.dispatch, hrest]
  refusal_mem kind := List.mem_cons_self

theorem readsEntries_eventHooks : ReadsEntries Read.eventHooks .expectedEventHook where
  tracks := Read.tracks_eventHooks
  refuses := by
    intro c h
    have hrest : Read.eventHooksRest c.peek = none := by
      unfold startsItem at h
      split at h <;> simp_all [Read.eventHooksRest]
    rw [Read.eventHooks, Read.dispatch, hrest]
  refusal_mem kind := List.mem_cons_of_mem _ List.mem_cons_self

section

-- `o` stands in front of the whole text, and `c` somewhere behind it.
variable {α β : Type} {file : SourceFile} {o c : Cursor} {ms : List Mark} {p : Read α}
  {refusal : Token.Kind → Mistake}

private theorem inBlock_of_startsItem (h : startsItem c.peek) : Read.inBlock c = true := by
  have hbrace : c.peek ≠ .rightBrace := ne_of_startsItem h rfl
  have hend : c.peek ≠ .eof := ne_of_startsItem h rfl
  simp [Read.inBlock, Cursor.atEnd, hbrace, hend]

/-- In front of an item a block reports the same mistake until the store is full. -/
theorem block_stuck (he : ReadsEntries p refusal) (hp : p.Consumes) (h : startsItem c.peek)
    (ms : List Mark) :
    block file p hp c (ofMarks file ms) =
      ⟨none, c, ofMarks file (ms ++
        List.replicate (Diagnostics.capacity - ms.length) ((refusal c.peek).mark c.span))⟩ := by
  have hin := inBlock_of_startsItem h
  induction hroom : Diagnostics.capacity - ms.length generalizing ms with
  | zero =>
    have hfull : (ofMarks file ms).isFull := isFull_ofMarks.2 (by omega)
    rw [block]
    simp [hin, hfull]
  | succ k ih =>
    have hfull : ¬ (ofMarks file ms).isFull := fun hfull ↦ by
      have := isFull_ofMarks.1 hfull
      omega
    rw [block]
    simp only [hin, Bool.not_true, Bool.false_eq_true, if_false, hfull, dite_false]
    split
    · next hpc => cases (he.refuses h).symm.trans hpc
    · next f hpc =>
      cases (he.refuses h).symm.trans hpc
      rw [Cursor.recover_of_startsItem h, Failure.report_ofMarks, ih]
      · simp [List.replicate_succ, Failure.mark]
      · simp
        omega

/-- Repetitions of one report behind others that are fresh or blame the same token. -/
private theorem almostDistinct_stuck (he : ReadsEntries p refusal) (ho : o.WellPlaced)
    (hreaches : o.Reaches c) (h : startsItem c.peek) (hms : Fresh c ms ∨ Blamed c ms) {n : Nat}
    (hlength : ms.length + n = Diagnostics.capacity) :
    AlmostDistinct o.rest o.finish (ms ++ List.replicate n ((refusal c.peek).mark c.span)) := by
  obtain ⟨t, ts, hrest⟩ : ∃ t ts, c.rest = t :: ts := by
    refine List.exists_cons_of_ne_nil fun hrest ↦ ?_
    exact ne_of_startsItem h rfl (beq_iff_eq.1 ((ho.reaches hreaches).atEnd_iff.2 hrest))
  have hkind : c.peek = t.kind := by rw [Cursor.peek, hrest]
  have hspan : c.span = t.span := by rw [Cursor.span, hrest]
  rw [hkind] at h ⊢
  rw [hspan]
  generalize hm : (refusal t.kind).mark t.span = m
  have hmem : m.span ∈ c.spans := by
    rw [← hm]
    exact hspan ▸ c.span_mem_spans
  have hstuck {before : List Mark} {k : Nat} (hdistinct : (before ++ [m]).Nodup)
      (hk : before.length + k = Diagnostics.capacity) :
      AlmostDistinct o.rest o.finish (before ++ List.replicate k m) := by
    subst hm
    have ht : t ∈ o.rest := hreaches.rest.subset (hrest ▸ List.mem_cons_self)
    exact .stuck ht h (he.refusal_mem t.kind) hdistinct (by simpa using hk)
  rcases hms with hfresh | hblamed
  · exact hstuck (hfresh.snoc hmem) hlength
  · rcases hblamed.snoc hmem with hnew | ⟨before, rfl⟩
    · exact hstuck hnew hlength
    · rw [List.append_assoc, List.singleton_append, ← List.replicate_succ]
      refine hstuck hblamed.nodup ?_
      rw [List.length_append, List.length_singleton] at hlength
      omega

/-- A block that was read to its end, with fresh reports or one that blames the next token, or one
that was given up, and then nothing more is reported. -/
def EndsBlock (o : Cursor) (file : SourceFile) (x : Attempt (List α)) : Prop :=
  ∃ ms, x.diagnostics = ofMarks file ms ∧ o.Reaches x.cursor ∧
    (x.value.isSome ∧ Read.inBlock x.cursor = false ∧
        (Fresh x.cursor ms ∨ Blamed x.cursor ms) ∨
      x.value = none ∧ Over o x.cursor ms)

private theorem startsItem_of_halts (hin : ¬ (!Read.inBlock c) = true) (hc : c.Ends)
    (h : c.Halts) : startsItem c.peek := by
  rcases h with hrest | hbrace | hitem
  · have hpeek : c.peek = .eof := by
      rw [Cursor.peek, hrest]
      exact hc
    simp [Read.inBlock, Cursor.atEnd, hpeek] at hin
  · simp [Read.inBlock, hbrace] at hin
  · exact hitem

theorem endsBlock_block (he : ReadsEntries p refusal) (hp : p.Consumes) (ho : o.WellPlaced)
    (hreaches : o.Reaches c) (hms : Fresh c ms ∨ Blamed c ms ∧ c.Halts) :
    EndsBlock o file (block file p hp c (ofMarks file ms)) := by
  generalize hds : ofMarks file ms = ds
  -- A round that fails gets past the token that it blames, or halts there. It halts inside the
  -- block only in front of an item, and from there `block_stuck` tells the rest.
  fun_induction block file p hp c ds generalizing ms with
  | case1 c ds hin =>
    exact ⟨ms, hds.symm, hreaches, .inl ⟨rfl, by simpa using hin, hms.imp_right And.left⟩⟩
  | case2 c ds hin hfull =>
    subst hds
    have hnodup : ms.Nodup := hms.elim Fresh.nodup fun h ↦ h.1.nodup
    exact ⟨ms, rfl, hreaches, .inr ⟨rfl, .distinct hnodup, .inr (isFull_ofMarks.1 hfull)⟩⟩
  | case3 c ds hin hfull b c' hpc rest =>
    rename_i ih
    have hc := ho.reaches hreaches
    have hitem : ¬ startsItem c.peek := fun hitem ↦ by
      cases (he.refuses hitem).symm.trans hpc
    have hfresh : Fresh c ms :=
      hms.resolve_right fun h ↦ hitem (startsItem_of_halts hin hc.ends h.2)
    have hon := he.tracks.ok hpc
    obtain ⟨ms', hds', hreaches', hend⟩ :=
      ih (hreaches.trans hon) (.inl (hfresh.reaches hon)) hds
    refine ⟨ms', hds', hreaches', ?_⟩
    simpa using hend
  | case4 c ds hin hfull f hpc ih =>
    subst hds
    rw [Failure.report_ofMarks] at ih ⊢
    have hc := ho.reaches hreaches
    by_cases hitem : startsItem c.peek
    · cases (he.refuses hitem).symm.trans hpc
      have hroom : ms.length < Diagnostics.capacity := by
        simpa [isFull_ofMarks] using hfull
      rw [Cursor.recover_of_startsItem hitem, block_stuck he hp hitem, List.append_assoc,
        List.singleton_append, Failure.mark, ← List.replicate_succ, List.length_append,
        List.length_singleton]
      refine ⟨_, rfl, hreaches, .inr ⟨rfl, ?_, .inr ?_⟩⟩
      · exact almostDistinct_stuck he ho hreaches hitem (hms.imp_right And.left) (by omega)
      · rw [List.length_append, List.length_replicate]
        omega
    · have hfresh : Fresh c ms :=
        hms.resolve_right fun h ↦ hitem (startsItem_of_halts hin hc.ends h.2)
      have hfollows := he.tracks.fail hc.nodup hpc
      have hrecover := f.cursor.reaches_recover
      refine ih (hreaches.trans (hfollows.reaches.trans hrecover)) ?_ rfl
      rcases hfollows.report hfresh with hbehind | hblamed
      · exact .inl (hbehind.reaches hrecover)
      · exact (hblamed.reaches (hc.reaches hfollows.reaches) hrecover).imp_right fun h ↦
          ⟨h.1, Cursor.halts_recover (hc.reaches hfollows.reaches) h.2⟩

/-! ## Attempts -/

/-- An attempt that reports every mistake once, or one behind which nothing more is reported. -/
def Settles (o : Cursor) (file : SourceFile) (x : Attempt α) : Prop :=
  ∃ ms, x.diagnostics = ofMarks file ms ∧ o.Reaches x.cursor ∧
    (Fresh x.cursor ms ∨ x.value = none ∧ (Blamed x.cursor ms ∨ Over o x.cursor ms))

/-- Attempts that settle in front of tokens that were not blamed. -/
def Careful (o : Cursor) (file : SourceFile) (g : Cursor → Diagnostics → Attempt α) : Prop :=
  ∀ c ms, o.Reaches c → Fresh c ms → Settles o file (g c (ofMarks file ms))

theorem careful_done (value : Cursor → α) : Careful o file fun c ds ↦ ⟨some (value c), c, ds⟩ :=
  fun _ ms hreaches hms ↦ ⟨ms, rfl, hreaches, .inl hms⟩

theorem careful_ofRead (ho : o.WellPlaced) (hp : p.Tracks) :
    Careful o file (Attempt.ofRead file p) := by
  intro c ms hreaches hms
  unfold Attempt.ofRead
  split
  · next a c' hpc =>
    have hon := hp.ok hpc
    exact ⟨ms, rfl, hreaches.trans hon, .inl (hms.reaches hon)⟩
  · next f hpc =>
    have hfollows := hp.fail (ho.reaches hreaches).nodup hpc
    exact ⟨_, f.report_ofMarks file ms, hreaches.trans hfollows.reaches,
      (hfollows.report hms).imp_right fun hblamed ↦ ⟨rfl, .inl hblamed⟩⟩

theorem Settles.andThen {x : Attempt α} {f : α → Cursor → Diagnostics → Attempt β}
    (hx : Settles o file x) (hf : ∀ a, Careful o file (f a)) : Settles o file (x.andThen f) := by
  obtain ⟨ms, hds, hreaches, h⟩ := hx
  unfold Attempt.andThen
  split
  · next a hvalue =>
    have hfresh : Fresh x.cursor ms := h.resolve_right fun h ↦ by cases hvalue.symm.trans h.1
    rw [hds]
    exact hf a x.cursor ms hreaches hfresh
  · exact ⟨ms, hds, hreaches, h.imp_right fun h ↦ ⟨rfl, h.2⟩⟩

theorem Careful.andThen {g : Cursor → Diagnostics → Attempt α}
    {f : α → Cursor → Diagnostics → Attempt β} (hg : Careful o file g)
    (hf : ∀ a, Careful o file (f a)) : Careful o file fun c ds ↦ (g c ds).andThen f :=
  fun c ms hreaches hms ↦ (hg c ms hreaches hms).andThen hf

/-- The brace behind a block. If it is missing, the end of the text is blamed, which may have been
blamed for the brace of an edge before. -/
private theorem settles_rightBrace (ho : o.WellPlaced) (hreaches : o.Reaches c)
    (hin : Read.inBlock c = false) (hms : Fresh c ms ∨ Blamed c ms) :
    Settles o file (Attempt.ofRead file (Read.expect .rightBrace) c (ofMarks file ms)) := by
  have hc := ho.reaches hreaches
  rw [Attempt.ofRead, Read.expect]
  by_cases hpeek : c.peek = .rightBrace
  · have hend : ¬ c.atEnd := by simp [Cursor.atEnd, hpeek]
    rw [if_pos hpeek]
    exact ⟨ms, rfl, hreaches.trans c.reaches_advance, .inl (fresh_advance hc hend hms)⟩
  · have hend : c.atEnd := by simpa [Read.inBlock, hpeek] using hin
    rw [if_neg hpeek]
    refine ⟨_, Failure.report_ofMarks _ file ms, hreaches, .inr ⟨rfl, ?_⟩⟩
    have hmem : (Failure.mark ⟨.expected .rightBrace c.peek, c.span, c⟩).span ∈ c.spans :=
      c.span_mem_spans
    rcases hms with hfresh | hblamed
    · exact .inl ⟨ms, _, rfl, hfresh, rfl⟩
    · refine .inr ⟨?_, .inl hend⟩
      rcases hblamed.snoc hmem with hnew | ⟨before, rfl⟩
      · exact .distinct hnew
      · have hrest := hc.atEnd_iff.1 hend
        have hspan : c.span = o.finish.span := by rw [Cursor.span, hrest, hreaches.finish]
        rw [List.append_assoc]
        refine .unclosed ?_ hblamed.nodup
        rw [Failure.mark, hspan, beq_iff_eq.1 hend]

theorem EndsBlock.andThen {x : Attempt (List α)}
    {f : List α → Cursor → Diagnostics → Attempt β} (hx : EndsBlock o file x)
    (hf : ∀ {entries c ms}, o.Reaches c → Read.inBlock c = false → Fresh c ms ∨ Blamed c ms →
      Settles o file (f entries c (ofMarks file ms))) : Settles o file (x.andThen f) := by
  obtain ⟨ms, hds, hreaches, h⟩ := hx
  unfold Attempt.andThen
  rcases h with ⟨hvalue, hin, hms⟩ | ⟨hvalue, hover⟩
  · obtain ⟨entries, hvalue⟩ := Option.isSome_iff_exists.1 hvalue
    rw [hvalue, hds]
    exact hf hreaches hin hms
  · rw [hvalue]
    exact ⟨ms, hds, hreaches, .inr ⟨rfl, .inr hover⟩⟩

theorem careful_body (he : ReadsEntries p refusal) (hp : p.Consumes) (ho : o.WellPlaced) :
    Careful o file (body file p hp) := by
  unfold body
  refine (careful_ofRead ho Read.tracks_opensBlock).andThen fun opens ↦ ?_
  cases opens with
  | false => exact careful_done _
  | true =>
    intro c ms hreaches hms
    refine (endsBlock_block he hp ho hreaches (.inl hms)).andThen fun hreaches' hin hms' ↦ ?_
    exact (settles_rightBrace ho hreaches' hin hms').andThen fun _ ↦ careful_done _

/-! ## Items -/

theorem careful_eventItem (ho : o.WellPlaced) (start : Span) :
    Careful o file (eventItem file start) :=
  (careful_ofRead ho Read.tracks_identifier).andThen fun _ ↦
    (careful_body readsEntries_eventHooks _ ho).andThen fun _ ↦ careful_done _

theorem careful_stateItem (ho : o.WellPlaced) (start : Span) :
    Careful o file (stateItem file start) :=
  (careful_ofRead ho Read.tracks_stateHead).andThen fun _ ↦
    (careful_body readsEntries_stateEntry _ ho).andThen fun _ ↦ careful_done _

theorem settles_item (ho : o.WellPlaced) (hreaches : o.Reaches c) (hend : ¬ c.atEnd)
    (hms : Fresh c ms ∨ Blamed c ms ∧ startsItem c.peek) :
    Settles o file (itemRest file c.peek c.span c.advance (ofMarks file ms)) := by
  have hc := ho.reaches hreaches
  have hadvance := hreaches.trans c.reaches_advance
  have hbehind := fresh_advance hc hend (hms.imp_right And.left)
  unfold itemRest
  split
  · exact ((careful_ofRead ho (Read.tracks_optionItem _)).andThen fun _ ↦ careful_done _)
      _ _ hadvance hbehind
  · exact ((careful_ofRead ho (Read.tracks_initialItem _)).andThen fun _ ↦ careful_done _)
      _ _ hadvance hbehind
  · exact ((careful_eventItem ho _).andThen fun _ ↦ careful_done _) _ _ hadvance hbehind
  · exact ((careful_stateItem ho _).andThen fun _ ↦ careful_done _) _ _ hadvance hbehind
  · next hoption hinitial hevent hstate =>
    have hfresh : Fresh c ms := by
      refine hms.resolve_right fun h ↦ ?_
      have hitem := h.2
      unfold startsItem at hitem
      split at hitem <;> simp_all
    have hfollows : Failure.Follows ⟨.expectedItem c.peek, c.span, c.advance⟩ c :=
      ⟨c.reaches_advance, c.span_mem_spans, fun h ↦ absurd h (hc.span_not_mem_advance hend)⟩
    exact ⟨_, Failure.report_ofMarks _ file ms, hadvance,
      (hfollows.report hfresh).imp_right fun hblamed ↦ ⟨rfl, .inl hblamed⟩⟩

/-- What is known between items: the reports are fresh, or the last one blames an item or the end,
or there will be no more of them. -/
def BetweenItems (o c : Cursor) (ms : List Mark) : Prop :=
  Fresh c ms ∨ Blamed c ms ∧ (startsItem c.peek ∨ c.rest = []) ∨ Over o c ms

theorem BetweenItems.almostDistinct (h : BetweenItems o c ms) :
    AlmostDistinct o.rest o.finish ms := by
  rcases h with hfresh | ⟨hblamed, -⟩ | hover
  · exact .distinct hfresh.nodup
  · exact .distinct hblamed.nodup
  · exact hover.1

theorem BetweenItems.goes_on (h : BetweenItems o c ms) (hc : c.WellPlaced) (hend : ¬ c.atEnd)
    (hfull : ¬ Diagnostics.capacity ≤ ms.length) :
    Fresh c ms ∨ Blamed c ms ∧ startsItem c.peek := by
  rcases h with hfresh | ⟨hblamed, hitem | hrest⟩ | ⟨-, hover | hover⟩
  · exact .inl hfresh
  · exact .inr ⟨hblamed, hitem⟩
  · exact absurd (hc.atEnd_iff.2 hrest) hend
  · exact absurd hover hend
  · exact absurd hover hfull

private theorem settles_item_of_goes_on (ho : o.WellPlaced) (hreaches : o.Reaches c)
    (hgo : ¬ (c.atEnd || (ofMarks file ms).isFull) = true) (hms : BetweenItems o c ms) :
    Settles o file (itemRest file c.peek c.span c.advance (ofMarks file ms)) := by
  obtain ⟨hend, hfull⟩ : ¬ c.atEnd ∧ ¬ Diagnostics.capacity ≤ ms.length := by
    rwa [Bool.or_eq_true, isFull_ofMarks, not_or] at hgo
  exact settles_item ho hreaches hend (hms.goes_on (ho.reaches hreaches) hend hfull)

/-- Behind an item that was given up, the next one is looked for. -/
theorem Settles.toNextItem {x : Attempt α} (ho : o.WellPlaced) (hx : Settles o file x) :
    ∃ ms, x.diagnostics = ofMarks file ms ∧ o.Reaches x.cursor.toNextItem ∧
      BetweenItems o x.cursor.toNextItem ms := by
  obtain ⟨ms, hds, hreaches, h⟩ := hx
  have hskip : x.cursor.Reaches x.cursor.toNextItem := Cursor.reaches_skipWhile _ x.cursor
  have hc := ho.reaches hreaches
  refine ⟨ms, hds, hreaches.trans hskip, ?_⟩
  rcases h with hfresh | ⟨-, hblamed | ⟨hdistinct, hover⟩⟩
  · exact .inl (hfresh.reaches hskip)
  · rcases hblamed.reaches hc hskip with hfresh | ⟨hblamed, -⟩
    · exact .inl hfresh
    · exact .inr (.inl ⟨hblamed, Cursor.startsItem_toNextItem hc⟩)
  · refine .inr (.inr ⟨hdistinct, hover.imp_left fun hend ↦ ?_⟩)
    have hrest := hskip.rest
    rw [hc.atEnd_iff.1 hend, List.suffix_nil] at hrest
    exact (hc.reaches hskip).atEnd_iff.2 hrest

theorem itemsFrom_reports (ho : o.WellPlaced) (hreaches : o.Reaches c)
    (hms : BetweenItems o c ms) :
    ∃ ms', (itemsFrom file c (ofMarks file ms)).2.2 = ofMarks file ms' ∧
      AlmostDistinct o.rest o.finish ms' := by
  generalize hds : ofMarks file ms = ds
  fun_induction itemsFrom file c ds generalizing ms with
  | case1 c ds hstop => exact ⟨ms, hds.symm, hms.almostDistinct⟩
  | case2 c ds hgo x item hx items c' ds' hrest =>
    rename_i ih
    subst hds
    obtain ⟨ms', hds', hreaches', h⟩ := settles_item_of_goes_on ho hreaches hgo hms
    have hfresh : Fresh x.cursor ms' := h.resolve_right fun h ↦ by cases hx.symm.trans h.1
    rw [hrest] at ih
    exact ih hreaches' (.inl hfresh) hds'.symm
  | case3 c ds hgo x hx =>
    rename_i ih
    subst hds
    obtain ⟨ms', hds', hreaches', h⟩ := (settles_item_of_goes_on ho hreaches hgo hms).toNextItem ho
    exact ih hreaches' h hds'.symm

end

/-- The store holds the first reports. -/
theorem AlmostDistinct.take {tokens : List Token} {finish : Token} {ms : List Mark}
    (h : AlmostDistinct tokens finish ms) :
    AlmostDistinct tokens finish (ms.take Diagnostics.capacity) := by
  cases h with
  | distinct hnodup => exact .distinct (hnodup.sublist (List.take_sublist ..))
  | @unclosed before m hm hnodup =>
    by_cases hroom : (before ++ [m, m]).length ≤ Diagnostics.capacity
    · rw [List.take_of_length_le hroom]
      exact .unclosed hm hnodup
    · refine .distinct (hnodup.sublist ?_)
      have hsplit : before ++ [m, m] = before ++ [m] ++ [m] := by simp
      rw [hsplit, List.take_append_of_le_length]
      · exact List.take_sublist ..
      · simp only [List.length_append, List.length_cons, List.length_nil] at hroom ⊢
        omega
  | stuck ht hitem hmistake hnodup hlength =>
    rw [List.take_of_length_le (Nat.le_of_eq hlength)]
    exact .stuck ht hitem hmistake hnodup hlength

/-- Whatever the tokens of a text are, the errors that are stored for them differ in code, text or
place, but for the last one. That one is stored again only at the end of a text with an open edge,
or in front of an item inside a block, and then until the store is full. -/
theorem ofTokens_almostDistinct (file : SourceFile) (tokens : List Token) (finish : Token)
    (htokens : ∀ t ∈ tokens, t.kind ≠ .eof) (hfinish : finish.kind = .eof)
    (hspans : ((tokens ++ [finish]).map Token.span).Nodup) :
    AlmostDistinct tokens finish
      ((ofTokens file (tokens ++ [finish])).2.errors.map Diagnostic.mark) := by
  have ho : Cursor.WellPlaced ⟨.point .start, tokens, finish⟩ := ⟨hspans, hfinish, htokens⟩
  have hstart : BetweenItems ⟨.point .start, tokens, finish⟩ ⟨.point .start, tokens, finish⟩ [] :=
    .inl ⟨List.nodup_nil, fun _ h ↦ by cases h⟩
  obtain ⟨ms, hds, hms⟩ := itemsFrom_reports ho (.refl _) hstart
  have hreports : (ofTokens file (tokens ++ [finish])).2 = ofMarks file ms := by
    rw [ofTokens, cursor_ofTokens file htokens hfinish]
    exact hds
  rw [hreports, Diagnostics.map_mark_errors_ofMarks]
  exact hms.take

private theorem itemsFrom_of_stop {file : SourceFile} {c : Cursor} {ds : Diagnostics}
    (h : c.atEnd || ds.isFull) : itemsFrom file c ds = ([], c, ds) := by
  rw [itemsFrom, dif_pos h]

private theorem itemsFrom_of_none {file : SourceFile} {c c' : Cursor} {ds ds' : Diagnostics}
    (hgo : ¬ (c.atEnd || ds.isFull) = true)
    (hx : itemRest file c.peek c.span c.advance ds = ⟨none, c', ds'⟩) :
    itemsFrom file c ds = itemsFrom file c'.toNextItem ds' := by
  rw [itemsFrom, dif_neg hgo]
  dsimp only
  split
  · next hvalue =>
    rw [hx] at hvalue
    cases hvalue
  · rw [hx]

/-- A state with an item in its block fills the store. -/
private theorem stateItem_item (file : SourceFile) {name : String} {item : Token}
    (hname : Text.isIdentifier name) (hitem : startsItem item.kind) (s₁ s₂ s₃ : Span)
    (tokens : List Token) (finish : Token) :
    stateItem file s₁
        ⟨s₁, ⟨.word name, s₂⟩ :: ⟨.leftBrace, s₃⟩ :: item :: tokens, finish⟩ .empty =
      ⟨none, ⟨s₃, item :: tokens, finish⟩, ofMarks file (List.replicate Diagnostics.capacity
        (Mistake.mark (.unexpectedInState item.kind) item.span))⟩ := by
  let inside : Cursor := ⟨s₃, item :: tokens, finish⟩
  have hhead : Read.stateHead
      ⟨s₁, ⟨.word name, s₂⟩ :: ⟨.leftBrace, s₃⟩ :: item :: tokens, finish⟩ =
        .ok ((⟨name, s₂⟩, false), ⟨s₂, ⟨.leftBrace, s₃⟩ :: item :: tokens, finish⟩) := by
    rw [Read.stateHead, Read.bind_apply]
    simp only [Read.identifier, Read.word, Cursor.peek, hname, if_true]
    rfl
  have hopens : Read.opensBlock ⟨s₂, ⟨.leftBrace, s₃⟩ :: item :: tokens, finish⟩ =
      .ok (true, inside) := rfl
  have hpeek : startsItem inside.peek := hitem
  have hblock : block file Read.stateEntry Read.consumes_stateEntry inside .empty =
      ⟨none, inside, ofMarks file (List.replicate Diagnostics.capacity
        (Mistake.mark (.unexpectedInState item.kind) item.span))⟩ :=
    block_stuck readsEntries_stateEntry Read.consumes_stateEntry hpeek []
  simp only [stateItem, Attempt.ofRead, hhead, Attempt.andThen, body, hopens, hblock, if_true]
  rfl

/-- An item in the block of the first state fills the store, whatever follows it. -/
theorem marks_item_in_state (file : SourceFile) {name : String} {item finish : Token}
    {tokens : List Token} (hname : Text.isIdentifier name) (hitem : startsItem item.kind)
    (htokens : ∀ t ∈ tokens, t.kind ≠ .eof) (hfinish : finish.kind = .eof) (s₁ s₂ s₃ : Span) :
    (ofTokens file (⟨.keyword .state, s₁⟩ :: ⟨.word name, s₂⟩ :: ⟨.leftBrace, s₃⟩ :: item ::
        tokens ++ [finish])).2.errors.map Diagnostic.mark =
      List.replicate Diagnostics.capacity
        (Mistake.mark (.unexpectedInState item.kind) item.span) := by
  let start : Cursor := ⟨.point .start, ⟨.keyword .state, s₁⟩ :: ⟨.word name, s₂⟩ ::
    ⟨.leftBrace, s₃⟩ :: item :: tokens, finish⟩
  have hrest : ∀ t ∈ start.rest, t.kind ≠ .eof := by
    have hne : item.kind ≠ .eof := ne_of_startsItem hitem rfl
    simpa [start, hne] using htokens
  have hgo : ¬ (start.atEnd || Diagnostics.empty.isFull) = true := Bool.false_ne_true
  have hx : itemRest file start.peek start.span start.advance .empty =
      ⟨none, ⟨s₃, item :: tokens, finish⟩, _⟩ :=
    congrArg (fun x : Attempt StateItem ↦ x.andThen fun i c ds ↦ ⟨some (Item.state i), c, ds⟩)
      (stateItem_item file hname hitem s₁ s₂ s₃ tokens finish)
  have hreports : (ofTokens file (start.rest ++ [finish])).2 =
      ofMarks file (List.replicate Diagnostics.capacity
        (Mistake.mark (.unexpectedInState item.kind) item.span)) := by
    rw [ofTokens, cursor_ofTokens file hrest hfinish]
    show (itemsFrom file start .empty).2.2 = _
    rw [itemsFrom_of_none hgo hx, itemsFrom_of_stop]
    rw [isFull_ofMarks.2 (by simp), Bool.or_true]
  show (ofTokens file (start.rest ++ [finish])).2.errors.map Diagnostic.mark = _
  rw [hreports, Diagnostics.map_mark_errors_ofMarks, List.take_of_length_le (by simp)]

/-- The text `state A { state B; } oops`, each token in a column of its own. -/
private def nested : List Token :=
  [⟨.keyword .state, .point ⟨1, 1⟩⟩, ⟨.word "A", .point ⟨1, 2⟩⟩, ⟨.leftBrace, .point ⟨1, 3⟩⟩,
    ⟨.keyword .state, .point ⟨1, 4⟩⟩, ⟨.word "B", .point ⟨1, 5⟩⟩, ⟨.semicolon, .point ⟨1, 6⟩⟩,
    ⟨.rightBrace, .point ⟨1, 7⟩⟩, ⟨.word "oops", .point ⟨1, 8⟩⟩]

private theorem marks_nested :
    (ofTokens ⟨"nested.fsm", ""⟩ (nested ++ [⟨.eof, .none⟩])).2.errors.map Diagnostic.mark =
      List.replicate 20
        ⟨.unexpectedToken, "unexpected 'state' in state block", .point ⟨1, 4⟩⟩ := by
  rw [nested, marks_item_in_state _ (by decide) rfl (by decide) rfl]
  decide +kernel

/-- The second `state` is reported twenty times, and the word behind the block not at all. -/
theorem ofTokens_almostDistinct_nested :
    let finish : Token := ⟨.eof, .none⟩
    let marks := (ofTokens ⟨"nested.fsm", ""⟩ (nested ++ [finish])).2.errors.map Diagnostic.mark
    (∀ t ∈ nested, t.kind ≠ .eof) ∧ ((nested ++ [finish]).map Token.span).Nodup ∧
      AlmostDistinct nested finish marks ∧
      marks = List.replicate 20
        ⟨.unexpectedToken, "unexpected 'state' in state block", .point ⟨1, 4⟩⟩ := by
  intro finish marks
  have htokens : ∀ t ∈ nested, t.kind ≠ .eof := by decide
  have hspans : ((nested ++ [finish]).map Token.span).Nodup := by decide
  exact ⟨htokens, hspans, ofTokens_almostDistinct _ nested finish htokens rfl hspans, marks_nested⟩

/-- One mistake can fill the store with copies of its report. -/
theorem not_ofTokens_distinct :
    ¬ ∀ (file : SourceFile) (tokens : List Token) (finish : Token),
      (∀ t ∈ tokens, t.kind ≠ .eof) → finish.kind = .eof →
        ((tokens ++ [finish]).map Token.span).Nodup →
        ((ofTokens file (tokens ++ [finish])).2.errors.map Diagnostic.mark).Nodup := by
  intro h
  have hnodup := h ⟨"nested.fsm", ""⟩ nested ⟨.eof, .none⟩ (by decide) rfl (by decide)
  rw [marks_nested] at hnodup
  simp at hnodup

end StateGen.Description
