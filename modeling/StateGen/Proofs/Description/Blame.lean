import Mathlib.Data.List.Nodup
import StateGen.Proofs.Description.Reading
import StateGen.Proofs.Diagnostic

/-!
# Which token a failure blames

Reading functions only go on, and where one fails it blames a token that it came upon: never one in
front of the cursor where it began, and at most the next one where it ended. So its report is a new
one, if those before it blame tokens that were read already.
-/

namespace StateGen.Description

open Diagnostic (Mark)

/-! ## Places of tokens -/

namespace Cursor

variable {c c' c'' : Cursor}

/-- The places of the tokens from a cursor on. -/
def spans (c : Cursor) : List Span := (c.rest ++ [c.finish]).map Token.span

/-- The second cursor stands further on in the same tokens. -/
structure Reaches (c c' : Cursor) : Prop where
  rest : c'.rest <:+ c.rest
  finish : c'.finish = c.finish

theorem Reaches.refl (c : Cursor) : c.Reaches c := ⟨List.suffix_rfl, rfl⟩

theorem Reaches.trans (h : c.Reaches c') (h' : c'.Reaches c'') : c.Reaches c'' :=
  ⟨h'.rest.trans h.rest, h'.finish.trans h.finish⟩

theorem reaches_advance (c : Cursor) : c.Reaches c.advance := by
  unfold advance
  split
  · exact .refl c
  · next t ts hrest => exact ⟨hrest ▸ List.suffix_cons t ts, rfl⟩

private theorem skipTokens_suffix (p : Token.Kind → Bool) (previous : Span) (ts : List Token) :
    (skipTokens p previous ts).2 <:+ ts := by
  fun_induction skipTokens p previous ts with
  | case1 => exact List.suffix_rfl
  | case2 previous t ts _ ih => exact ih.trans (List.suffix_cons t ts)
  | case3 => exact List.suffix_rfl

theorem reaches_skipWhile (p : Token.Kind → Bool) (c : Cursor) : c.Reaches (c.skipWhile p) :=
  ⟨skipTokens_suffix p c.previous c.rest, rfl⟩

theorem reaches_recover (c : Cursor) : c.Reaches c.recover := by
  unfold recover
  dsimp only
  split
  · exact (reaches_skipWhile _ c).trans (reaches_advance _)
  · exact reaches_skipWhile _ c

theorem span_mem_spans (c : Cursor) : c.span ∈ c.spans := by
  unfold span spans
  split
  · next hrest => simp [hrest]
  · next t ts hrest => simp [hrest]

theorem Reaches.spans_suffix (h : c.Reaches c') : c'.spans <:+ c.spans := by
  obtain ⟨ts, hts⟩ := h.rest
  refine ⟨ts.map Token.span, ?_⟩
  rw [spans, spans, ← List.map_append, ← List.append_assoc, hts, h.finish]

theorem peek_congr (h : c.Reaches c') (hrest : c'.rest = c.rest) : c'.peek = c.peek := by
  rw [peek, peek, hrest, h.finish]

theorem span_congr (h : c.Reaches c') (hrest : c'.rest = c.rest) : c'.span = c.span := by
  rw [span, span, hrest, h.finish]

/-- Whoever gets on leaves the next token behind. -/
theorem Reaches.rest_eq_or (h : c.Reaches c') (hnodup : c.spans.Nodup) :
    c'.rest = c.rest ∨ c.span ∉ c'.spans := by
  obtain ⟨ts, hts⟩ := h.rest
  cases ts with
  | nil => exact .inl hts
  | cons t ts =>
    have hspan : c.span = t.span := by simp [span, ← hts]
    have hspans : c.spans = t.span :: (ts.map Token.span ++ c'.spans) := by
      simp [spans, ← hts, h.finish]
    rw [hspans, List.nodup_cons] at hnodup
    rw [hspan]
    exact .inr fun hmem ↦ hnodup.1 (List.mem_append_right _ hmem)

/-- The tokens from a cursor on have different places, and only the last of them is the end of the
text. -/
structure WellPlaced (c : Cursor) : Prop where
  nodup : c.spans.Nodup
  ends : c.Ends
  inner : ∀ t ∈ c.rest, t.kind ≠ .eof

theorem WellPlaced.reaches (hc : c.WellPlaced) (h : c.Reaches c') : c'.WellPlaced where
  nodup := h.spans_suffix.sublist.nodup hc.nodup
  ends := by
    rw [Ends, h.finish]
    exact hc.ends
  inner t ht := hc.inner t (h.rest.subset ht)

theorem WellPlaced.atEnd_iff (hc : c.WellPlaced) : c.atEnd ↔ c.rest = [] := by
  rw [atEnd, peek, beq_iff_eq]
  cases hrest : c.rest with
  | nil => exact iff_of_true hc.ends rfl
  | cons t ts =>
    exact iff_of_false (hc.inner t (hrest ▸ List.mem_cons_self)) (List.cons_ne_nil t ts)

/-- Stepping over a token leaves it behind. -/
theorem WellPlaced.span_not_mem_advance (hc : c.WellPlaced) (h : ¬ c.atEnd) :
    c.span ∉ c.advance.spans := by
  have hrest : c.rest ≠ [] := fun hrest ↦ h (hc.atEnd_iff.2 hrest)
  refine (c.reaches_advance.rest_eq_or hc.nodup).resolve_left fun heq ↦ ?_
  have hlt := remaining_advance_lt hrest
  rw [remaining, remaining, heq] at hlt
  exact Nat.lt_irrefl _ hlt

end Cursor

/-! ## Reports and the tokens that they blame -/

section

variable {c c' : Cursor} {ms : List Mark} {m : Mark}

/-- The reports differ, and none of them blames a token from the cursor on. -/
structure Fresh (c : Cursor) (ms : List Mark) : Prop where
  nodup : ms.Nodup
  behind : ∀ m ∈ ms, m.span ∉ c.spans

/-- The last report blames the next token, and those before it none from the cursor on. -/
def Blamed (c : Cursor) (ms : List Mark) : Prop :=
  ∃ before m, ms = before ++ [m] ∧ Fresh c before ∧ m.span = c.span

theorem Fresh.not_mem (h : Fresh c ms) (hm : m.span ∈ c.spans) : m ∉ ms :=
  fun hmem ↦ h.behind m hmem hm

private theorem nodup_snoc (h : ms.Nodup) (hm : m ∉ ms) : (ms ++ [m]).Nodup :=
  List.nodup_append_comm.1 (List.nodup_cons.2 ⟨hm, h⟩)

theorem Fresh.snoc (h : Fresh c ms) (hm : m.span ∈ c.spans) : (ms ++ [m]).Nodup :=
  nodup_snoc h.nodup (h.not_mem hm)

theorem Blamed.nodup (h : Blamed c ms) : ms.Nodup := by
  obtain ⟨before, m, rfl, hbefore, hm⟩ := h
  exact hbefore.snoc (hm ▸ c.span_mem_spans)

/-- A report at the next token is new, or the last one again. -/
theorem Blamed.snoc (h : Blamed c ms) (hm : m.span ∈ c.spans) :
    (ms ++ [m]).Nodup ∨ ∃ before, ms = before ++ [m] := by
  have hnodup := h.nodup
  obtain ⟨before, m', rfl, hbefore, -⟩ := h
  by_cases heq : m' = m
  · exact .inr ⟨before, by rw [heq]⟩
  · refine .inl (nodup_snoc hnodup fun hmem ↦ ?_)
    rcases List.mem_append.1 hmem with hmem | hmem
    · exact hbefore.not_mem hm hmem
    · exact heq (List.mem_singleton.1 hmem).symm

theorem Fresh.reaches (h : Fresh c ms) (hreaches : c.Reaches c') : Fresh c' ms where
  nodup := h.nodup
  behind m hm hmem := h.behind m hm (hreaches.spans_suffix.subset hmem)

/-- Getting on leaves the blamed token behind. -/
theorem Blamed.reaches (h : Blamed c ms) (hc : c.WellPlaced) (hreaches : c.Reaches c') :
    Fresh c' ms ∨ Blamed c' ms ∧ c'.rest = c.rest := by
  have hnodup := h.nodup
  obtain ⟨before, m, rfl, hbefore, hm⟩ := h
  rcases hreaches.rest_eq_or hc.nodup with hrest | hspan
  · refine .inr ⟨⟨before, m, rfl, hbefore.reaches hreaches, ?_⟩, hrest⟩
    rw [hm, Cursor.span_congr hreaches hrest]
  · refine .inl ⟨hnodup, fun m' hm' ↦ ?_⟩
    rcases List.mem_append.1 hm' with hm' | hm'
    · exact (hbefore.reaches hreaches).behind m' hm'
    · rw [List.mem_singleton.1 hm', hm]
      exact hspan

/-- Stepping over a token leaves its reports behind. -/
theorem fresh_advance (hc : c.WellPlaced) (hend : ¬ c.atEnd) (h : Fresh c ms ∨ Blamed c ms) :
    Fresh c.advance ms := by
  have hadvance := c.reaches_advance
  rcases h with h | h
  · exact h.reaches hadvance
  · refine (h.reaches hc hadvance).resolve_right fun h ↦ hc.span_not_mem_advance hend ?_
    rw [← Cursor.span_congr hadvance h.2]
    exact c.advance.span_mem_spans

end

/-! ## Failures -/

/-- Code, text and place of a mistake. -/
def Mistake.mark (m : Mistake) (s : Span) : Mark := ⟨m.code, m.message, s⟩

/-- Code, text and place of a failure. -/
def Failure.mark (f : Failure) : Mark := f.mistake.mark f.span

theorem Failure.report_ofMarks (f : Failure) (file : SourceFile) (ms : List Mark) :
    f.report file (.ofMarks file ms) = .ofMarks file (ms ++ [f.mark]) :=
  (Diagnostics.ofMarks_snoc file ms f.mark).symm

/-- A failure of a reading that began at a cursor: it blames a token from there on, and none behind
the next one where the reading ended. -/
structure Failure.Follows (f : Failure) (c : Cursor) : Prop where
  reaches : c.Reaches f.cursor
  span_mem : f.span ∈ c.spans
  span_eq : f.span ∈ f.cursor.spans → f.span = f.cursor.span

theorem Failure.Follows.of_reaches {f : Failure} {c c' : Cursor} (h : f.Follows c')
    (hreaches : c.Reaches c') : f.Follows c :=
  ⟨hreaches.trans h.reaches, hreaches.spans_suffix.subset h.span_mem, h.span_eq⟩

theorem Failure.follows_here (m : Mistake) (c : Cursor) : Failure.Follows ⟨m, c.span, c⟩ c :=
  ⟨.refl c, c.span_mem_spans, fun _ ↦ rfl⟩

/-- A failure behind fresh reports is not one of them. -/
theorem Failure.Follows.report {f : Failure} {c : Cursor} {ms : List Mark} (h : f.Follows c)
    (hms : Fresh c ms) :
    Fresh f.cursor (ms ++ [f.mark]) ∨ Blamed f.cursor (ms ++ [f.mark]) := by
  have hbehind := hms.reaches h.reaches
  by_cases hmem : f.span ∈ f.cursor.spans
  · exact .inr ⟨ms, f.mark, rfl, hbehind, h.span_eq hmem⟩
  · refine .inl ⟨hms.snoc h.span_mem, fun m hm ↦ ?_⟩
    rcases List.mem_append.1 hm with hm | hm
    · exact hbehind.behind m hm
    · rw [List.mem_singleton.1 hm]
      exact hmem

/-! ## Reading functions -/

namespace Read

variable {α β : Type}

/-- A reading function that only goes on, and blames what it finds there. -/
structure Tracks (p : Read α) : Prop where
  ok : ∀ {c a c'}, p c = .ok (a, c') → c.Reaches c'
  fail : ∀ {c f}, c.spans.Nodup → p c = .error f → f.Follows c

theorem tracks_pure (a : α) : Tracks (pure a : Read α) := by
  constructor
  · intro c b c' h
    cases h
    exact .refl c
  · intro c f _ h
    cases h

theorem Tracks.bind {p : Read α} {q : α → Read β} (hp : Tracks p) (hq : ∀ a, Tracks (q a)) :
    Tracks (p >>= q) := by
  constructor
  · intro c b c'' h
    rw [bind_apply] at h
    split at h
    · next a c' hpc => exact (hp.ok hpc).trans ((hq a).ok h)
    · cases h
  · intro c f hc h
    rw [bind_apply] at h
    split at h
    · next a c' hpc =>
      have hreaches := hp.ok hpc
      exact ((hq a).fail (hreaches.spans_suffix.sublist.nodup hc) h).of_reaches hreaches
    · next f' hpc =>
      cases h
      exact hp.fail hc hpc

/-- A reading function that steps over the next token, or stays, or fails in front of it. -/
private theorem tracks_of_steps {p : Read α}
    (ok : ∀ {c a c'}, p c = .ok (a, c') → c' = c ∨ c' = c.advance)
    (fail : ∀ {c f}, p c = .error f → f = ⟨f.mistake, c.span, c⟩) : Tracks p := by
  constructor
  · intro c a c' h
    rcases ok h with rfl | rfl
    · exact .refl c'
    · exact c.reaches_advance
  · intro c f _ h
    rw [fail h]
    exact Failure.follows_here _ c

theorem tracks_previous : Tracks previous := by
  apply tracks_of_steps
  · intro c a c' h
    cases h
    exact .inl rfl
  · intro c f h
    cases h

theorem tracks_eat (kind : Token.Kind) : Tracks (eat kind) := by
  apply tracks_of_steps
  · intro c a c' h
    unfold eat at h
    split at h <;> cases h
    · exact .inr rfl
    · exact .inl rfl
  · intro c f h
    unfold eat at h
    split at h <;> cases h

theorem tracks_expect (kind : Token.Kind) : Tracks (expect kind) := by
  apply tracks_of_steps
  · intro c a c' h
    unfold expect at h
    split at h <;> cases h
    exact .inr rfl
  · intro c f h
    unfold expect at h
    split at h <;> cases h
    rfl

theorem tracks_word : Tracks word := by
  apply tracks_of_steps
  · intro c a c' h
    unfold word at h
    split at h <;> cases h
    exact .inr rfl
  · intro c f h
    unfold word at h
    split at h <;> cases h
    rfl

theorem tracks_optionValue : Tracks optionValue := by
  apply tracks_of_steps
  · intro c a c' h
    unfold optionValue at h
    split at h <;> cases h
    · exact .inr rfl
    · exact .inr rfl
  · intro c f h
    unfold optionValue at h
    split at h <;> cases h
    rfl

/-- A word that is no identifier is blamed although it was read. -/
theorem tracks_identifier : Tracks identifier := by
  constructor
  · intro c a c' h
    unfold identifier at h
    split at h
    · cases h
    · next hword =>
      split at h <;> cases h
      exact tracks_word.ok hword
  · intro c f hc h
    unfold identifier at h
    split at h
    · next hword =>
      cases h
      exact tracks_word.fail hc hword
    · next ident c' hword =>
      split at h <;> cases h
      obtain ⟨hspan, hcursor⟩ : ident.span = c.span ∧ c' = c.advance := by
        unfold word at hword
        split at hword <;> cases hword
        exact ⟨rfl, rfl⟩
      have hreaches : c.Reaches c' := tracks_word.ok hword
      refine ⟨hreaches, hspan ▸ c.span_mem_spans, fun hmem ↦ ?_⟩
      rcases hreaches.rest_eq_or hc with hrest | hbehind
      · exact hspan.trans (Cursor.span_congr hreaches hrest).symm
      · exact absurd (hspan ▸ hmem) hbehind

theorem tracks_repeatWhile {go : Cursor → Bool} {p : Read α} (hp : Consumes p) (h : Tracks p) :
    Tracks (repeatWhile go p hp) := by
  constructor
  · intro c as c' hread
    fun_induction repeatWhile go p hp c generalizing as c' with
    | case1 => cases hread
    | case2 => cases hread
    | case3 c _ a c₁ hpc as' c₂ hrest ih =>
      cases hread
      exact (h.ok hpc).trans (ih hrest)
    | case4 =>
      cases hread
      exact .refl _
  · intro c f hc hread
    fun_induction repeatWhile go p hp c generalizing f with
    | case1 c _ f' hpc =>
      cases hread
      exact h.fail hc hpc
    | case2 c _ a c₁ hpc f' hrest ih =>
      cases hread
      have hreaches := h.ok hpc
      exact (ih (hreaches.spans_suffix.sublist.nodup hc) hrest).of_reaches hreaches
    | case3 => cases hread
    | case4 => cases hread

theorem tracks_identifiers : Tracks identifiers :=
  tracks_identifier.bind fun _ ↦
    (tracks_repeatWhile _ ((tracks_expect _).bind fun _ ↦ tracks_identifier)).bind fun _ ↦
      tracks_pure _

theorem tracks_hooks : Tracks hooks :=
  tracks_identifiers.bind fun _ ↦ (tracks_expect _).bind fun _ ↦ tracks_pure _

theorem tracks_opensBlock : Tracks opensBlock := by
  refine (tracks_eat _).bind fun short ↦ ?_
  cases short
  · exact (tracks_expect _).bind fun _ ↦ tracks_pure _
  · exact tracks_pure _

theorem tracks_edgeEnd : Tracks edgeEnd := by
  refine (tracks_eat _).bind fun short ↦ ?_
  cases short
  · exact (tracks_expect _).bind fun _ ↦
      (tracks_repeatWhile _ ((tracks_expect _).bind fun _ ↦ tracks_hooks)).bind fun _ ↦
        (tracks_expect _).bind fun _ ↦ tracks_pure _
  · exact tracks_pure _

theorem tracks_nextState (start : Span) : Tracks (nextState start) :=
  tracks_identifiers.bind fun _ ↦ tracks_edgeEnd.bind fun _ ↦
    tracks_previous.bind fun _ ↦ tracks_pure _

theorem tracks_onEvent (start : Span) : Tracks (onEvent start) :=
  tracks_identifier.bind fun _ ↦ (tracks_expect _).bind fun _ ↦
    tracks_identifier.bind fun _ ↦ tracks_edgeEnd.bind fun _ ↦
      tracks_previous.bind fun _ ↦ tracks_pure _

theorem tracks_dispatch {rest : Token.Kind → Option (Span → Read α)}
    {otherwise : Token.Kind → Mistake} (h : ∀ {kind p}, rest kind = some p → ∀ s, Tracks (p s)) :
    Tracks (dispatch rest otherwise) := by
  constructor
  · intro c a c' hd
    unfold dispatch at hd
    split at hd
    · next p hp => exact c.reaches_advance.trans ((h hp _).ok hd)
    · cases hd
  · intro c f hc hd
    unfold dispatch at hd
    split at hd
    · next p hp =>
      have hadvance := c.reaches_advance
      exact ((h hp _).fail (hadvance.spans_suffix.sublist.nodup hc) hd).of_reaches hadvance
    · cases hd
      exact Failure.follows_here _ c

theorem tracks_stateEntry : Tracks stateEntry := by
  apply tracks_dispatch
  intro kind p hp s
  unfold stateEntryRest at hp
  split at hp <;> cases hp
  iterate 4 exact tracks_hooks.bind fun _ ↦ tracks_pure _
  · exact tracks_nextState s
  · exact tracks_onEvent s

theorem tracks_eventHooks : Tracks eventHooks := by
  apply tracks_dispatch
  intro kind p hp s
  unfold eventHooksRest at hp
  split at hp <;> cases hp
  iterate 2 exact tracks_hooks.bind fun _ ↦ tracks_pure _

theorem tracks_optionItem (start : Span) : Tracks (optionItem start) :=
  tracks_word.bind fun _ ↦ tracks_optionValue.bind fun _ ↦
    (tracks_expect _).bind fun _ ↦ tracks_previous.bind fun _ ↦ tracks_pure _

theorem tracks_initialItem (start : Span) : Tracks (initialItem start) :=
  tracks_identifiers.bind fun _ ↦ (tracks_expect _).bind fun _ ↦
    tracks_previous.bind fun _ ↦ tracks_pure _

theorem tracks_stateHead : Tracks stateHead :=
  tracks_identifier.bind fun _ ↦ (tracks_eat _).bind fun _ ↦ tracks_pure _

end Read

end StateGen.Description
