import StateGen.Proofs.Token.Places

/-!
# Tokens follow one another

Every token starts behind the start of the one before it, the end of the text included, and none
ends in front of its own start. The span of a token that is no string quotes the text of the token
in messages. Where no fault is reported a token also ends in front of the next one: only a string
without a closing quote reaches over the end of its line.
-/

namespace StateGen

namespace Position

theorem before_iff {p q : Position} :
    p.before q = true ↔ p.line < q.line ∨ p.line = q.line ∧ p.column < q.column := by
  simp [before]

theorem before_of_before_of_upTo {p q r : Position} (hpq : p.before q = true) (hqr : q.UpTo r) :
    p.before r = true := by
  rw [before_iff] at hpq ⊢
  unfold UpTo at hqr
  omega

theorem upTo_of_before {p q : Position} (h : p.before q = true) : p.UpTo q := by
  rw [before_iff] at h
  unfold UpTo
  omega

/-- Reading something leads to a later place. -/
theorem before_advance (p : Position) {cs : List Char} (h : cs ≠ []) :
    p.before (p.advance cs) = true := by
  obtain ⟨c, cs, rfl⟩ := List.exists_cons_of_ne_nil h
  have hnext : p.before (p.next c) = true := by
    rw [before_iff, next]
    split
    · exact .inl (Nat.lt_succ_self _)
    · exact .inr ⟨rfl, Nat.lt_succ_self _⟩
  exact before_of_before_of_upTo hnext (upTo_advance _ cs)

theorem one_le_column_advance {p : Position} (h : 1 ≤ p.column) (cs : List Char) :
    1 ≤ (p.advance cs).column := by
  induction cs generalizing p with
  | nil => exact h
  | cons c cs ih =>
    refine ih ?_
    unfold next
    split
    · exact Nat.le_refl 1
    · exact Nat.le_succ_of_le h

end Position

namespace Token

/-! ## Spans -/

/-- A span does not end in front of its start. -/
theorem upTo_spanTo {p q : Position} (h : p.before q = true) :
    (spanTo p q).start.UpTo (spanTo p q).stop := by
  rw [Position.before_iff] at h
  unfold Position.UpTo
  simp only [Span.start, Span.stop, spanTo]
  omega

/-- A span ends in front of the place up to which it reaches, unless a line starts there. -/
private theorem stop_spanTo_before (p : Position) {q : Position} (h : 2 ≤ q.column) :
    (spanTo p q).stop.before q = true := by
  have hcolumn : max (q.column - 1) 1 < q.column := by omega
  exact Position.before_iff.2 (.inr ⟨rfl, hcolumn⟩)

/-! ## Tokens without faults -/

/-- A string without faults ends with its closing quote. -/
private theorem exists_position_takeString {start p : Position} {cs : List Char}
    (h : (takeString start p cs).faults = []) :
    ∃ w, (takeString start p cs).position = (p.advance w).next '"' := by
  fun_induction takeString start p cs with
  | case1 | case2 | case4 | case5 => cases h
  | case3 p c cs _ _ _ ih =>
    obtain ⟨w, hw⟩ := ih h
    exact ⟨'\\' :: c :: w, hw⟩
  | case6 => exact ⟨[], rfl⟩
  | case7 p c cs _ _ _ _ ih =>
    obtain ⟨w, hw⟩ := ih h
    exact ⟨c :: w, hw⟩

private theorem eq_quote_of_scan {p : Position} {c : Char} {cs : List Char} {t : Token}
    {value : String} (ht : (scan p c cs).token = some t) (hkind : t.kind = .string value) :
    c = '"' := by
  unfold scan at ht
  split at ht
  · rename_i mark hmark
    cases ht
    subst hkind
    unfold Kind.ofMark? at hmark
    split at hmark <;> cases hmark
  split at ht
  · cases ht
    cases hkind
  split at ht
  · rename_i hc
    exact hc
  split at ht
  · cases ht
    unfold Kind.ofWord at hkind
    split at hkind <;> cases hkind
  · cases ht

/-- Behind a token without faults its line goes on. -/
private theorem two_le_column_scan {p : Position} {c : Char} {cs : List Char} {t : Token}
    (hp : 1 ≤ p.column) (ht : (scan p c cs).token = some t) (hfaults : (scan p c cs).faults = []) :
    2 ≤ (scan p c cs).position.column := by
  by_cases hstring : ∃ value, t.kind = .string value
  · obtain ⟨value, hkind⟩ := hstring
    obtain rfl := eq_quote_of_scan ht hkind
    obtain ⟨w, hw⟩ : ∃ w, (scan p '"' cs).position = ((p.next '"').advance w).next '"' :=
      exists_position_takeString hfaults
    have hcolumn := Position.one_le_column_advance hp ('"' :: w)
    rw [hw]
    exact Nat.succ_le_succ hcolumn
  · have hstring : ∀ value, t.kind ≠ .string value := fun value hkind ↦ hstring ⟨value, hkind⟩
    obtain ⟨w, hne, -, hq, htoken⟩ := scan_covers p c cs
    have hw : w = t.kind.print := (htoken t ht).2 hstring
    have hline : ∀ d ∈ w, d ≠ '\n' := by
      rw [hw]
      exact fun d hd ↦ (ne_of_mem_print (isPrintable_scan ht) hstring d hd).1
    have hlength : 0 < w.length := List.length_pos_iff.2 hne
    rw [hq, Position.advance_of_line hline]
    dsimp only
    omega

/-! ## Tokens in a row -/

/-- The tokens start one behind the other, the first not in front of `p`. -/
private structure StartFrom (p : Position) (ts : List Token) : Prop where
  upTo : ∀ t ∈ ts, p.UpTo t.span.start
  upTo_stop : ∀ t ∈ ts, t.span.start.UpTo t.span.stop
  pairwise : ts.Pairwise fun t u ↦ t.span.start.before u.span.start = true

namespace StartFrom

variable {p q : Position} {t : Token} {ts : List Token}

private theorem mono (hpq : p.UpTo q) (h : StartFrom q ts) : StartFrom p ts :=
  ⟨fun t ht ↦ hpq.trans (h.upTo t ht), h.upTo_stop, h.pairwise⟩

private theorem point (kind : Kind) (p : Position) : StartFrom p [⟨kind, .point p⟩] where
  upTo t ht := by
    obtain rfl := List.mem_singleton.1 ht
    exact .refl p
  upTo_stop t ht := by
    obtain rfl := List.mem_singleton.1 ht
    exact .refl p
  pairwise := List.pairwise_singleton _ _

private theorem cons (hpq : p.before q = true) (hspan : t.span = spanTo p q)
    (h : StartFrom q ts) : StartFrom p (t :: ts) where
  upTo u hu := by
    rcases List.mem_cons.1 hu with rfl | hu
    · rw [hspan]
      exact .refl p
    · exact (Position.upTo_of_before hpq).trans (h.upTo u hu)
  upTo_stop u hu := by
    rcases List.mem_cons.1 hu with rfl | hu
    · rw [hspan]
      exact upTo_spanTo hpq
    · exact h.upTo_stop u hu
  pairwise := by
    refine .cons (fun u hu ↦ ?_) h.pairwise
    rw [hspan]
    exact Position.before_of_before_of_upTo hpq (h.upTo u hu)

end StartFrom

/-- A token that is read is put in front of the tokens behind it. -/
private theorem StartFrom.scan {p : Position} {c : Char} {cs : List Char} {ts : List Token}
    (h : StartFrom (scan p c cs).position ts) :
    StartFrom p ((scan p c cs).token.toList ++ ts) := by
  obtain ⟨w, hne, -, hq, htoken⟩ := scan_covers p c cs
  have hbefore : p.before (p.advance w) = true := p.before_advance hne
  rw [hq] at h
  cases ht : (Token.scan p c cs).token with
  | none => exact h.mono (Position.upTo_of_before hbefore)
  | some t => exact .cons hbefore (htoken t ht).1 h

private theorem exists_eq_advance_of_skipTrivia {p q : Position} {cs rest : List Char}
    (h : skipTrivia false p cs = (q, rest)) : ∃ w, q = p.advance w := by
  obtain ⟨w, -, hq⟩ := leadsTo_skipTrivia false p cs
  rw [h] at hq
  exact ⟨w, hq⟩

/-- The tokens that are read from a place on start from it on. -/
private theorem startFrom_lexFrom (file : SourceFile) (p : Position) (cs : List Char)
    (ds : Diagnostics) : StartFrom p (lexFrom file p cs ds).1 := by
  fun_induction lexFrom file p cs ds with
  | case1 p => exact .point .eof p
  | case2 p cs _ _ q hskip =>
    obtain ⟨w, rfl⟩ := exists_eq_advance_of_skipTrivia hskip
    exact (StartFrom.point .eof _).mono (p.upTo_advance w)
  | case3 p cs ds _ q c rest hskip x tokens ds' hrest ih =>
    obtain ⟨w, rfl⟩ := exists_eq_advance_of_skipTrivia hskip
    rw [hrest] at ih
    exact ih.scan.mono (p.upTo_advance w)

/-- Where no error is counted every token ends in front of the later ones. -/
private theorem pairwise_stop_lexFrom {file : SourceFile} {p : Position} {cs : List Char}
    {ds : Diagnostics} (hp : 1 ≤ p.column) (h : (lexFrom file p cs ds).2.totalErrors = 0) :
    (lexFrom file p cs ds).1.Pairwise fun t u ↦ t.span.stop.before u.span.start = true := by
  fun_induction lexFrom file p cs ds with
  | case1 => exact List.pairwise_singleton _ _
  | case2 => exact List.pairwise_singleton _ _
  | case3 p cs ds _ q c rest hskip x tokens ds' hrest ih =>
    obtain ⟨v, rfl⟩ := exists_eq_advance_of_skipTrivia hskip
    have hq := Position.one_le_column_advance hp v
    obtain ⟨w, -, -, hx, htoken⟩ := scan_covers (p.advance v) c rest
    have hgrows := grows_lexFrom file x.position x.rest (x.report file ds)
    have hstart := startFrom_lexFrom file x.position x.rest (x.report file ds)
    rw [hrest] at hgrows hstart ih
    have hbehind := ih (hx ▸ Position.one_le_column_advance hq w) h
    cases ht : x.token with
    | none => exact hbehind
    | some t =>
      -- The errors of the token are counted among those of the whole text, so there are none.
      have hreport : (x.report file ds).totalErrors = 0 := Nat.le_zero.1 (h ▸ hgrows.totalErrors_le)
      have hcolumn := two_le_column_scan hq ht (faults_eq_nil_of_report hreport)
      refine .cons (fun u hu ↦ ?_) hbehind
      rw [(htoken t ht).1, ← hx]
      exact Position.before_of_before_of_upTo (stop_spanTo_before _ hcolumn) (hstart.upTo u hu)

/-! ## The tokens of a text -/

/-- The text of a token in messages is what is written, except for strings and the end. -/
private theorem display_eq_print {kind : Kind} (hstring : ∀ value, kind ≠ .string value)
    (heof : kind ≠ .eof) : kind.display = String.ofList kind.print := by
  cases kind with
  | string value => exact absurd rfl (hstring value)
  | eof => exact absurd rfl heof
  | word name => exact (String.ofList_toList).symm
  | keyword k => exact (String.ofList_toList).symm
  | leftBrace | rightBrace | semicolon | comma | arrow => rfl

/-- The span of every token that is no string cuts the token out of one line of the file. The
tokens start one behind the other and none ends in front of its start, whatever is wrong with the
text. Where nothing is, every token ends in front of the next one. -/
theorem lex_spans_exact (file : SourceFile) :
    (∀ t ∈ (lex file).1, (∀ value, t.kind ≠ .string value) → t.kind ≠ .eof →
      t.span.Quotes file t.kind.display) ∧
    (lex file).1.Pairwise (fun t u ↦ t.span.start.before u.span.start = true) ∧
    (∀ t ∈ (lex file).1, t.span.start.UpTo t.span.stop) ∧
    ((lex file).2.totalErrors = 0 →
      (lex file).1.Pairwise fun t u ↦ t.span.stop.before u.span.start = true) := by
  have hstart := startFrom_lexFrom file .start file.text.toList .empty
  refine ⟨fun t ht hstring heof ↦ ?_, hstart.pairwise, hstart.upTo_stop,
    pairwise_stop_lexFrom (Nat.le_refl 1)⟩
  obtain ⟨tokens, finish, hlex, hfinish, hcovers, -⟩ := exists_lex_eq_covering file
  rw [hlex, List.mem_append, List.mem_singleton] at ht
  rcases ht with ht | rfl
  · obtain ⟨before, w, hcovers⟩ := hcovers t ht
    rw [display_eq_print hstring heof]
    exact hcovers.quotes hstring
  · exact absurd hfinish heof

end Token

end StateGen
