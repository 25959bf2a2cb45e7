import Mathlib.Data.List.TakeWhile
import StateGen.Proofs.Lines
import StateGen.Proofs.Token.Printing

/-!
# Where tokens stand

Every token in front of the end of a text covers a piece of the text: its span reaches from the
first character of the piece to the last one, and the piece is the token as it is written, unless
the token is a string. The pieces follow one another. A piece without line breaks is what the
columns of its span cut out of the line on which it stands.
-/

namespace StateGen

/-! ## Places -/

namespace Position

/-- A place is not later than another. -/
def UpTo (p q : Position) : Prop := p.line < q.line ∨ (p.line = q.line ∧ p.column ≤ q.column)

theorem UpTo.refl (p : Position) : p.UpTo p := by
  unfold UpTo
  omega

theorem UpTo.trans {p q r : Position} (hpq : p.UpTo q) (hqr : q.UpTo r) : p.UpTo r := by
  unfold UpTo at *
  omega

theorem before_eq_false_iff {p q : Position} : q.before p = false ↔ p.UpTo q := by
  simp only [before, UpTo, Bool.or_eq_false_iff, Bool.and_eq_false_iff, decide_eq_false_iff_not,
    beq_eq_false_iff_ne, Nat.not_lt]
  omega

theorem upTo_next (p : Position) (c : Char) : p.UpTo (p.next c) := by
  unfold UpTo next
  split
  · exact .inl (Nat.lt_succ_self _)
  · exact .inr ⟨rfl, Nat.le_succ _⟩

theorem upTo_advance (p : Position) (cs : List Char) : p.UpTo (p.advance cs) := by
  induction cs generalizing p with
  | nil => exact .refl p
  | cons c cs ih => exact (p.upTo_next c).trans (ih _)

/-- Behind a text without line breaks the line is the same. -/
theorem advance_of_line {cs : List Char} (h : ∀ c ∈ cs, c ≠ '\n') (p : Position) :
    p.advance cs = ⟨p.line, p.column + cs.length⟩ := by
  induction cs generalizing p with
  | nil => rfl
  | cons c cs ih =>
    have hnext : p.next c = ⟨p.line, p.column + 1⟩ := if_neg (h c List.mem_cons_self)
    rw [advance_cons, ih fun d hd ↦ h d (List.mem_cons_of_mem c hd), hnext, List.length_cons]
    simp only [mk.injEq, true_and]
    omega

end Position

/-! ## Lines -/

namespace Text

/-- Trimming at the end does not reach characters that stay. -/
private theorem dropTrailing_append {p : Char → Bool} {as : List Char} (hne : as ≠ [])
    (h : ∀ c ∈ as, p c = false) (before bs : List Char) :
    dropTrailing p (before ++ (as ++ bs)) = before ++ (as ++ dropTrailing p bs) := by
  have hstay : (as.reverse ++ before.reverse).dropWhile p = as.reverse ++ before.reverse := by
    cases has : as.reverse with
    | nil => exact absurd (List.reverse_eq_nil_iff.1 has) hne
    | cons a rest =>
      have ha : p a = false := h a (List.mem_reverse.1 (by simp [has]))
      simp [ha]
  rw [dropTrailing, dropTrailing, List.reverse_append, List.reverse_append, List.append_assoc,
    List.dropWhile_append]
  split
  · rename_i hempty
    rw [hstay, List.isEmpty_iff.1 hempty]
    simp
  · simp

end Text

namespace SourceFile

variable {file : SourceFile} {before w after : List Char}

/-- The line on which a text goes on. -/
theorem exists_line?_advance (h : file.text.toList = before ++ after) :
    ∃ start, (Position.start.advance before).column = start.length + 1 ∧
      file.line? (Position.start.advance before).line = some (String.ofList
        (Text.dropTrailing (· == '\r') (start ++ after.takeWhile (· != '\n')))) := by
  obtain ⟨start, hcolumn, hline⟩ := Text.exists_splitLines_behind before after
  rw [Position.advance_start]
  refine ⟨start, hcolumn, ?_⟩
  have hnumber : (Position.behind before).line ≠ 0 := Nat.succ_ne_zero _
  rw [line?, if_neg hnumber, lines, h, List.getElem?_map, hline]
  rfl

theorem isSome_line?_iff {n : Nat} : (file.line? n).isSome ↔ 1 ≤ n ∧ n ≤ file.lineCount := by
  rw [line?, lineCount]
  split
  · simp
    omega
  · simp
    omega

/-- A place in the text is on one of its lines. -/
theorem line_advance (h : before <+: file.text.toList) :
    1 ≤ (Position.start.advance before).line ∧
      (Position.start.advance before).line ≤ file.lineCount := by
  obtain ⟨after, hafter⟩ := h
  obtain ⟨_, _, hline⟩ := exists_line?_advance hafter.symm
  exact isSome_line?_iff.1 (Option.isSome_of_eq_some hline)

end SourceFile

namespace Span

/-- The characters of a line from the start column to the end column, both included. -/
def cut (s : Span) (line : String) : String :=
  String.ofList ((line.toList.drop (s.startColumn - 1)).take (s.endColumn + 1 - s.startColumn))

/-- The span stays on one line of the file, and its columns cut the text out of it. -/
def Quotes (s : Span) (file : SourceFile) (text : String) : Prop :=
  s.startLine = s.endLine ∧ 1 ≤ s.startColumn ∧ s.startColumn ≤ s.endColumn ∧
    ∃ line, file.line? s.startLine = some line ∧ s.endColumn ≤ line.length ∧ s.cut line = text

/-- The span lies on lines of the file. -/
def OnLines (s : Span) (file : SourceFile) : Prop :=
  s.startLine ≤ s.endLine ∧ ∀ n, s.startLine ≤ n → n ≤ s.endLine → (file.line? n).isSome

theorem Quotes.onLines {s : Span} {file : SourceFile} {text : String} (h : s.Quotes file text) :
    s.OnLines file := by
  obtain ⟨hline, -, -, line, hexists, -, -⟩ := h
  refine ⟨Nat.le_of_eq hline, fun n hn hn' ↦ ?_⟩
  have hn : n = s.startLine := by omega
  rw [hn, hexists]
  rfl

/-- The span of a piece without line breaks quotes the piece. -/
theorem quotes_spanTo {file : SourceFile} {before w after : List Char}
    (h : file.text.toList = before ++ (w ++ after)) (hne : w ≠ [])
    (hw : ∀ c ∈ w, c ≠ '\n' ∧ c ≠ '\r') :
    (Token.spanTo (Position.start.advance before)
      (Position.start.advance (before ++ w))).Quotes file (String.ofList w) := by
  obtain ⟨start, hcolumn, hline⟩ := SourceFile.exists_line?_advance h
  have htake : (w ++ after).takeWhile (· != '\n') = w ++ after.takeWhile (· != '\n') :=
    List.takeWhile_append_of_pos fun c hc ↦ by simpa using (hw c hc).1
  have hlength : 0 < w.length := List.length_pos_iff.2 hne
  rw [htake, Text.dropTrailing_append hne fun c hc ↦ by simpa using (hw c hc).2] at hline
  rw [Position.advance_append, Position.advance_of_line fun c hc ↦ (hw c hc).1]
  generalize Position.start.advance before = place at hcolumn hline
  refine ⟨rfl, ?_, ?_, _, hline, ?_, ?_⟩
  all_goals simp only [Token.spanTo]
  · omega
  · omega
  · simp
    omega
  · have hdrop : place.column - 1 = start.length := by omega
    have hcount : max (place.column + w.length - 1) 1 + 1 - place.column = w.length := by omega
    simp only [cut, hdrop, hcount]
    simp

end Span

namespace Token

/-! ## Reading on -/

/-- Reading on from `cs` at `p` leads to `rest` at `q`. -/
def LeadsTo (p : Position) (cs : List Char) (q : Position) (rest : List Char) : Prop :=
  ∃ w, cs = w ++ rest ∧ q = p.advance w

private theorem LeadsTo.refl (p : Position) (cs : List Char) : LeadsTo p cs p cs := ⟨[], rfl, rfl⟩

private theorem LeadsTo.cons {p q : Position} {c : Char} {cs rest : List Char}
    (h : LeadsTo (p.next c) cs q rest) : LeadsTo p (c :: cs) q rest := by
  obtain ⟨w, rfl, rfl⟩ := h
  exact ⟨c :: w, rfl, rfl⟩

theorem leadsTo_skipTrivia (inComment : Bool) (p : Position) (cs : List Char) :
    LeadsTo p cs (skipTrivia inComment p cs).1 (skipTrivia inComment p cs).2 := by
  fun_induction skipTrivia inComment p cs with
  | case1 => exact .refl _ _
  | case2 _ _ _ ih => exact ih.cons
  | case3 _ _ _ _ _ _ ih => exact ih.cons
  | case4 _ _ _ _ _ _ _ ih => exact ih.cons
  | case5 => exact .refl _ _

private theorem takeWord_split (cs : List Char) : cs = (takeWord cs).1 ++ (takeWord cs).2 := by
  fun_induction takeWord cs with
  | case1 => rfl
  | case2 c cs _ word rest htake ih =>
    rw [htake] at ih
    rw [ih]
    rfl
  | case3 => rfl

private theorem position_foldr_push (cs : List Char) (q : Quoted) :
    (cs.foldr Quoted.push q).position = q.position := by
  induction cs with
  | nil => rfl
  | cons c cs ih => exact ih

private theorem leadsTo_takeString (start p : Position) (cs : List Char) :
    LeadsTo p cs (takeString start p cs).position (takeString start p cs).rest := by
  fun_induction takeString start p cs with
  | case1 => exact .refl _ _
  | case2 p => exact (LeadsTo.refl _ _).cons
  | case3 p c cs q e _ ih => exact ih.cons.cons
  | case4 p c cs q _ ih =>
    simp only [Quoted.fault, rest_foldr_push, position_foldr_push]
    exact ih.cons.cons
  | case5 => exact (LeadsTo.refl _ _).cons
  | case6 => exact (LeadsTo.refl _ _).cons
  | case7 p c cs _ _ _ _ ih => exact ih.cons

private theorem print_ofMark? {c : Char} {mark : Kind} (h : Kind.ofMark? c = some mark) :
    mark.print = [c] := by
  unfold Kind.ofMark? at h
  split at h <;> cases h <;> rfl

private theorem print_ofWord (w : List Char) : (Kind.ofWord (String.ofList w)).print = w := by
  unfold Kind.ofWord
  split
  · rename_i k hk
    have htext : k.text = String.ofList w := by simpa using List.find?_some hk
    rw [Kind.print, htext, String.toList_ofList]
  · rw [Kind.print, String.toList_ofList]

/-- A token that is read covers what is read, and is written like it unless it is a string. -/
theorem scan_covers (p : Position) (c : Char) (cs : List Char) :
    ∃ w, w ≠ [] ∧ c :: cs = w ++ (scan p c cs).rest ∧ (scan p c cs).position = p.advance w ∧
      ∀ t, (scan p c cs).token = some t → t.span = spanTo p (p.advance w) ∧
        ((∀ value, t.kind ≠ .string value) → w = t.kind.print) := by
  unfold scan
  split
  · rename_i mark hmark
    refine ⟨[c], by simp, rfl, rfl, ?_⟩
    rintro t ⟨⟩
    exact ⟨rfl, fun _ ↦ (print_ofMark? hmark).symm⟩
  split
  · rename_i harrow
    obtain ⟨rfl, hnext⟩ := harrow
    obtain ⟨rest, rfl⟩ : ∃ rest, cs = '>' :: rest := by
      cases cs with
      | nil => cases hnext
      | cons d rest =>
        cases hnext
        exact ⟨rest, rfl⟩
    refine ⟨['-', '>'], by simp, rfl, rfl, ?_⟩
    rintro t ⟨⟩
    exact ⟨rfl, fun _ ↦ rfl⟩
  split
  · obtain ⟨w, hw, hq⟩ := leadsTo_takeString p (p.next c) cs
    refine ⟨c :: w, by simp, congrArg (c :: ·) hw, hq, ?_⟩
    rintro t ⟨⟩
    exact ⟨congrArg (spanTo p) hq, fun hstring ↦ absurd rfl (hstring _)⟩
  split
  · refine ⟨c :: (takeWord cs).1, by simp, congrArg (c :: ·) (takeWord_split cs), rfl, ?_⟩
    rintro t ⟨⟩
    exact ⟨rfl, fun _ ↦ (print_ofWord _).symm⟩
  · refine ⟨[c], by simp, rfl, rfl, ?_⟩
    rintro t ⟨⟩

/-! ## Tokens in a text -/

/-- The token covers the piece `w` of the text, which stands behind `before`. -/
structure Covers (t : Token) (text before w : List Char) : Prop where
  stands : before ++ w <+: text
  ne_nil : w ≠ []
  span_eq : t.span = spanTo (Position.start.advance before) (Position.start.advance (before ++ w))
  printable : t.kind.IsPrintable
  /-- Strings may be written in several ways. -/
  spelled : (∀ value, t.kind ≠ .string value) → w = t.kind.print

/-- The tokens cover pieces of the text, one after the other, behind `before`. -/
private inductive InOrder (text : List Char) : List Char → List Token → Prop where
  | nil {before : List Char} : InOrder text before []
  | cons {before start w : List Char} {t : Token} {ts : List Token} :
    before <+: start → t.Covers text start w → InOrder text (start ++ w) ts →
      InOrder text before (t :: ts)

namespace InOrder

variable {text before start w : List Char} {t : Token} {ts : List Token}

private theorem mono (hstart : start <+: before) (h : InOrder text before ts) :
    InOrder text start ts := by
  cases h with
  | nil => exact .nil
  | cons hbefore hcovers hbehind => exact .cons (hstart.trans hbefore) hcovers hbehind

/-- Every token covers a piece behind the start. -/
private theorem exists_covers (h : InOrder text before ts) (ht : t ∈ ts) :
    ∃ start w, before <+: start ∧ t.Covers text start w := by
  induction h with
  | nil => cases ht
  | cons hbefore hcovers _ ih =>
    rcases List.mem_cons.1 ht with rfl | ht
    · exact ⟨_, _, hbefore, hcovers⟩
    · obtain ⟨start, w, hstart, hcovers'⟩ := ih ht
      exact ⟨start, w, hbefore.trans ((List.prefix_append _ _).trans hstart), hcovers'⟩

end InOrder

/-- The token neither starts nor stops behind the other one. -/
def UpTo (t u : Token) : Prop :=
  t.span.start.UpTo u.span.start ∧ t.span.stop.UpTo u.span.stop

private theorem upTo_of_prefix {as bs : List Char} (h : as <+: bs) :
    (Position.start.advance as).UpTo (Position.start.advance bs) := by
  obtain ⟨cs, rfl⟩ := h
  rw [Position.advance_append]
  exact Position.upTo_advance _ cs

private theorem Covers.upTo {text before before' w w' : List Char} {t u : Token}
    (ht : t.Covers text before w) (hu : u.Covers text before' w')
    (h : before ++ w <+: before') : t.UpTo u := by
  have hstart := upTo_of_prefix ((List.prefix_append before w).trans h)
  have hstop := upTo_of_prefix (h.trans (List.prefix_append before' w'))
  rw [UpTo, ht.span_eq, hu.span_eq]
  refine ⟨hstart, ?_⟩
  simp only [Position.UpTo, Span.stop, spanTo] at hstop ⊢
  omega

private theorem InOrder.pairwise {text before : List Char} {ts : List Token}
    (h : InOrder text before ts) : ts.Pairwise UpTo := by
  induction h with
  | nil => exact .nil
  | cons _ hcovers hbehind ih =>
    refine .cons (fun u hu ↦ ?_) ih
    obtain ⟨start, w, hstart, hcovers'⟩ := hbehind.exists_covers hu
    exact hcovers.upTo hcovers' hstart

/-- `tokens` are in order wherever `cs` stands at `p` in the text. -/
private def OrderedFrom (text : List Char) (p : Position) (cs : List Char) (ts : List Token) :
    Prop :=
  ∀ before, text = before ++ cs → p = Position.start.advance before → InOrder text before ts

private theorem OrderedFrom.skip {text : List Char} {p : Position} {cs : List Char}
    {ts : List Token}
    (h : OrderedFrom text (skipTrivia false p cs).1 (skipTrivia false p cs).2 ts) :
    OrderedFrom text p cs ts := by
  intro before htext hp
  obtain ⟨w, hcs, hq⟩ := leadsTo_skipTrivia false p cs
  have hbehind := h (before ++ w) (by rw [htext, List.append_assoc, ← hcs])
    (by rw [hq, hp, Position.advance_append])
  exact hbehind.mono (List.prefix_append before w)

private theorem OrderedFrom.scan {text : List Char} {p : Position} {c : Char} {cs : List Char}
    {ts : List Token} (h : OrderedFrom text (scan p c cs).position (scan p c cs).rest ts) :
    OrderedFrom text p (c :: cs) ((scan p c cs).token.toList ++ ts) := by
  intro before htext hp
  obtain ⟨w, hne, hcs, hq, htoken⟩ := scan_covers p c cs
  have hsplit : text = before ++ w ++ (Token.scan p c cs).rest := by
    rw [htext, hcs, List.append_assoc]
  have hstop : p.advance w = Position.start.advance (before ++ w) := by
    rw [hp, Position.advance_append]
  have hbehind := h (before ++ w) hsplit (hq.trans hstop)
  cases ht : (Token.scan p c cs).token with
  | none => exact hbehind.mono (List.prefix_append before w)
  | some t =>
    obtain ⟨hspan, hspelled⟩ := htoken t ht
    refine .cons (List.prefix_refl before) ?_ hbehind
    exact
      { stands := ⟨_, hsplit.symm⟩
        ne_nil := hne
        span_eq := by rw [hspan, hstop, hp]
        printable := isPrintable_scan ht
        spelled := hspelled }

/-- The tokens of a text cover pieces of it, and none stands behind a later one. -/
theorem exists_lex_eq_covering (file : SourceFile) :
    ∃ tokens finish, (lex file).1 = tokens ++ [finish] ∧ finish.kind = .eof ∧
      (∀ t ∈ tokens, ∃ before w, t.Covers file.text.toList before w) ∧ tokens.Pairwise UpTo := by
  obtain ⟨tokens, finish, hlex, hfinish, hordered⟩ :=
    exists_lexFrom_eq_of (Q := OrderedFrom file.text.toList) (fun _ _ _ _ _ ↦ .nil)
      (fun _ _ _ h ↦ h.skip) (fun _ _ _ _ h ↦ h.scan) file .start file.text.toList .empty
  have hinorder := hordered [] rfl rfl
  refine ⟨tokens, finish, hlex, hfinish, fun t ht ↦ ?_, hinorder.pairwise⟩
  obtain ⟨start, w, -, hcovers⟩ := hinorder.exists_covers ht
  exact ⟨start, w, hcovers⟩

/-! ## The place of a token in the file -/

section

variable {file : SourceFile} {t : Token} {before w : List Char}

private theorem ne_of_isHyphenated {cs : List Char} (h : IsHyphenated cs) :
    ∀ c ∈ cs, c ≠ '\n' ∧ c ≠ '\r' := by
  have hrun : ∀ {run : List Char}, IsRun run → ∀ c ∈ run, c ≠ '\n' ∧ c ≠ '\r' := by
    intro run hrun c hc
    have hword := hrun.2 c hc
    constructor
    all_goals
      rintro rfl
      exact absurd hword (by decide)
  obtain ⟨first, others, hfirst, hothers, rfl⟩ := h
  intro c hc
  rcases List.mem_append.1 hc with hc | hc
  · exact hrun hfirst c hc
  · obtain ⟨run, hmem, hc⟩ := List.mem_flatMap.1 hc
    rcases List.mem_cons.1 hc with rfl | hc
    · decide
    · exact hrun (hothers run hmem) c hc

/-- Only strings are written with line breaks. -/
theorem ne_of_mem_print {kind : Kind} (hkind : kind.IsPrintable)
    (hstring : ∀ value, kind ≠ .string value) : ∀ c ∈ kind.print, c ≠ '\n' ∧ c ≠ '\r' := by
  cases kind with
  | word name => exact ne_of_isHyphenated hkind.1
  | string value => exact absurd rfl (hstring value)
  | keyword k => exact ne_of_isHyphenated (isHyphenated_keyword k)
  | leftBrace | rightBrace | semicolon | comma | arrow | eof => simp [Kind.print]

/-- The span of a token that is no string quotes what is written. -/
theorem Covers.quotes (h : t.Covers file.text.toList before w)
    (hstring : ∀ value, t.kind ≠ .string value) :
    t.span.Quotes file (String.ofList t.kind.print) := by
  obtain ⟨after, hstands⟩ := h.stands
  have hw := h.spelled hstring
  rw [h.span_eq, ← hw]
  refine Span.quotes_spanTo (by rw [← hstands, List.append_assoc]) h.ne_nil ?_
  rw [hw]
  exact ne_of_mem_print h.printable hstring

/-- A span from the start of a token to the end of a later one lies on lines of the file. -/
theorem Covers.onLines {u : Token} {before' w' : List Char}
    (ht : t.Covers file.text.toList before w) (hu : u.Covers file.text.toList before' w')
    (h : t.span.start.UpTo u.span.stop) :
    (Span.between t.span.start u.span.stop).OnLines file := by
  have hfirst := SourceFile.line_advance ((List.prefix_append before w).trans ht.stands)
  have hlast := SourceFile.line_advance hu.stands
  rw [Span.OnLines, ht.span_eq, hu.span_eq]
  rw [Position.UpTo, ht.span_eq, hu.span_eq] at h
  simp only [Span.between, Span.start, Span.stop, spanTo] at h ⊢
  refine ⟨by omega, fun n hn hn' ↦ SourceFile.isSome_line?_iff.2 ⟨by omega, by omega⟩⟩

end

end Token

end StateGen
