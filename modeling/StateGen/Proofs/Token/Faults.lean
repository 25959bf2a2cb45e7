import StateGen.Proofs.Token.Spans

/-!
# Where faults stand

A fault is reported where something starts that cannot be read: at the quote of a string, or at a
character that starts no token. Such a place is on a line of the file, and the fault does not end in
front of it. But every byte of a refused character is reported, and when the first one has been
read, the column has passed the character: the faults of its other bytes start behind it, where
the line may have ended, and end in front of their start.
-/

namespace StateGen

/-! ## Places of faults -/

namespace Span

/-- The span starts at a character of a line of the file and does not end in front of it. -/
structure WellPlaced (s : Span) (file : SourceFile) : Prop where
  upTo_stop : s.start.UpTo s.stop
  start_exists : ∃ line, file.line? s.startLine = some line ∧
    1 ≤ s.startColumn ∧ s.startColumn ≤ line.length

/-- The span starts behind a character of several bytes and ends at it. -/
def IsBackward (s : Span) (file : SourceFile) : Prop :=
  ∃ before c after, file.text.toList = before ++ c :: after ∧ 1 < c.utf8Size ∧
    let place := Position.start.advance before
    s = ⟨place.line, place.column + 1, place.line, place.column⟩

theorem IsBackward.stop_before_start {s : Span} {file : SourceFile} (h : s.IsBackward file) :
    s.stop.before s.start = true := by
  obtain ⟨before, c, after, -, -, rfl⟩ := h
  exact Position.before_iff.2 (.inr ⟨rfl, Nat.lt_succ_self _⟩)

theorem IsBackward.not_wellPlaced {s : Span} {file : SourceFile} (h : s.IsBackward file) :
    ¬ s.WellPlaced file := by
  intro hplaced
  have hbefore := h.stop_before_start
  rw [Position.before_eq_false_iff.2 hplaced.upTo_stop] at hbefore
  cases hbefore

/-- A span from a character on reaches to a later place. -/
theorem wellPlaced_spanTo {file : SourceFile} {before after : List Char} {c : Char} {q : Position}
    (h : file.text.toList = before ++ c :: after) (hc : c ≠ '\n' ∧ c ≠ '\r')
    (hq : (Position.start.advance before).before q = true) :
    (Token.spanTo (Position.start.advance before) q).WellPlaced file := by
  have hquotes := quotes_spanTo (w := [c]) h (by simp) (by simpa using hc)
  obtain ⟨-, hcolumn, hstop, line, hline, hlength, -⟩ := hquotes
  exact ⟨Token.upTo_spanTo hq, line, hline, hcolumn, hstop.trans hlength⟩

end Span

namespace Token

/-! ## Faults of a token -/

private theorem faults_foldr_push (cs : List Char) (q : Quoted) :
    (cs.foldr Quoted.push q).faults = q.faults := by
  induction cs with
  | nil => rfl
  | cons c cs ih => exact ih

/-- A string is to blame from its opening quote on. -/
private theorem faults_takeString {start p : Position} {cs : List Char} {x : Fault × Span}
    (h : x ∈ (takeString start p cs).faults) : ∃ q, p.UpTo q ∧ x.2 = spanTo start q := by
  fun_induction takeString start p cs with
  | case1 p =>
    obtain rfl := List.mem_singleton.1 h
    exact ⟨p, .refl p, rfl⟩
  | case2 p =>
    obtain rfl := List.mem_singleton.1 h
    exact ⟨p.next '\\', p.upTo_next _, rfl⟩
  | case3 p c cs q e _ ih =>
    obtain ⟨stop, hstop, hspan⟩ := ih h
    exact ⟨stop, (p.upTo_advance ['\\', c]).trans hstop, hspan⟩
  | case4 p c cs q _ ih =>
    have hq : p.UpTo q := p.upTo_advance ['\\', c]
    simp only [Quoted.fault, faults_foldr_push, List.mem_cons] at h
    rcases h with rfl | h
    · exact ⟨q, hq, rfl⟩
    · obtain ⟨stop, hstop, hspan⟩ := ih h
      exact ⟨stop, hq.trans hstop, hspan⟩
  | case5 p cs =>
    obtain rfl := List.mem_singleton.1 h
    exact ⟨p.next '\n', p.upTo_next _, rfl⟩
  | case6 => cases h
  | case7 p c cs _ _ _ _ ih =>
    obtain ⟨stop, hstop, hspan⟩ := ih h
    exact ⟨stop, (p.upTo_next c).trans hstop, hspan⟩

/-- A refused character is to blame from its place on, except for its bytes behind the first one. -/
private theorem mem_byteFaults {p : Position} {c : Char} {x : Fault × Span}
    (h : x ∈ byteFaults p c) :
    x.2 = spanTo p (p.next c) ∨
      1 < c.utf8Size ∧ x.1.code = .invalidCharacter ∧ x.2 = spanTo (p.next c) (p.next c) := by
  unfold byteFaults at h
  split at h
  · cases h
  · next b bs hbytes =>
    rcases List.mem_cons.1 h with rfl | h
    · exact .inl rfl
    · obtain ⟨b', hb', rfl⟩ := List.mem_map.1 h
      have hsize : 1 < c.utf8Size := by
        rw [← String.length_utf8EncodeChar, hbytes, List.length_cons]
        exact Nat.succ_lt_succ (List.length_pos_of_mem hb')
      exact .inr ⟨hsize, rfl, rfl⟩

/-- What starts with a character is to blame from there on, except for the bytes of the character
behind its first one. -/
private theorem faults_scan {p : Position} {c : Char} {cs : List Char} {x : Fault × Span}
    (h : x ∈ (scan p c cs).faults) :
    (∃ q, p.before q = true ∧ x.2 = spanTo p q) ∨
      1 < c.utf8Size ∧ x.1.code = .invalidCharacter ∧ x.2 = spanTo (p.next c) (p.next c) := by
  have hnext : p.before (p.next c) = true := p.before_advance (List.cons_ne_nil c [])
  unfold scan at h
  split at h
  · cases h
  split at h
  · cases h
  split at h
  · obtain ⟨q, hq, hspan⟩ := faults_takeString h
    exact .inl ⟨q, Position.before_of_before_of_upTo hnext hq, hspan⟩
  split at h
  · cases h
  · exact (mem_byteFaults h).imp_left fun hspan ↦ ⟨p.next c, hnext, hspan⟩

/-! ## Faults of a text -/

private theorem not_isSeparator_of_skipTrivia {inComment : Bool} {p q : Position}
    {cs rest : List Char} {c : Char} (h : skipTrivia inComment p cs = (q, c :: rest)) :
    isSeparator c = false := by
  fun_induction skipTrivia inComment p cs with
  | case1 => cases h
  | case2 _ _ _ ih => exact ih h
  | case3 _ _ _ _ _ _ ih => exact ih h
  | case4 _ _ _ _ _ _ _ ih => exact ih h
  | case5 =>
    cases h
    simp_all

private theorem mem_errors_pushError {ds : Diagnostics} {d e : Diagnostic}
    (h : d ∈ (ds.pushError e).errors) : d ∈ ds.errors ∨ d = e := by
  unfold Diagnostics.pushError at h
  dsimp only at h
  split at h
  · exact (List.mem_append.1 h).imp_right List.mem_singleton.1
  · exact .inl h

/-- Every error is one of those before or reports a fault of what is read. -/
private theorem mem_errors_report {x : Lexeme} {file : SourceFile} {ds : Diagnostics}
    {d : Diagnostic} (h : d ∈ (x.report file ds).errors) :
    d ∈ ds.errors ∨
      ∃ fault ∈ x.faults, d = .located file fault.1.code fault.1.message fault.2 := by
  unfold Lexeme.report at h
  generalize x.faults = faults at h ⊢
  induction faults generalizing ds with
  | nil => exact .inl h
  | cons fault faults ih =>
    rw [List.foldl_cons] at h
    rcases ih h with hd | ⟨later, hlater, rfl⟩
    · dsimp only at hd
      split at hd
      · exact .inl hd
      · exact (mem_errors_pushError hd).imp_right fun heq ↦ ⟨fault, List.mem_cons_self, heq⟩
    · exact .inr ⟨later, List.mem_cons_of_mem _ hlater, rfl⟩

/-- Every error is one of those before or reports a fault of what starts somewhere in the text. -/
private theorem mem_errors_lexFrom {file : SourceFile} {p : Position} {cs : List Char}
    {ds : Diagnostics} {d : Diagnostic} (h : d ∈ (lexFrom file p cs ds).2.errors) :
    ∀ before, file.text.toList = before ++ cs → p = Position.start.advance before →
      d ∈ ds.errors ∨ ∃ front c rest, file.text.toList = front ++ c :: rest ∧
        isSeparator c = false ∧
        ∃ fault ∈ (scan (Position.start.advance front) c rest).faults,
          d = .located file fault.1.code fault.1.message fault.2 := by
  fun_induction lexFrom file p cs ds with
  | case1 => exact fun _ _ _ ↦ .inl h
  | case2 => exact fun _ _ _ ↦ .inl h
  | case3 p cs ds _ q c rest hskip x tokens ds' hrest ih =>
    intro before htext hp
    obtain ⟨blank, hcs, hq⟩ := leadsTo_skipTrivia false p cs
    rw [hskip] at hcs hq
    dsimp only at hcs hq
    have hfront : file.text.toList = (before ++ blank) ++ c :: rest := by
      rw [htext, hcs, List.append_assoc]
    have hplace : q = Position.start.advance (before ++ blank) := by
      rw [hq, hp, Position.advance_append]
    obtain ⟨w, -, hw, hx, -⟩ := scan_covers q c rest
    have hbehind : file.text.toList = (before ++ blank ++ w) ++ x.rest := by
      rw [hfront, hw]
      exact (List.append_assoc _ w x.rest).symm
    have hstop : x.position = Position.start.advance (before ++ blank ++ w) := by
      rw [Position.advance_append _ _ w, ← hplace]
      exact hx
    rw [hrest] at ih
    rcases ih h _ hbehind hstop with hreport | hlater
    · refine (mem_errors_report hreport).imp_right fun hfault ↦ ?_
      exact ⟨before ++ blank, c, rest, hfront, not_isSeparator_of_skipTrivia hskip, hplace ▸ hfault⟩
    · exact .inr hlater

theorem ne_of_not_isSeparator {c : Char} (h : isSeparator c = false) : c ≠ '\n' ∧ c ≠ '\r' := by
  constructor
  all_goals
    rintro rfl
    exact absurd h (by decide)

/-- A stored fault is well placed, or it is that of a byte of a refused character. -/
private theorem placed_or_backward {file : SourceFile} {d : Diagnostic}
    (h : d ∈ (lex file).2.errors) :
    d.span.WellPlaced file ∨ d.code = .invalidCharacter ∧ d.span.IsBackward file := by
  rcases mem_errors_lexFrom h [] rfl rfl with hnone | hfault
  · cases hnone
  obtain ⟨front, c, rest, htext, hsep, fault, hfault, rfl⟩ := hfault
  have hc := ne_of_not_isSeparator hsep
  rcases faults_scan hfault with ⟨q, hq, hspan⟩ | ⟨hsize, hcode, hspan⟩
  · refine .inl ?_
    show fault.2.WellPlaced file
    rw [hspan]
    exact Span.wellPlaced_spanTo htext hc hq
  · refine .inr ⟨hcode, front, c, rest, htext, hsize, ?_⟩
    have hnext (p : Position) : p.next c = ⟨p.line, p.column + 1⟩ := if_neg hc.1
    have hcolumn := Position.one_le_column_advance (p := .start) (Nat.le_refl 1) front
    show fault.2 = _
    rw [hspan, hnext]
    simp only [spanTo, Nat.add_sub_cancel, Nat.max_eq_left hcolumn]

/-- The faults that are stored begin at a character of the file and do not end in front of it,
except for those of the bytes of a refused character behind the first one. These start behind the
character and end at it, so that there are none where every character takes one byte. -/
theorem stored_faults_are_placed (file : SourceFile) :
    (∀ d ∈ (lex file).2.errors,
      (d.span.WellPlaced file ↔ ¬ d.span.IsBackward file) ∧
        (d.span.IsBackward file → d.code = .invalidCharacter)) ∧
    ((∀ c ∈ file.text.toList, c.utf8Size = 1) →
      ∀ d ∈ (lex file).2.errors, d.span.WellPlaced file) := by
  have hiff : ∀ d ∈ (lex file).2.errors, d.span.WellPlaced file ↔ ¬ d.span.IsBackward file :=
    fun d hd ↦ ⟨fun hplaced hbackward ↦ hbackward.not_wellPlaced hplaced,
      fun hnot ↦ (placed_or_backward hd).resolve_right fun h ↦ hnot h.2⟩
  refine ⟨fun d hd ↦ ⟨hiff d hd, fun hbackward ↦ ?_⟩, fun hbytes d hd ↦ (hiff d hd).2 ?_⟩
  · exact ((placed_or_backward hd).resolve_left hbackward.not_wellPlaced).1
  · rintro ⟨before, c, after, htext, hsize, -⟩
    have hone := hbytes c (by rw [htext]; simp)
    omega

/-- A string with an escape that does not exist, cut off by the end of its line, and a word that
ends with a letter of two bytes. -/
private def cafe : SourceFile := { name := "cafe.fsm", text := "\"a\\q\ncafé" }

private theorem spans_cafe : (lex cafe).2.errors.map Diagnostic.span =
    [⟨1, 1, 1, 4⟩, ⟨1, 1, 2, 1⟩, ⟨2, 4, 2, 4⟩, ⟨2, 5, 2, 4⟩] := by
  decide +kernel

/-- Of the faults in the text all but the last one are well placed. -/
theorem stored_faults_are_placed_cafe :
    ∃ escape string first second, (lex cafe).2.errors = [escape, string, first, second] ∧
      escape.span.WellPlaced cafe ∧ string.span.WellPlaced cafe ∧ first.span.WellPlaced cafe ∧
      second.span.IsBackward cafe := by
  obtain ⟨hplaced, -⟩ := stored_faults_are_placed cafe
  have hspans := spans_cafe
  generalize (lex cafe).2.errors = errors at hplaced hspans
  obtain ⟨escape, errors, rfl, hescape, hspans⟩ := List.map_eq_cons_iff.1 hspans
  obtain ⟨string, errors, rfl, hstring, hspans⟩ := List.map_eq_cons_iff.1 hspans
  obtain ⟨first, errors, rfl, hfirst, hspans⟩ := List.map_eq_cons_iff.1 hspans
  obtain ⟨second, rfl, hsecond⟩ := List.map_eq_singleton_iff.1 hspans
  have hforward {d : Diagnostic} (hd : d ∈ [escape, string, first, second])
      (hstop : d.span.stop.before d.span.start = false) : d.span.WellPlaced cafe := by
    refine (hplaced d hd).1.2 fun hbackward ↦ ?_
    rw [hbackward.stop_before_start] at hstop
    cases hstop
  refine ⟨escape, string, first, second, rfl, hforward (by simp) ?_, hforward (by simp) ?_,
    hforward (by simp) ?_, ?_⟩
  · rw [hescape]
    decide
  · rw [hstring]
    decide
  · rw [hfirst]
    decide
  · refine Classical.byContradiction fun hnot ↦ ?_
    have hstop := ((hplaced second (by simp)).1.2 hnot).upTo_stop
    rw [hsecond] at hstop
    exact absurd (Position.before_eq_false_iff.2 hstop) (by decide)

/-- Not every fault that is stored is well placed. -/
theorem not_stored_faults_placed :
    ¬ ∀ file : SourceFile, ∀ d ∈ (lex file).2.errors, d.span.WellPlaced file := by
  intro h
  have hspans := spans_cafe
  have hall := h cafe
  generalize (lex cafe).2.errors = errors at hall hspans
  have hmem : (⟨2, 5, 2, 4⟩ : Span) ∈ errors.map Diagnostic.span := by
    rw [hspans]
    decide
  obtain ⟨d, hd, hspan⟩ := List.mem_map.1 hmem
  have hstop := (hall d hd).upTo_stop
  rw [hspan] at hstop
  exact absurd (Position.before_eq_false_iff.2 hstop) (by decide)

end Token

end StateGen
