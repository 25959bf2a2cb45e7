import StateGen.Proofs.Token.Lexing

/-!
# Lexing undoes printing

Tokens are written down one behind the other, with blanks and complete line comments between them.
Lexing such a text reports no fault and gives the tokens back. Conversely, whatever text is lexed,
the tokens in front of the end are of kinds that can be written down, so lexing them once more
changes nothing.
-/

namespace StateGen.Token

/-! ## Words with hyphens -/

/-- Word characters, at least one. -/
def IsRun (cs : List Char) : Prop := cs ≠ [] ∧ ∀ c ∈ cs, Text.isWordChar c = true

/-- Runs, each of them behind a hyphen. -/
def hyphenated (runs : List (List Char)) : List Char := runs.flatMap ('-' :: ·)

/-- The form of a word: a run, and further runs behind single hyphens. -/
def IsHyphenated (cs : List Char) : Prop :=
  ∃ first others, IsRun first ∧ (∀ run ∈ others, IsRun run) ∧ cs = first ++ hyphenated others

/-- What follows cannot continue a word. -/
def EndsWord (rest : List Char) : Prop := ∀ c ∈ rest.head?, Text.isWordChar c = false ∧ c ≠ '-'

theorem takeWord_of_endsWord {rest : List Char} (h : EndsWord rest) :
    takeWord rest = ([], rest) := by
  cases rest with
  | nil => rfl
  | cons c rest =>
    have hc := h c rfl
    simp [takeWord, continuesWord, hc.1, hc.2]

private theorem takeWord_run {run : List Char} (h : ∀ c ∈ run, Text.isWordChar c = true)
    (rest : List Char) :
    takeWord (run ++ rest) = (run ++ (takeWord rest).1, (takeWord rest).2) := by
  induction run with
  | nil => rfl
  | cons c run ih =>
    have hc := h c List.mem_cons_self
    have hrest := ih fun d hd ↦ h d (List.mem_cons_of_mem c hd)
    simp [takeWord, continuesWord, hc, hrest]

private theorem takeWord_hyphenated {runs : List (List Char)} (h : ∀ run ∈ runs, IsRun run)
    (rest : List Char) :
    takeWord (hyphenated runs ++ rest) =
      (hyphenated runs ++ (takeWord rest).1, (takeWord rest).2) := by
  induction runs with
  | nil => rfl
  | cons run runs ih =>
    obtain ⟨hne, hword⟩ := h run List.mem_cons_self
    have hrest := ih fun r hr ↦ h r (List.mem_cons_of_mem run hr)
    have hhead : (run ++ (hyphenated runs ++ rest)).head?.any Text.isWordChar = true := by
      cases run with
      | nil => exact absurd rfl hne
      | cons c run => simp [hword c List.mem_cons_self]
    have hsplit : hyphenated (run :: runs) ++ rest =
        '-' :: (run ++ (hyphenated runs ++ rest)) := by
      simp [hyphenated]
    rw [hsplit, takeWord, if_pos (by rw [continuesWord, hhead]; rfl), takeWord_run hword, hrest]
    simp [hyphenated]

/-- A word is taken whole where the text behind it cannot continue it. -/
theorem takeWord_append {run : List Char} {runs : List (List Char)} {rest : List Char}
    (hrun : ∀ c ∈ run, Text.isWordChar c = true) (hruns : ∀ r ∈ runs, IsRun r)
    (hrest : EndsWord rest) :
    takeWord (run ++ hyphenated runs ++ rest) = (run ++ hyphenated runs, rest) := by
  rw [List.append_assoc, takeWord_run hrun, takeWord_hyphenated hruns, takeWord_of_endsWord hrest]
  simp

/-- What is taken behind the first character of a word goes on in runs. -/
private theorem exists_runs_of_takeWord (cs : List Char) :
    ∃ run runs, (∀ c ∈ run, Text.isWordChar c = true) ∧ (∀ r ∈ runs, IsRun r) ∧
      (takeWord cs).1 = run ++ hyphenated runs := by
  fun_induction takeWord cs with
  | case1 => exact ⟨[], [], by simp, by simp, rfl⟩
  | case3 => exact ⟨[], [], by simp, by simp, rfl⟩
  | case2 c cs hgo word rest htake ih =>
    rw [htake] at ih
    obtain ⟨run, runs, hrun, hruns, hword⟩ := ih
    replace hword : word = run ++ hyphenated runs := hword
    by_cases hc : Text.isWordChar c = true
    · exact ⟨c :: run, runs, by simpa [hc] using hrun, hruns, by simp [hword]⟩
    · -- A hyphen is taken only in front of a word character, which starts the next run.
      simp only [continuesWord, hc, Bool.false_or, Bool.and_eq_true, beq_iff_eq] at hgo
      obtain ⟨rfl, hnext⟩ := hgo
      cases cs with
      | nil => cases hnext
      | cons d cs =>
        have hd : Text.isWordChar d = true := by simpa using hnext
        have hhead : word.head? = some d := by
          rw [takeWord, if_pos (by simp [continuesWord, hd]), Prod.mk.injEq] at htake
          rw [← htake.1]
          rfl
        have hne : run ≠ [] := by
          rintro rfl
          rw [hword] at hhead
          cases runs with
          | nil => cases hhead
          | cons r runs =>
            cases hhead
            cases hd
        refine ⟨[], run :: runs, by simp, ?_, by simp [hword, hyphenated]⟩
        intro r hr
        rcases List.mem_cons.1 hr with rfl | hr
        · exact ⟨hne, hrun⟩
        · exact hruns r hr

/-- A word that is taken has the form of a word. -/
theorem isHyphenated_takeWord {c : Char} (hc : Text.isWordChar c = true) (cs : List Char) :
    IsHyphenated (c :: (takeWord cs).1) := by
  obtain ⟨run, runs, hrun, hruns, hword⟩ := exists_runs_of_takeWord cs
  exact ⟨c :: run, runs, ⟨by simp, by simpa [hc] using hrun⟩, hruns, by simp [hword]⟩

/-! ## Strings -/

/-- A character in a quoted string. -/
def escape (c : Char) : List Char :=
  if c = '"' then ['\\', '"']
  else if c = '\\' then ['\\', '\\']
  else if c = '\n' then ['\\', 'n']
  else [c]

/-- An escaped character is read as the character. -/
private theorem takeString_escape (start p : Position) (c : Char) (cs : List Char) :
    ∃ q, takeString start p (escape c ++ cs) = (takeString start q cs).push c := by
  unfold escape
  split
  · next h =>
    subst h
    exact ⟨_, rfl⟩
  split
  · next h =>
    subst h
    exact ⟨_, rfl⟩
  split
  · next h =>
    subst h
    exact ⟨_, rfl⟩
  · next hquote hbackslash hline =>
    refine ⟨p.next c, ?_⟩
    rw [List.singleton_append, takeString.eq_def]
    split
    · next heq => cases heq
    · next heq =>
      cases heq
      exact absurd rfl hbackslash
    · next heq =>
      cases heq
      exact absurd rfl hbackslash
    · next heq =>
      cases heq
      rw [if_neg hline, if_neg hquote]

/-- A quoted string is read up to its closing quote, without a fault. -/
theorem takeString_print (start p : Position) (value rest : List Char) :
    ∃ q, takeString start p (value.flatMap escape ++ '"' :: rest) =
      { value := value, position := q, rest := rest } := by
  induction value generalizing p with
  | nil => exact ⟨p.next '"', rfl⟩
  | cons c value ih =>
    obtain ⟨p', hchar⟩ := takeString_escape start p c (value.flatMap escape ++ '"' :: rest)
    obtain ⟨q, hvalue⟩ := ih p'
    refine ⟨q, ?_⟩
    rw [List.flatMap_cons, List.append_assoc, hchar, hvalue]
    rfl

/-! ## Tokens -/

namespace Kind

/-- The kinds that can be written down: a word has the form of one and is no keyword, and the end
of the text cannot be written. -/
def IsPrintable : Kind → Prop
  | .word name => IsHyphenated name.toList ∧ ∀ k : Keyword, k.text ≠ name
  | .eof => False
  | _ => True

/-- How a kind is written. -/
def print : Kind → List Char
  | .word name => name.toList
  | .string value => '"' :: (value.toList.flatMap escape ++ ['"'])
  | .keyword k => k.text.toList
  | .leftBrace => ['\x7b']
  | .rightBrace => ['\x7d']
  | .semicolon => [';']
  | .comma => [',']
  | .arrow => ['-', '>']
  | .eof => []

end Kind

/-- Every keyword has the form of a word. -/
theorem isHyphenated_keyword (k : Keyword) : IsHyphenated k.text.toList := by
  have htaken : ∃ c cs, k.text.toList = c :: cs ∧ Text.isWordChar c = true ∧
      (takeWord cs).1 = cs := by
    cases k <;> exact ⟨_, _, rfl, by decide, by decide⟩
  obtain ⟨c, cs, htext, hc, hcs⟩ := htaken
  have hword := isHyphenated_takeWord hc cs
  rwa [hcs, ← htext] at hword

/-- A character that neither is a blank nor can start a comment. -/
def StartsToken (c : Char) : Prop := isSeparator c = false ∧ c ≠ '#' ∧ c ≠ '/'

instance (c : Char) : Decidable (StartsToken c) :=
  inferInstanceAs (Decidable (isSeparator c = false ∧ c ≠ '#' ∧ c ≠ '/'))

theorem eq_of_isSeparator {c : Char} (h : isSeparator c = true) :
    c = ' ' ∨ c = '\t' ∨ c = '\r' ∨ c = '\n' := by
  simpa [isSeparator, or_assoc] using h

private theorem skipTrivia_of_startsToken {c : Char} (h : StartsToken c) (p : Position)
    (cs : List Char) : skipTrivia false p (c :: cs) = (p, c :: cs) := by
  obtain ⟨hblank, hhash, hslash⟩ := h
  simp [skipTrivia, hblank, startsComment, hhash, hslash]

section

variable {c : Char} (h : Text.isWordChar c = true)

include h

private theorem startsToken_of_isWordChar : StartsToken c := by
  refine ⟨?_, ?_, ?_⟩
  · cases hblank : isSeparator c with
    | false => rfl
    | true =>
      rcases eq_of_isSeparator hblank with rfl | rfl | rfl | rfl <;> exact absurd h (by decide)
  · rintro rfl
    exact absurd h (by decide)
  · rintro rfl
    exact absurd h (by decide)

/-- A word character starts a word, which goes as far as it can. -/
private theorem scan_of_isWordChar (p : Position) (cs : List Char) :
    ∃ span q, scan p c cs =
      { token := some ⟨.ofWord (String.ofList (c :: (takeWord cs).1)), span⟩, position := q
        rest := (takeWord cs).2 } := by
  have hmark : Kind.ofMark? c = none := by
    unfold Kind.ofMark?
    split <;> first | rfl | exact absurd h (by decide)
  have hhyphen : c ≠ '-' := by
    rintro rfl
    exact absurd h (by decide)
  have hquote : c ≠ '"' := by
    rintro rfl
    exact absurd h (by decide)
  simp only [scan, hmark, hhyphen, false_and, if_false, hquote, h, if_true]
  exact ⟨_, _, rfl⟩

end

/-- A word that stands in front of something else is read as the word or keyword that it is. -/
private theorem scan_of_isHyphenated {w rest : List Char} (hw : IsHyphenated w)
    (hrest : EndsWord rest) :
    ∃ c cs, w = c :: cs ∧ StartsToken c ∧ ∀ p, ∃ span q, scan p c (cs ++ rest) =
      { token := some ⟨.ofWord (String.ofList w), span⟩, position := q, rest := rest } := by
  obtain ⟨first, others, ⟨hne, hfirst⟩, hothers, rfl⟩ := hw
  cases first with
  | nil => exact absurd rfl hne
  | cons c run =>
    have hc := hfirst c List.mem_cons_self
    have htake := takeWord_append (fun d hd ↦ hfirst d (List.mem_cons_of_mem c hd)) hothers hrest
    refine ⟨c, run ++ hyphenated others, rfl, startsToken_of_isWordChar hc, fun p ↦ ?_⟩
    have hscan := scan_of_isWordChar hc p (run ++ hyphenated others ++ rest)
    rwa [htake] at hscan

/-- A printed token is read back, if what follows it cannot belong to it. -/
theorem scan_print {k : Kind} (hk : k.IsPrintable) {rest : List Char} (hrest : EndsWord rest) :
    ∃ c cs, k.print = c :: cs ∧ StartsToken c ∧ ∀ p, ∃ span q, scan p c (cs ++ rest) =
      { token := some ⟨k, span⟩, position := q, rest := rest } := by
  cases k with
  | word name =>
    have hword := scan_of_isHyphenated hk.1 hrest
    have hkind : Kind.ofWord name = .word name := by
      rw [Kind.ofWord, Keyword.ofText?_eq_none_iff.2 hk.2]
    rwa [String.ofList_toList, hkind] at hword
  | keyword word =>
    have hword := scan_of_isHyphenated (isHyphenated_keyword word) hrest
    have hkind : Kind.ofWord word.text = .keyword word := by
      cases word <;> rfl
    rwa [String.ofList_toList, hkind] at hword
  | string value =>
    refine ⟨'"', value.toList.flatMap escape ++ ['"'], rfl, by decide, fun p ↦ ?_⟩
    obtain ⟨q, hvalue⟩ := takeString_print p (p.next '"') value.toList rest
    refine ⟨spanTo p q, q, ?_⟩
    have hmark : Kind.ofMark? '"' = none := rfl
    simp [scan, hmark, hvalue]
  | leftBrace | rightBrace | semicolon | comma =>
    exact ⟨_, [], rfl, by decide, fun p ↦ ⟨_, _, rfl⟩⟩
  | arrow => exact ⟨'-', ['>'], rfl, by decide, fun p ↦ ⟨_, _, rfl⟩⟩
  | eof => exact hk.elim

/-! ## Between tokens -/

/-- A blank or a complete line comment. -/
inductive Trivia where
  | blank (c : Char) (isBlank : isSeparator c = true)
  /-- From `#` to the end of the line. -/
  | hash (comment : List Char) (oneLine : '\n' ∉ comment)
  /-- From `//` to the end of the line. -/
  | slashes (comment : List Char) (oneLine : '\n' ∉ comment)

def Trivia.print : Trivia → List Char
  | .blank c _ => [c]
  | .hash comment _ => '#' :: (comment ++ ['\n'])
  | .slashes comment _ => '/' :: '/' :: (comment ++ ['\n'])

def printTrivia (ts : List Trivia) : List Char := ts.flatMap Trivia.print

private theorem skipTrivia_comment {comment : List Char} (h : '\n' ∉ comment) (p : Position)
    (rest : List Char) :
    ∃ q, skipTrivia true p (comment ++ '\n' :: rest) = skipTrivia false q rest := by
  induction comment generalizing p with
  | nil => exact ⟨p.next '\n', rfl⟩
  | cons c comment ih =>
    rw [List.mem_cons, not_or] at h
    obtain ⟨q, hq⟩ := ih h.2 (p.next c)
    have hc : (c != '\n') = true := by simpa using Ne.symm h.1
    exact ⟨q, by rw [List.cons_append, skipTrivia, if_pos rfl, hc, hq]⟩

/-- Whatever stands between tokens is skipped. -/
theorem skipTrivia_printTrivia (ts : List Trivia) (p : Position) (rest : List Char) :
    ∃ q, skipTrivia false p (printTrivia ts ++ rest) = skipTrivia false q rest := by
  induction ts generalizing p with
  | nil => exact ⟨p, rfl⟩
  | cons t ts ih =>
    have hfirst : ∃ q, skipTrivia false p (t.print ++ (printTrivia ts ++ rest)) =
        skipTrivia false q (printTrivia ts ++ rest) := by
      cases t with
      | blank c hc => exact ⟨p.next c, by simp [Trivia.print, skipTrivia, hc]⟩
      | hash comment hline =>
        have hskip := skipTrivia_comment hline (p.next '#') (printTrivia ts ++ rest)
        simpa [Trivia.print, skipTrivia, startsComment, isSeparator] using hskip
      | slashes comment hline =>
        have hskip := skipTrivia_comment hline ((p.next '/').next '/') (printTrivia ts ++ rest)
        simpa [Trivia.print, skipTrivia, startsComment, isSeparator] using hskip
    obtain ⟨q, hq⟩ := hfirst
    obtain ⟨q', hq'⟩ := ih q
    refine ⟨q', ?_⟩
    rw [printTrivia, List.flatMap_cons, List.append_assoc]
    exact hq.trans hq'

/-- No word goes on into what stands between tokens. -/
private theorem endsWord_printTrivia {ts : List Trivia} (h : ts ≠ []) (rest : List Char) :
    EndsWord (printTrivia ts ++ rest) := by
  cases ts with
  | nil => exact absurd rfl h
  | cons t ts =>
    intro c hc
    cases t with
    | blank b hb =>
      cases hc
      rcases eq_of_isSeparator hb with rfl | rfl | rfl | rfl <;> decide
    | hash | slashes =>
      cases hc
      decide

/-! ## Whole texts -/

/-- Tokens with what is written between them. -/
structure Layout where
  /-- What stands in front of the first token. -/
  lead : List Trivia
  /-- The tokens, each with what stands behind it. -/
  tokens : List (Kind × List Trivia)

namespace Layout

def kinds (l : Layout) : List Kind := l.tokens.map Prod.fst

def text (l : Layout) : String :=
  String.ofList
    (printTrivia l.lead ++ l.tokens.flatMap fun x ↦ x.1.print ++ printTrivia x.2)

/-- Something stands between any two tokens. -/
def IsSpaced (l : Layout) : Prop := ∀ x ∈ l.tokens.dropLast, x.2 ≠ []

end Layout

/-- With a printed token in front, it is the first token. -/
private theorem lexFrom_print (file : SourceFile) {k : Kind} (hk : k.IsPrintable)
    {rest : List Char} (hrest : EndsWord rest) (lead : List Trivia) (p : Position) :
    ∃ span q, lexFrom file p (printTrivia lead ++ (k.print ++ rest)) .empty =
      (⟨k, span⟩ :: (lexFrom file q rest .empty).1, (lexFrom file q rest .empty).2) := by
  obtain ⟨c, cs, hprint, hc, hscan⟩ := scan_print hk hrest
  obtain ⟨p', hskip⟩ := skipTrivia_printTrivia lead p (k.print ++ rest)
  obtain ⟨span, q, htoken⟩ := hscan p'
  rw [hprint, List.cons_append, skipTrivia_of_startsToken hc] at hskip
  refine ⟨span, q, ?_⟩
  rw [hprint, List.cons_append, lexFrom, if_neg (by decide)]
  split
  · next heq =>
    rw [hskip] at heq
    cases heq
  · next heq =>
    rw [hskip] at heq
    cases heq
    simp only [htoken]
    rfl

theorem lexFrom_layout (file : SourceFile) (p : Position) (lead : List Trivia)
    (tokens : List (Kind × List Trivia)) (hprint : ∀ x ∈ tokens, x.1.IsPrintable)
    (hspaced : ∀ x ∈ tokens.dropLast, x.2 ≠ []) :
    let l := lexFrom file p
      (printTrivia lead ++ tokens.flatMap fun x ↦ x.1.print ++ printTrivia x.2) .empty
    l.2 = .empty ∧ l.1.map Token.kind = tokens.map Prod.fst ++ [.eof] := by
  induction tokens generalizing p lead with
  | nil =>
    obtain ⟨q, hskip⟩ := skipTrivia_printTrivia lead p []
    rw [List.flatMap_nil, lexFrom, if_neg (by decide)]
    split
    · exact ⟨rfl, rfl⟩
    · next heq =>
      rw [hskip] at heq
      cases heq
  | cons x tokens ih =>
    obtain ⟨k, sep⟩ := x
    have hends : EndsWord
        (printTrivia sep ++ tokens.flatMap fun x ↦ x.1.print ++ printTrivia x.2) := by
      by_cases hsep : sep = []
      · cases tokens with
        | nil => simp [hsep, printTrivia, EndsWord]
        | cons y tokens => exact absurd hsep (hspaced (k, sep) (by simp))
      · exact endsWord_printTrivia hsep _
    obtain ⟨span, q, hlex⟩ := lexFrom_print file (hprint _ List.mem_cons_self) hends lead p
    have hrest : ∀ y ∈ tokens.dropLast, y.2 ≠ [] := by
      intro y hy
      cases tokens with
      | nil => cases hy
      | cons z tokens => exact hspaced y (List.mem_cons_of_mem _ hy)
    obtain ⟨hempty, hkinds⟩ :=
      ih q sep (fun y hy ↦ hprint y (List.mem_cons_of_mem _ hy)) hrest
    dsimp only
    rw [List.flatMap_cons, List.append_assoc, hlex]
    exact ⟨hempty, congrArg (k :: ·) hkinds⟩

/-! ## Every lexed token is printable -/

/-- A word that is read is a keyword, or it has the form of a word and can be written down. -/
private theorem isPrintable_ofWord {w : List Char} (h : IsHyphenated w) :
    (Kind.ofWord (String.ofList w)).IsPrintable := by
  unfold Kind.ofWord
  split
  · exact trivial
  · next hnone => exact ⟨by rwa [String.toList_ofList], Keyword.ofText?_eq_none_iff.1 hnone⟩

theorem isPrintable_scan {p : Position} {c : Char} {cs : List Char} {t : Token}
    (h : (scan p c cs).token = some t) : t.kind.IsPrintable := by
  unfold scan at h
  split at h
  · next mark hmark =>
    cases h
    unfold Kind.ofMark? at hmark
    split at hmark <;> cases hmark <;> exact trivial
  split at h
  · cases h
    exact trivial
  split at h
  · cases h
    exact trivial
  split at h
  · next hc =>
    cases h
    exact isPrintable_ofWord (isHyphenated_takeWord hc cs)
  · cases h

/-- Lexing undoes printing. A text that spells printable tokens, with something between any two of
them, is lexed without a fault to these tokens and the end of the text. Conversely every text is
lexed to printable tokens and one end behind them, and however these are written down again, the
same tokens are read. -/
theorem lex_undoes_print :
    (∀ (name : String) (l : Layout), (∀ k ∈ l.kinds, k.IsPrintable) → l.IsSpaced →
      (lex ⟨name, l.text⟩).2 = .empty ∧
        (lex ⟨name, l.text⟩).1.map Token.kind = l.kinds ++ [.eof]) ∧
    ∀ file : SourceFile, ∃ kinds : List Kind,
      (lex file).1.map Token.kind = kinds ++ [.eof] ∧ (∀ k ∈ kinds, k.IsPrintable) ∧
        ∀ (name : String) (l : Layout), l.kinds = kinds → l.IsSpaced →
          (lex ⟨name, l.text⟩).1.map Token.kind = (lex file).1.map Token.kind := by
  have hprint : ∀ (name : String) (l : Layout), (∀ k ∈ l.kinds, k.IsPrintable) → l.IsSpaced →
      (lex ⟨name, l.text⟩).2 = .empty ∧
        (lex ⟨name, l.text⟩).1.map Token.kind = l.kinds ++ [.eof] := by
    intro name l hkinds hspaced
    rw [lex, Layout.text, String.toList_ofList]
    apply lexFrom_layout _ _ _ _ _ hspaced
    intro x hx
    exact hkinds x.1 (List.mem_map_of_mem hx)
  refine ⟨hprint, fun file ↦ ?_⟩
  obtain ⟨tokens, finish, hlex, hfinish, hprintable⟩ :=
    exists_lexFrom_eq_forall isPrintable_scan file .start file.text.toList .empty
  have hkinds : (lex file).1.map Token.kind = tokens.map Token.kind ++ [.eof] := by
    rw [lex, hlex, List.map_append, List.map_singleton, hfinish]
  have hall : ∀ k ∈ tokens.map Token.kind, k.IsPrintable := by
    intro k hk
    obtain ⟨t, ht, rfl⟩ := List.mem_map.1 hk
    exact hprintable t ht
  refine ⟨tokens.map Token.kind, hkinds, hall, fun name l hl hspaced ↦ ?_⟩
  rw [(hprint name l (hl ▸ hall) hspaced).2, hl, hkinds]

/-- Words with hyphens, an arrow behind a comment and a string with everything that is escaped. -/
private def tangled : Layout where
  lead := [.slashes ['-'] (by decide)]
  tokens :=
    [(.word "a-b", [.hash ['"'] (by decide)]), (.arrow, [.blank '\t' rfl, .blank '\r' rfl]),
      (.string "\"\\\nλ", [.slashes [] (by decide), .blank ' ' rfl]), (.keyword .nextState, [])]

/-- The tokens come back, whatever stands between them. -/
theorem lex_undoes_print_tangled :
    tangled.text = "//-\na-b#\"\n->\t\r\"\\\"\\\\\\nλ\"//\n next-state" ∧
      (∀ k ∈ tangled.kinds, k.IsPrintable) ∧ tangled.IsSpaced ∧
      (lex ⟨"tangled.fsm", tangled.text⟩).2 = .empty ∧
      (lex ⟨"tangled.fsm", tangled.text⟩).1.map Token.kind =
        [.word "a-b", .arrow, .string "\"\\\nλ", .keyword .nextState, .eof] := by
  have hword : (Kind.word "a-b").IsPrintable := by
    refine ⟨⟨['a'], [['b']], ⟨by decide, by simp [Text.isWordChar]⟩, ?_, by decide⟩, ?_⟩
    · intro run hrun
      rw [List.mem_singleton.1 hrun]
      exact ⟨by decide, by simp [Text.isWordChar]⟩
    · intro k
      cases k <;> decide
  have hkinds : ∀ k ∈ tangled.kinds, k.IsPrintable := by
    intro k hk
    simp only [tangled, Layout.kinds, List.map_cons, List.map_nil, List.mem_cons,
      List.not_mem_nil, or_false] at hk
    rcases hk with rfl | rfl | rfl | rfl
    · exact hword
    all_goals exact trivial
  have hspaced : tangled.IsSpaced := by
    intro x hx
    simp only [tangled, List.dropLast, List.mem_cons, List.not_mem_nil, or_false] at hx
    rcases hx with rfl | rfl | rfl <;> simp
  exact ⟨rfl, hkinds, hspaced, lex_undoes_print.1 "tangled.fsm" tangled hkinds hspaced⟩

end StateGen.Token
