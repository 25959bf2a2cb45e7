import Mathlib.Data.List.TakeWhile
import StateGen.Proofs.Template.Directive

/-!
# The wording of tags

What a tag may say, told by the text between its braces: a comment, a path, a loop over a path, a
condition, or one of the bare words that close and divide blocks. Blanks keep words apart and may
also follow the last one. A tag is read as a directive exactly if its text is one of the wordings of
that directive.
-/

namespace StateGen

namespace Text

/-- A text of blanks, which may be empty. -/
def AllBlank (cs : List Char) : Prop := ∀ c ∈ cs, isBlank c = true

/-- Blanks that keep two words apart. -/
def IsGap (cs : List Char) : Prop := cs ≠ [] ∧ AllBlank cs

theorem isGap_space : IsGap [' '] := ⟨by simp, by simp [AllBlank, isBlank, blankRanges]⟩

/-- The text starts with a character that is no blank, or is empty. -/
def StartsSolid (cs : List Char) : Prop := ∀ c, cs.head? = some c → isBlank c = false

theorem allBlank_nil : AllBlank [] := by
  intro c hc
  cases hc

theorem AllBlank.append {as bs : List Char} (ha : AllBlank as) (hb : AllBlank bs) :
    AllBlank (as ++ bs) := by
  intro c hc
  rcases List.mem_append.1 hc with hc | hc
  · exact ha c hc
  · exact hb c hc

theorem IsGap.append {as bs : List Char} (ha : IsGap as) (hb : AllBlank bs) : IsGap (as ++ bs) :=
  ⟨by simp [ha.1], ha.2.append hb⟩

theorem IsGap.head? {as : List Char} (h : IsGap as) (cs : List Char) (c : Char)
    (hc : (as ++ cs).head? = some c) : isBlank c = true := by
  cases as with
  | nil => exact absurd rfl h.1
  | cons a as =>
    obtain rfl : a = c := by simpa using hc
    exact h.2 a List.mem_cons_self

/-- The blanks in front of a text. -/
theorem allBlank_takeWhile (cs : List Char) : AllBlank (cs.takeWhile isBlank) := fun _ hc ↦
  List.mem_takeWhile_imp hc

theorem dropWhile_blank {bs cs : List Char} (hb : AllBlank bs) (hc : StartsSolid cs) :
    (bs ++ cs).dropWhile isBlank = cs := by
  rw [List.dropWhile_append_of_pos hb]
  cases cs with
  | nil => rfl
  | cons c cs => simp [hc c rfl]

/-- A text is what remains without the blanks at its ends, between blanks. -/
theorem exists_eq_trimBlank (cs : List Char) :
    ∃ bs bs', AllBlank bs ∧ AllBlank bs' ∧ cs = bs ++ (trimBlank cs ++ bs') := by
  let inner := cs.dropWhile isBlank
  refine ⟨cs.takeWhile isBlank, (inner.reverse.takeWhile isBlank).reverse, allBlank_takeWhile cs,
    ?_, ?_⟩
  · intro c hc
    exact allBlank_takeWhile _ c (List.mem_reverse.1 hc)
  · have hinner : trimBlank cs ++ (inner.reverse.takeWhile isBlank).reverse = inner := by
      rw [trimBlank, dropTrailing, ← List.reverse_append, List.takeWhile_append_dropWhile,
        List.reverse_reverse]
    rw [hinner, List.takeWhile_append_dropWhile]

theorem trimBlank_append {cs bs : List Char} (hstart : StartsSolid cs)
    (hstop : StartsSolid cs.reverse) (hb : AllBlank bs) : trimBlank (cs ++ bs) = cs := by
  have hbr : AllBlank bs.reverse := fun c hc ↦ hb c (List.mem_reverse.1 hc)
  rw [trimBlank]
  cases cs with
  | nil =>
    have hnil : bs.dropWhile isBlank = [] := List.dropWhile_eq_nil_iff.2 hb
    rw [List.nil_append, hnil]
    rfl
  | cons c cs =>
    have hc : isBlank c = false := hstart c rfl
    rw [List.cons_append, List.dropWhile_cons_of_neg (by simp [hc]), ← List.cons_append,
      dropTrailing, List.reverse_append, dropWhile_blank hbr hstop, List.reverse_reverse]

/-- Blanks in front belong to no word. -/
theorem words_blank {bs : List Char} (hb : AllBlank bs) (cs : List Char) :
    words (bs ++ cs) = words cs := by
  induction bs with
  | nil => rfl
  | cons b bs ih =>
    rw [List.cons_append, words_cons_blank (hb b List.mem_cons_self)]
    exact ih fun c hc ↦ hb c (List.mem_cons_of_mem b hc)

end Text

namespace Template

/-! ## Paths -/

namespace Path

/-- A character that can stand in a path. -/
def IsPathChar (c : Char) : Prop := Text.isWordChar c = true ∨ c ∈ ['.', '[', ']']

theorem IsPathChar.solid {c : Char} (h : IsPathChar c) :
    Text.isBlank c = false ∧ c ≠ '#' ∧ c ≠ '!' ∧ c ≠ ',' := by
  rcases h with hword | hsign
  · refine ⟨Text.isBlank_of_isWordChar hword, ?_, ?_, ?_⟩
    all_goals
      rintro rfl
      exact absurd hword (by decide)
  · simp only [List.mem_cons, List.not_mem_nil, or_false] at hsign
    rcases hsign with rfl | rfl | rfl
    all_goals decide

/-- Steps are spelled with characters of paths only. -/
private theorem StepsSpell.isPathChar {steps : List Step} {cs : List Char}
    (h : StepsSpell steps cs) : ∀ c ∈ cs, IsPathChar c := by
  have hsign : ∀ c ∈ ['.', '[', ']'], IsPathChar c := fun c hc ↦ .inr hc
  have hname : ∀ {name : String}, IsName name → ∀ c ∈ name.toList, IsPathChar c :=
    fun hname c hc ↦ .inl (hname.2 c hc)
  induction h with
  | nil => simp
  | key hkey _ ih =>
    exact List.forall_mem_cons.2 ⟨hsign _ (by simp), List.forall_mem_append.2 ⟨hname hkey, ih⟩⟩
  | @index digits _ _ hdigits _ _ ih =>
    have hdigit : ∀ c ∈ digits, IsPathChar c := fun c hc ↦
      .inl (by simp [Text.isWordChar, Char.isAlphanum, hdigits.2 c hc])
    simp only [List.forall_mem_cons, List.forall_mem_append]
    exact ⟨hsign _ (by simp), hdigit, hsign _ (by simp), ih⟩
  | lookup hroot _ _ _ ihselector ih =>
    simp only [List.forall_mem_cons, List.forall_mem_append]
    exact ⟨hsign _ (by simp), hname hroot, ihselector, hsign _ (by simp), ih⟩

/-- A text that is a path is not empty and holds characters of paths only. -/
theorem isPathChar_of_parse {text : List Char} {p : Path}
    (h : parse (String.ofList text) = .ok p) : text ≠ [] ∧ ∀ c ∈ text, IsPathChar c := by
  obtain ⟨hroot, rest, htext, hrest⟩ := parse_eq_ok_iff.1 h
  rw [String.toList_ofList] at htext
  subst htext
  refine ⟨by simp [hroot.1], List.forall_mem_append.2 ⟨fun c hc ↦ .inl (hroot.2 c hc), ?_⟩⟩
  exact hrest.isPathChar

end Path

/-! ## Wordings -/

/-- The wordings of a condition: a path, or `!` and a path. -/
inductive Condition.Says : List Char → Condition → Prop where
  | plain {text : List Char} {path : Path} :
    Path.parse (String.ofList text) = .ok path → Says text ⟨false, path⟩
  | negated {bs text : List Char} {path : Path} :
    Text.AllBlank bs → Path.parse (String.ofList text) = .ok path →
      Says ('!' :: (bs ++ text)) ⟨true, path⟩

namespace Directive

/-- The wordings of `value in path`, which may end with blanks. -/
inductive Iterates : List Char → String → Path → Prop where
  | mk {value : String} {path : Path} {b₁ b₂ b₃ text : List Char} :
    IsName value → Text.IsGap b₁ → Text.IsGap b₂ → Path.parse (String.ofList text) = .ok path →
      Text.AllBlank b₃ →
      Iterates (value.toList ++ (b₁ ++ ("in".toList ++ (b₂ ++ (text ++ b₃))))) value path

/-- The wordings of a directive. -/
inductive Says : List Char → Directive → Prop where
  | comment (cs : List Char) : Says ('#' :: cs) .comment
  /-- A path alone, unless it looks like the word of a block. -/
  | subst {text : List Char} {path : Path} :
    Path.parse (String.ofList text) = .ok path →
      String.ofList text ∉ ["for", "endfor", "if", "elif", "else", "endif"] →
      Says text (.subst path)
  | loop {b text : List Char} {value : String} {path : Path} :
    Text.IsGap b → Iterates text value path →
      Says ("for".toList ++ (b ++ text)) (.loop none value path)
  | keyedLoop {b₁ b₂ b₃ text : List Char} {key value : String} {path : Path} :
    Text.IsGap b₁ → IsName key → Text.AllBlank b₂ → Text.AllBlank b₃ → Iterates text value path →
      Says ("for".toList ++ (b₁ ++ (key.toList ++ (b₂ ++ ',' :: (b₃ ++ text)))))
        (.loop (some key) value path)
  | branch {b₁ b₂ text : List Char} {c : Condition} :
    Text.IsGap b₁ → c.Says text → Text.AllBlank b₂ →
      Says ("if".toList ++ (b₁ ++ (text ++ b₂))) (.branch c)
  | elif {b₁ b₂ text : List Char} {c : Condition} :
    Text.IsGap b₁ → c.Says text → Text.AllBlank b₂ →
      Says ("elif".toList ++ (b₁ ++ (text ++ b₂))) (.elif c)
  | endfor {b : List Char} : Text.AllBlank b → Says ("endfor".toList ++ b) .endfor
  | otherwise {b : List Char} : Text.AllBlank b → Says ("else".toList ++ b) .otherwise
  | endif {b : List Char} : Text.AllBlank b → Says ("endif".toList ++ b) .endif

/-! ### Paths and conditions -/

theorem readPath_eq_ok_iff {text : List Char} {span : Span} {path : Path} :
    readPath text span = .ok path ↔ Path.parse (String.ofList text) = .ok path := by
  rw [readPath]
  cases Path.parse (String.ofList text) with
  | ok p => simp
  | error fault => simp

/-- Paths start and end with characters that are no blanks. -/
private theorem startsSolid_of_parse {text : List Char} {path : Path}
    (h : Path.parse (String.ofList text) = .ok path) (rest : List Char) :
    Text.StartsSolid (text ++ rest) := by
  obtain ⟨hne, hchars⟩ := Path.isPathChar_of_parse h
  obtain ⟨c, cs, rfl⟩ := List.exists_cons_of_ne_nil hne
  intro d hd
  obtain rfl : c = d := by simpa using hd
  exact (hchars c List.mem_cons_self).solid.1

private theorem startsSolid_reverse_of_parse {text : List Char} {path : Path}
    (h : Path.parse (String.ofList text) = .ok path) (rest : List Char) :
    Text.StartsSolid (rest ++ text).reverse := by
  obtain ⟨hne, hchars⟩ := Path.isPathChar_of_parse h
  obtain ⟨cs, c, rfl⟩ := List.eq_nil_or_concat text |>.resolve_left hne
  intro d hd
  obtain rfl : c = d := by simpa using hd
  exact (hchars c (by simp)).solid.1

theorem readCondition_eq_ok_iff {text : List Char} {span : Span} {c : Condition} :
    readCondition text span = .ok c ↔ c.Says (Text.trimBlank text) := by
  rw [readCondition]
  constructor
  · intro h
    split at h
    · cases h
    · rename_i rest htext
      obtain ⟨path, hpath, h⟩ := bind_eq_ok h
      cases h
      rw [htext, ← List.takeWhile_append_dropWhile (l := rest) (p := Text.isBlank)]
      exact .negated (Text.allBlank_takeWhile rest) (readPath_eq_ok_iff.1 hpath)
    · obtain ⟨path, hpath, h⟩ := bind_eq_ok h
      cases h
      exact .plain (readPath_eq_ok_iff.1 hpath)
  · intro h
    generalize Text.trimBlank text = trimmed at h
    cases h with
    | plain hpath =>
      obtain ⟨hne, hchars⟩ := Path.isPathChar_of_parse hpath
      split
      · exact absurd rfl hne
      · exact absurd rfl (hchars '!' List.mem_cons_self).solid.2.2.1
      · rw [readPath_eq_ok_iff.2 hpath]
        rfl
    | @negated bs ptext path hbs hpath =>
      have hdrop : (bs ++ ptext).dropWhile Text.isBlank = ptext :=
        Text.dropWhile_blank hbs (by simpa using startsSolid_of_parse hpath [])
      simp only [hdrop, readPath_eq_ok_iff.2 hpath]
      rfl

/-- Conditions start and end with characters that are no blanks. -/
private theorem startsSolid_of_wording {text : List Char} {c : Condition} (h : c.Says text)
    (rest : List Char) : Text.StartsSolid (text ++ rest) ∧ Text.StartsSolid text.reverse := by
  cases h with
  | plain hpath =>
    exact ⟨startsSolid_of_parse hpath rest, by simpa using startsSolid_reverse_of_parse hpath []⟩
  | @negated bs ptext path hbs hpath =>
    refine ⟨?_, startsSolid_reverse_of_parse hpath ('!' :: bs)⟩
    intro d hd
    obtain rfl : '!' = d := by simpa using hd
    decide

private theorem readCondition_of_wording {text b : List Char} {c : Condition} (h : c.Says text)
    (hb : Text.AllBlank b) (span : Span) : readCondition (text ++ b) span = .ok c := by
  obtain ⟨hstart, hstop⟩ := startsSolid_of_wording h []
  rw [List.append_nil] at hstart
  rw [readCondition_eq_ok_iff, Text.trimBlank_append hstart hstop hb]
  exact h

/-! ### Words of a loop -/

/-- A character of a word in the head of a loop: neither a blank nor a comma. -/
private def isLoopChar (c : Char) : Bool := !Text.isBlank c && c != ','

/-- A word in the head of a loop. -/
private def IsLoopWord (w : List Char) : Prop := w ≠ [] ∧ ∀ c ∈ w, isLoopChar c = true

/-- The text goes on with something that ends a word, or is empty. -/
private def EndsLoopWord (rest : List Char) : Prop :=
  ∀ c, rest.head? = some c → isLoopChar c = false

private theorem isLoopChar_iff {c : Char} :
    isLoopChar c = true ↔ Text.isBlank c = false ∧ c ≠ ',' := by
  simp [isLoopChar]

private theorem ne_comma_of_isBlank {c : Char} (h : Text.isBlank c = true) : c ≠ ',' := by
  rintro rfl
  exact absurd h (by decide)

private theorem loopWords_blank {bs : List Char} (hb : Text.AllBlank bs) (rest : List Char) :
    Text.words (spaceCommas (bs ++ rest)) = Text.words (spaceCommas rest) := by
  rw [spaceCommas_append, spaceCommas_eq_self fun c hc ↦ ne_comma_of_isBlank (hb c hc),
    Text.words_blank hb]

private theorem loopWords_comma (rest : List Char) :
    Text.words (spaceCommas (',' :: rest)) = [','] :: Text.words (spaceCommas rest) := by
  have hblank : Text.isBlank ' ' = true := by decide
  have hsign : Text.words ([','] ++ ' ' :: spaceCommas rest) =
      [','] :: Text.words (' ' :: spaceCommas rest) := by
    apply Text.words_append
    · simp
    · simp [Text.isBlank, Text.blankRanges]
    · rintro c ⟨⟩
      exact hblank
  calc Text.words (spaceCommas (',' :: rest))
      = Text.words (' ' :: ([','] ++ ' ' :: spaceCommas rest)) := rfl
    _ = [','] :: Text.words (spaceCommas rest) := by
      rw [Text.words_cons_blank hblank, hsign, Text.words_cons_blank hblank]

private theorem loopWords_word {w rest : List Char} (hw : IsLoopWord w)
    (hrest : EndsLoopWord rest) :
    Text.words (spaceCommas (w ++ rest)) = w :: Text.words (spaceCommas rest) := by
  have hchars := fun c hc ↦ isLoopChar_iff.1 (hw.2 c hc)
  rw [spaceCommas_append, spaceCommas_eq_self fun c hc ↦ (hchars c hc).2]
  apply Text.words_append hw.1 fun c hc ↦ (hchars c hc).1
  intro c hc
  cases rest with
  | nil => cases hc
  | cons d rest =>
    by_cases hd : d = ','
    · obtain rfl : ' ' = c := by simpa [spaceCommas, hd] using hc
      decide
    · obtain rfl : d = c := by simpa [spaceCommas, hd] using hc
      simpa [isLoopChar, hd] using hrest d rfl

/-- A text holds blanks only, or its first word stands behind blanks and, unless it is a comma, in
front of something that ends it. -/
private theorem loopWords_cases (cs : List Char) :
    (Text.AllBlank cs ∧ Text.words (spaceCommas cs) = []) ∨
      ∃ bs w rest, Text.AllBlank bs ∧ cs = bs ++ (w ++ rest) ∧
        Text.words (spaceCommas cs) = w :: Text.words (spaceCommas rest) ∧
        (w = [','] ∨ EndsLoopWord rest) := by
  have hbs : Text.AllBlank (cs.takeWhile Text.isBlank) := Text.allBlank_takeWhile cs
  have hcs : cs.takeWhile Text.isBlank ++ cs.dropWhile Text.isBlank = cs :=
    List.takeWhile_append_dropWhile
  have hwords := loopWords_blank hbs (cs.dropWhile Text.isBlank)
  rw [hcs] at hwords
  cases hsolid : cs.dropWhile Text.isBlank with
  | nil =>
    rw [hsolid, List.append_nil] at hcs
    exact .inl ⟨hcs ▸ hbs, by rw [hwords, hsolid]; rfl⟩
  | cons c rest =>
    -- The first character that is no blank decides: a comma is a word of its own, and anything else
    -- starts a word that goes on up to a blank or a comma.
    right
    have hblank : Text.isBlank c = false := by
      simpa [hsolid] using List.head?_dropWhile_not Text.isBlank cs
    rw [hsolid] at hwords hcs
    by_cases hc : c = ','
    · subst hc
      refine ⟨_, [','], rest, hbs, hcs.symm, ?_, .inl rfl⟩
      rw [hwords, loopWords_comma]
    · have hword : IsLoopWord ((c :: rest).takeWhile isLoopChar) :=
        ⟨by simp [isLoopChar, hblank, hc], fun d hd ↦ List.mem_takeWhile_imp hd⟩
      have hends : EndsLoopWord ((c :: rest).dropWhile isLoopChar) := by
        intro d hd
        simpa [hd] using List.head?_dropWhile_not isLoopChar (c :: rest)
      have hsplit : (c :: rest).takeWhile isLoopChar ++ (c :: rest).dropWhile isLoopChar =
          c :: rest := List.takeWhile_append_dropWhile
      refine ⟨_, (c :: rest).takeWhile isLoopChar, _, hbs, ?_, ?_, .inr hends⟩
      · rw [hsplit, hcs]
      · rw [hwords, ← loopWords_word hword hends, hsplit]

private theorem allBlank_of_loopWords {cs : List Char} (h : Text.words (spaceCommas cs) = []) :
    Text.AllBlank cs := by
  obtain ⟨hblank, -⟩ | ⟨bs, w, rest, -, -, hwords, -⟩ := loopWords_cases cs
  · exact hblank
  · rw [hwords] at h
    cases h

private theorem eq_of_loopWords {cs w : List Char} {ws : List (List Char)}
    (h : Text.words (spaceCommas cs) = w :: ws) :
    ∃ bs rest, Text.AllBlank bs ∧ cs = bs ++ (w ++ rest) ∧ Text.words (spaceCommas rest) = ws ∧
      (w = [','] ∨ EndsLoopWord rest) := by
  obtain ⟨-, hwords⟩ | ⟨bs, w', rest, hbs, hcs, hwords, hends⟩ := loopWords_cases cs
  · rw [hwords] at h
    cases h
  · rw [hwords] at h
    cases h
    exact ⟨bs, rest, hbs, hcs, rfl, hends⟩

/-- Between a word and another one stands a blank at least. -/
private theorem isGap_of_endsLoopWord {bs w rest : List Char} (hb : Text.AllBlank bs)
    (hw : IsLoopWord w) (h : EndsLoopWord (bs ++ (w ++ rest))) : Text.IsGap bs := by
  refine ⟨?_, hb⟩
  rintro rfl
  obtain ⟨c, cs, rfl⟩ := List.exists_cons_of_ne_nil hw.1
  have hc := h c rfl
  rw [hw.2 c List.mem_cons_self] at hc
  cases hc

private theorem endsLoopWord_of_isGap {bs : List Char} (h : Text.IsGap bs) (rest : List Char) :
    EndsLoopWord (bs ++ rest) := by
  intro c hc
  simp [isLoopChar, h.head? rest c hc]

private theorem endsLoopWord_of_allBlank {bs : List Char} (h : Text.AllBlank bs) :
    EndsLoopWord bs := by
  intro c hc
  simp [isLoopChar, h c (List.mem_of_mem_head? hc)]

private theorem isLoopWord_of_parse {text : List Char} {path : Path}
    (h : Path.parse (String.ofList text) = .ok path) : IsLoopWord text := by
  obtain ⟨hne, hchars⟩ := Path.isPathChar_of_parse h
  refine ⟨hne, fun c hc ↦ isLoopChar_iff.2 ?_⟩
  obtain ⟨hblank, -, -, hcomma⟩ := (hchars c hc).solid
  exact ⟨hblank, hcomma⟩

private theorem isLoopWord_of_isName {name : String} (h : IsName name) :
    IsLoopWord name.toList := by
  refine ⟨h.1, fun c hc ↦ isLoopChar_iff.2 ?_⟩
  have hchar : Path.IsPathChar c := .inl (h.2 c hc)
  exact ⟨hchar.solid.1, hchar.solid.2.2.2⟩

private theorem isLoopWord_in : IsLoopWord ['i', 'n'] := by
  refine ⟨by simp, fun c hc ↦ ?_⟩
  simp only [List.mem_cons, List.not_mem_nil, or_false] at hc
  rcases hc with rfl | rfl
  · decide
  · decide

/-! ### Loops -/

private theorem isName_of_isLoopName {name : List Char} (h : isLoopName name = true) :
    IsName (String.ofList name) := by
  rw [isLoopName, Bool.and_eq_true, List.all_eq_true] at h
  rw [IsName, String.toList_ofList]
  exact ⟨by simpa using h.1, h.2⟩

private theorem makeLoop_cases {key : Option (List Char)} {value text : List Char} {span : Span}
    {d : Directive} (h : makeLoop key value text span = .ok d) :
    (∀ name ∈ key.toList ++ [value], IsName (String.ofList name)) ∧
      ∃ path, Path.parse (String.ofList text) = .ok path ∧
        d = .loop (key.map String.ofList) (String.ofList value) path := by
  rw [makeLoop] at h
  split at h
  · cases h
  · rename_i hnames
    obtain ⟨path, hpath, h⟩ := bind_eq_ok h
    cases h
    refine ⟨fun name hname ↦ isName_of_isLoopName ?_, path, readPath_eq_ok_iff.1 hpath, rfl⟩
    simpa using List.find?_eq_none.1 hnames name hname

private theorem makeLoop_of_names {key : Option (List Char)} {value text : List Char} {path : Path}
    (span : Span) (hnames : ∀ name ∈ key.toList ++ [value], IsName (String.ofList name))
    (hpath : Path.parse (String.ofList text) = .ok path) :
    makeLoop key value text span =
      .ok (.loop (key.map String.ofList) (String.ofList value) path) := by
  have hnone : (key.toList ++ [value]).find? (!isLoopName ·) = none := by
    rw [List.find?_eq_none]
    intro name hname
    have hloop := isLoopName_of_isName (hnames name hname)
    rw [String.toList_ofList] at hloop
    simp [hloop]
  rw [makeLoop, hnone, readPath_eq_ok_iff.2 hpath]
  rfl

private theorem iterates_of_loopWords {cs value text : List Char} {path : Path}
    (h : Text.words (spaceCommas cs) = [value, ['i', 'n'], text])
    (hvalue : IsName (String.ofList value)) (hpath : Path.parse (String.ofList text) = .ok path) :
    ∃ bs rest, Text.AllBlank bs ∧ cs = bs ++ rest ∧ Iterates rest (String.ofList value) path := by
  obtain ⟨b₀, rest₁, hb₀, rfl, h, hends₁⟩ := eq_of_loopWords h
  obtain ⟨b₁, rest₂, hb₁, rfl, h, hends₂⟩ := eq_of_loopWords h
  obtain ⟨b₂, rest₃, hb₂, rfl, h, -⟩ := eq_of_loopWords h
  -- A comma may touch the next word, so that a gap behind the value needs the value to be a name.
  have hcomma : value ≠ [','] := by
    rintro rfl
    exact absurd (hvalue.2 ',' (by simp)) (by decide)
  have hgap₁ := isGap_of_endsLoopWord hb₁ isLoopWord_in (hends₁.resolve_left hcomma)
  have hgap₂ := isGap_of_endsLoopWord hb₂ (isLoopWord_of_parse hpath)
    (hends₂.resolve_left (by decide))
  refine ⟨b₀, _, hb₀, rfl, ?_⟩
  have hall := Iterates.mk hvalue hgap₁ hgap₂ hpath (allBlank_of_loopWords h)
  rwa [String.toList_ofList] at hall

private theorem loopWords_of_iterates {cs : List Char} {value : String} {path : Path}
    (h : Iterates cs value path) :
    IsName value ∧ ∃ text, Path.parse (String.ofList text) = .ok path ∧
      Text.words (spaceCommas cs) = [value.toList, ['i', 'n'], text] := by
  obtain ⟨hvalue, hgap₁, hgap₂, hpath, hb₃⟩ := h
  rename_i b₁ b₂ b₃ text
  refine ⟨hvalue, text, hpath, ?_⟩
  have hlast : Text.words (spaceCommas b₃) = [] := by
    rw [← List.append_nil b₃, loopWords_blank hb₃]
    rfl
  have hin : "in".toList = ['i', 'n'] := rfl
  rw [loopWords_word (isLoopWord_of_isName hvalue) (endsLoopWord_of_isGap hgap₁ _),
    loopWords_blank hgap₁.2, hin, loopWords_word isLoopWord_in (endsLoopWord_of_isGap hgap₂ _),
    loopWords_blank hgap₂.2, loopWords_word (isLoopWord_of_parse hpath)
      (endsLoopWord_of_allBlank hb₃), hlast]

private theorem says_of_readLoop {b text : List Char} {span : Span} {d : Directive}
    (hb : Text.IsGap b) (h : readLoop text span = .ok d) :
    Says ("for".toList ++ (b ++ text)) d := by
  rw [readLoop] at h
  split at h
  · rename_i value ptext hwords
    obtain ⟨hnames, path, hpath, rfl⟩ := makeLoop_cases h
    obtain ⟨bs, rest, hbs, rfl, hiterates⟩ :=
      iterates_of_loopWords hwords (hnames value (by simp)) hpath
    rw [← List.append_assoc b]
    exact .loop (hb.append hbs) hiterates
  · rename_i key value ptext hwords
    obtain ⟨hnames, path, hpath, rfl⟩ := makeLoop_cases h
    obtain ⟨b₁, rest₁, hb₁, rfl, hwords, -⟩ := eq_of_loopWords hwords
    obtain ⟨b₂, rest₂, hb₂, rfl, hwords, -⟩ := eq_of_loopWords hwords
    obtain ⟨b₃, rest₃, hb₃, rfl, hiterates⟩ :=
      iterates_of_loopWords hwords (hnames value (by simp)) hpath
    have hall := Says.keyedLoop (hb.append hb₁) (hnames key (by simp)) hb₂ hb₃ hiterates
    have hkey : (String.ofList key).toList = key := String.toList_ofList
    rw [hkey, List.append_assoc] at hall
    exact hall
  · cases h

private theorem readLoop_of_iterates {text : List Char} {value : String} {path : Path}
    (h : Iterates text value path) (span : Span) :
    readLoop text span = .ok (.loop none value path) := by
  obtain ⟨hvalue, ptext, hpath, hwords⟩ := loopWords_of_iterates h
  have hmake : makeLoop none value.toList ptext span = .ok (.loop none value path) := by
    rw [makeLoop_of_names span (by simpa using hvalue) hpath]
    simp
  rw [readLoop, hwords]
  exact hmake

private theorem readLoop_of_key {b₂ b₃ text : List Char} {key value : String} {path : Path}
    (hkey : IsName key) (hb₂ : Text.AllBlank b₂) (hb₃ : Text.AllBlank b₃)
    (h : Iterates text value path) (span : Span) :
    readLoop (key.toList ++ (b₂ ++ ',' :: (b₃ ++ text))) span =
      .ok (.loop (some key) value path) := by
  obtain ⟨hvalue, ptext, hpath, hwords⟩ := loopWords_of_iterates h
  have hends : EndsLoopWord (b₂ ++ ',' :: (b₃ ++ text)) := by
    cases b₂ with
    | nil =>
      rintro c ⟨⟩
      decide
    | cons b bs => exact endsLoopWord_of_isGap ⟨by simp, hb₂⟩ _
  have hmake : makeLoop (some key.toList) value.toList ptext span =
      .ok (.loop (some key) value path) := by
    rw [makeLoop_of_names span (by simpa using ⟨hkey, hvalue⟩) hpath]
    simp
  rw [readLoop, loopWords_word (isLoopWord_of_isName hkey) hends, loopWords_blank hb₂,
    loopWords_comma, loopWords_blank hb₃, hwords]
  exact hmake

private theorem startsSolid_of_isName {name : String} (h : IsName name) (rest : List Char) :
    Text.StartsSolid (name.toList ++ rest) := by
  obtain ⟨c, cs, hname⟩ := List.exists_cons_of_ne_nil h.1
  intro d hd
  obtain rfl : c = d := by simpa [hname] using hd
  exact Text.isBlank_of_isWordChar (h.2 c (by simp [hname]))

private theorem startsSolid_of_iterates {text : List Char} {value : String} {path : Path}
    (h : Iterates text value path) : Text.StartsSolid text := by
  obtain ⟨hvalue, -, -, -, -⟩ := h
  exact startsSolid_of_isName hvalue _

/-! ### Tags -/

/-- The tag of a block is read by its word and by what stands behind the gap. -/
private theorem ofTag_gap (word : String)
    (hword : word ∈ ["for", "endfor", "if", "elif", "else", "endif"]) {tag : Tag}
    {b text : List Char} (hbody : tag.body.toList = word.toList ++ (b ++ text)) (hb : Text.IsGap b)
    (htext : Text.StartsSolid text) :
    ofTag tag = ofWord word tag.body.toList text tag.span := by
  have htag := ofTag_keyword word hword tag.span hbody (hb.head? text)
  rw [Text.dropWhile_blank hb.2 htext, ← hbody] at htag
  exact htag

/-- A bare word may stand in front of blanks. -/
private theorem ofTag_bare (word : String)
    (hword : word ∈ ["for", "endfor", "if", "elif", "else", "endif"]) {tag : Tag} {b : List Char}
    (hbody : tag.body.toList = word.toList ++ b) (hb : Text.AllBlank b) :
    ofTag tag = ofWord word tag.body.toList [] tag.span := by
  have htag := ofTag_keyword word hword tag.span hbody fun c hc ↦ hb c (List.mem_of_mem_head? hc)
  rw [List.dropWhile_eq_nil_iff.2 hb, ← hbody] at htag
  exact htag

theorem ofTag_of_wording {tag : Tag} {body : List Char} {d : Directive} (h : Says body d)
    (hbody : tag.body.toList = body) : ofTag tag = .ok d := by
  cases h with
  | comment cs =>
    rw [ofTag, hbody]
    rfl
  | subst hpath hword =>
    obtain ⟨hne, hchars⟩ := Path.isPathChar_of_parse hpath
    have htag := ofTag_eq tag.span (hbody.trans (List.append_nil body).symm) (by simpa using hne)
      (by simpa using fun hc ↦ (hchars _ (List.mem_of_mem_head? hc)).solid.2.1 rfl)
      (fun c hc ↦ (hchars c hc).solid.1) (by simp)
    refine htag.trans ?_
    rw [List.append_nil, ofWord, readPath_eq_ok_iff.2 hpath]
    · rfl
    all_goals exact fun heq ↦ hword (by simp [heq])
  | loop hb hiterates =>
    rw [ofTag_gap "for" (by simp) hbody hb (startsSolid_of_iterates hiterates), ofWord,
      readLoop_of_iterates hiterates]
  | keyedLoop hb₁ hkey hb₂ hb₃ hiterates =>
    rw [ofTag_gap "for" (by simp) hbody hb₁ (startsSolid_of_isName hkey _), ofWord,
      readLoop_of_key hkey hb₂ hb₃ hiterates]
  | branch hb₁ hc hb₂ =>
    rw [ofTag_gap "if" (by simp) hbody hb₁ (startsSolid_of_wording hc _).1, ofWord,
      readCondition_of_wording hc hb₂]
    rfl
  | elif hb₁ hc hb₂ =>
    rw [ofTag_gap "elif" (by simp) hbody hb₁ (startsSolid_of_wording hc _).1, ofWord,
      readCondition_of_wording hc hb₂]
    rfl
  | endfor hb =>
    rw [ofTag_bare "endfor" (by simp) hbody hb]
    rfl
  | otherwise hb =>
    rw [ofTag_bare "else" (by simp) hbody hb]
    rfl
  | endif hb =>
    rw [ofTag_bare "endif" (by simp) hbody hb]
    rfl

/-- In front of arguments stands a gap. -/
private theorem isGap_of_arguments {rest : List Char}
    (hrest : ∀ c, rest.head? = some c → Text.isBlank c = true)
    (h : rest.dropWhile Text.isBlank ≠ []) : Text.IsGap (rest.takeWhile Text.isBlank) := by
  refine ⟨?_, Text.allBlank_takeWhile rest⟩
  cases rest with
  | nil => exact absurd rfl h
  | cons d rest => simp [hrest d rfl]

private theorem exists_says_of_readCondition {rest : List Char} {span : Span} {c : Condition}
    (hrest : ∀ c, rest.head? = some c → Text.isBlank c = true)
    (h : readCondition (rest.dropWhile Text.isBlank) span = .ok c) :
    ∃ b₁ text b₂, Text.IsGap b₁ ∧ c.Says text ∧ Text.AllBlank b₂ ∧ rest = b₁ ++ (text ++ b₂) := by
  have hne : rest.dropWhile Text.isBlank ≠ [] := by
    intro hnil
    rw [hnil] at h
    cases h
  obtain ⟨b₁, b₂, hb₁, hb₂, harguments⟩ :=
    Text.exists_eq_trimBlank (rest.dropWhile Text.isBlank)
  refine ⟨rest.takeWhile Text.isBlank ++ b₁, _, b₂, (isGap_of_arguments hrest hne).append hb₁,
    readCondition_eq_ok_iff.1 h, hb₂, ?_⟩
  rw [List.append_assoc, ← harguments, List.takeWhile_append_dropWhile]

private theorem allBlank_of_bare {d d' : Directive} {word : String} {rest : List Char} {span : Span}
    (h : bare d word (rest.dropWhile Text.isBlank) span = .ok d') :
    d' = d ∧ Text.AllBlank rest := by
  rw [bare] at h
  split at h
  · rename_i hempty
    cases h
    exact ⟨rfl, List.dropWhile_eq_nil_iff.1 (List.isEmpty_iff.1 hempty)⟩
  · cases h

/-- The wordings of a tag by its first word. -/
private theorem says_of_ofWord {word : String} {body rest : List Char} {span : Span} {d : Directive}
    (hbody : body = word.toList ++ rest) (hrest : ∀ c, rest.head? = some c → Text.isBlank c = true)
    (h : ofWord word body (rest.dropWhile Text.isBlank) span = .ok d) : Says body d := by
  subst hbody
  unfold ofWord at h
  split at h
  · have hne : rest.dropWhile Text.isBlank ≠ [] := by
      intro hnil
      rw [hnil] at h
      cases h
    have hloop := says_of_readLoop (isGap_of_arguments hrest hne) h
    rwa [List.takeWhile_append_dropWhile] at hloop
  · obtain ⟨rfl, hblank⟩ := allBlank_of_bare h
    exact .endfor hblank
  · obtain ⟨c, hc, h⟩ := bind_eq_ok h
    cases h
    obtain ⟨b₁, text, b₂, hb₁, hwording, hb₂, rfl⟩ := exists_says_of_readCondition hrest hc
    exact .branch hb₁ hwording hb₂
  · obtain ⟨c, hc, h⟩ := bind_eq_ok h
    cases h
    obtain ⟨b₁, text, b₂, hb₁, hwording, hb₂, rfl⟩ := exists_says_of_readCondition hrest hc
    exact .elif hb₁ hwording hb₂
  · obtain ⟨rfl, hblank⟩ := allBlank_of_bare h
    exact .otherwise hblank
  · obtain ⟨rfl, hblank⟩ := allBlank_of_bare h
    exact .endif hblank
  · rename_i hfor hendfor hif helif helse hendif
    obtain ⟨path, hpath, h⟩ := bind_eq_ok h
    cases h
    have hparse := readPath_eq_ok_iff.1 hpath
    -- A path holds no blanks, so that nothing stands behind the first word.
    obtain rfl : rest = [] := by
      cases rest with
      | nil => rfl
      | cons c rest =>
        have hc := ((Path.isPathChar_of_parse hparse).2 c (by simp)).solid.1
        rw [hrest c rfl] at hc
        cases hc
    rw [List.append_nil] at hparse ⊢
    refine .subst hparse ?_
    rw [String.ofList_toList]
    simp only [List.mem_cons, List.not_mem_nil, or_false]
    rintro (h | h | h | h | h | h)
    · exact hfor h
    · exact hendfor h
    · exact hif h
    · exact helif h
    · exact helse h
    · exact hendif h

theorem says_of_ofTag {tag : Tag} {d : Directive} (h : ofTag tag = .ok d) :
    Says tag.body.toList d := by
  obtain ⟨body, span⟩ := tag
  by_cases hnil : body.toList = []
  · rw [ofTag, hnil] at h
    cases h
  by_cases hhash : body.toList.head? = some '#'
  · obtain ⟨c, cs, hcons⟩ := List.exists_cons_of_ne_nil hnil
    obtain rfl : c = '#' := by simpa [hcons] using hhash
    rw [ofTag, hcons] at h
    cases h
    rw [hcons]
    exact .comment cs
  generalize hw : body.toList.takeWhile (!Text.isBlank ·) = w
  generalize hrest : body.toList.dropWhile (!Text.isBlank ·) = rest
  have hbody : body.toList = w ++ rest := by
    rw [← hw, ← hrest, List.takeWhile_append_dropWhile]
  have hsolid : ∀ c ∈ w, Text.isBlank c = false := by
    intro c hc
    rw [← hw] at hc
    simpa using List.mem_takeWhile_imp hc
  have hblank : ∀ c, rest.head? = some c → Text.isBlank c = true := by
    intro c hc
    have hnot := List.head?_dropWhile_not (!Text.isBlank ·) body.toList
    simpa [hrest, hc] using hnot
  rw [ofTag_eq span hbody (hbody ▸ hnil) (hbody ▸ hhash) hsolid hblank, ← hbody] at h
  refine says_of_ofWord ?_ hblank h
  rw [String.toList_ofList, hbody]

/-- A tag is read as a directive exactly if it words this directive. -/
theorem ofTag_eq_ok_iff {tag : Tag} {d : Directive} :
    ofTag tag = .ok d ↔ Says tag.body.toList d := by
  constructor
  · exact says_of_ofTag
  · exact fun h ↦ ofTag_of_wording h rfl

end Directive

end Template

end StateGen
