import StateGen.Proofs.Template.Paths
import StateGen.Proofs.Template.Printing

/-!
# Reading directives back

The tags of substitutions, loops and conditions, written in the usual form, are read as what they
say. Paths are a name and keys behind dots here.
-/

namespace StateGen

namespace Text

/-- The characters of names are ASCII letters, digits and the underscore. -/
theorem isWordChar_iff {c : Char} :
    isWordChar c = true ↔
      (48 ≤ c.toNat ∧ c.toNat ≤ 57) ∨ (65 ≤ c.toNat ∧ c.toNat ≤ 90) ∨ c.toNat = 95 ∨
        (97 ≤ c.toNat ∧ c.toNat ≤ 122) := by
  have hunderscore : c = '_' ↔ c.toNat = 95 := by
    constructor
    · rintro rfl
      rfl
    · intro h
      apply Char.ext
      apply UInt32.toNat_inj.1
      exact h
  have hword : isWordChar c =
      ((decide (65 ≤ c.val ∧ c.val ≤ 90) || (decide (97 ≤ c.val) && decide (c.val ≤ 122))
        || (decide (48 ≤ c.val) && decide (c.val ≤ 57))) || c == '_') := rfl
  simp only [hword, Bool.or_eq_true, Bool.and_eq_true, decide_eq_true_eq, beq_iff_eq, hunderscore,
    UInt32.le_iff_toNat_le, UInt32.reduceToNat, Char.toNat]
  omega

/-- Names hold no blanks. -/
theorem isBlank_of_isWordChar {c : Char} (h : isWordChar c = true) : isBlank c = false := by
  rw [isWordChar_iff] at h
  simp only [isBlank, blankRanges, List.any_cons, List.any_nil, Bool.or_false,
    Bool.or_eq_false_iff, Bool.and_eq_false_iff, decide_eq_false_iff_not]
  omega

/-- A blank in front belongs to no word. -/
theorem words_cons_blank {c : Char} (h : isBlank c = true) (cs : List Char) :
    words (c :: cs) = words cs := by
  rw [words.eq_def]
  simp only [h, if_true]

/-- A run without blanks, up to a blank or the end, is a word. -/
theorem words_append {w rest : List Char} (hne : w ≠ []) (hw : ∀ c ∈ w, isBlank c = false)
    (hrest : ∀ c, rest.head? = some c → isBlank c = true) :
    words (w ++ rest) = w :: words rest := by
  induction w with
  | nil => exact absurd rfl hne
  | cons c w ih =>
    have hc : isBlank c = false := hw c List.mem_cons_self
    have hcs := fun d hd ↦ hw d (List.mem_cons_of_mem c hd)
    rw [List.cons_append, words.eq_def]
    simp only [hc, Bool.false_eq_true, if_false]
    cases w with
    | nil =>
      cases rest with
      | nil => rfl
      | cons d rest => simp [hrest d rfl]
    | cons d w =>
      have hd : isBlank d = false := hcs d List.mem_cons_self
      rw [ih (by simp) hcs]
      simp [hd]

end Text

namespace Template

/-! ## Names and paths -/

namespace Path

/-- A path that has only keys as steps, and no name that starts a block. -/
structure IsPlain (p : Path) : Prop where
  root : IsName p.root
  keyword : p.root ∉ ["for", "endfor", "if", "elif", "else", "endif"]
  steps : ∀ step ∈ p.steps, ∃ name, step = .key name ∧ IsName name

private theorem areProper_of_keys {steps : List Step}
    (h : ∀ step ∈ steps, ∃ name, step = .key name ∧ IsName name) : AreProper steps := by
  induction steps with
  | nil => exact .nil
  | cons step steps ih =>
    obtain ⟨name, rfl, hname⟩ := h step List.mem_cons_self
    exact .key hname (ih fun step hstep ↦ h step (List.mem_cons_of_mem _ hstep))

/-- Reading the text of a path gives the path. -/
theorem parse_display {p : Path} (h : p.IsPlain) : parse p.display = .ok p :=
  parse_eq_ok_iff.2 (spells_display ⟨h.root, areProper_of_keys h.steps⟩)

/-- A name is a path without steps. -/
theorem parse_name {name : String} (h : IsName name) : parse name = .ok ⟨name, []⟩ := by
  have hparse := parse_eq_ok_iff.2 (spells_display (p := ⟨name, []⟩) ⟨h, .nil⟩)
  simpa [display, displaySteps] using hparse

/-- The text of a path holds the characters of names and dots only. -/
theorem mem_display {p : Path} (h : p.IsPlain) {c : Char} (hc : c ∈ p.display.toList) :
    Text.isWordChar c = true ∨ c = '.' := by
  have hsteps : ∀ {steps : List Step},
      (∀ step ∈ steps, ∃ name, step = .key name ∧ IsName name) →
        c ∈ (displaySteps steps).toList → Text.isWordChar c = true ∨ c = '.' := by
    intro steps hplain hmem
    induction steps with
    | nil => simp [displaySteps] at hmem
    | cons step steps ih =>
      obtain ⟨name, rfl, hname⟩ := hplain step List.mem_cons_self
      simp [displaySteps, Step.display] at hmem
      rcases hmem with hmem | hmem | hmem
      · exact .inr hmem
      · exact .inl (hname.2 c hmem)
      · exact ih (fun step hstep ↦ hplain step (List.mem_cons_of_mem _ hstep)) hmem
  rw [display, String.toList_append, List.mem_append] at hc
  rcases hc with hc | hc
  · exact .inl (h.root.2 c hc)
  · exact hsteps h.steps hc

private theorem displaySteps_append (as bs : List Step) :
    displaySteps (as ++ bs) = displaySteps as ++ displaySteps bs := by
  induction as with
  | nil => simp [displaySteps]
  | cons a as ih => simp [displaySteps, ih, String.append_assoc]

private theorem exists_last_of_isName {s : String} (h : IsName s) :
    ∃ rest c, s.toList = rest ++ [c] ∧ Text.isWordChar c = true := by
  obtain ⟨hne, hword⟩ := h
  refine ⟨s.toList.dropLast, s.toList.getLast hne, ?_, hword _ (List.getLast_mem hne)⟩
  exact (List.dropLast_concat_getLast hne).symm

/-- The text of a path ends like a name. -/
theorem exists_last_display {p : Path} (h : p.IsPlain) :
    ∃ rest c, p.display.toList = rest ++ [c] ∧ Text.isWordChar c = true := by
  rw [display, String.toList_append]
  rcases List.eq_nil_or_concat p.steps with hnil | ⟨steps, step, hconcat⟩
  · obtain ⟨rest, c, hroot, hc⟩ := exists_last_of_isName h.root
    exact ⟨rest, c, by simp [hnil, displaySteps, hroot], hc⟩
  · obtain ⟨name, rfl, hname⟩ := h.steps step (by simp [hconcat])
    obtain ⟨rest, c, hlast, hc⟩ := exists_last_of_isName hname
    refine ⟨p.root.toList ++ (displaySteps steps).toList ++ '.' :: rest, c, ?_, hc⟩
    rw [hconcat, List.concat_eq_append, displaySteps_append]
    simp [displaySteps, Step.display, hlast]

end Path

/-! ## Directives -/

namespace Directive

/-- Read a tag whose first word is known. -/
def ofWord (word : String) (body arguments : List Char) (span : Span) :
    Except Error Directive :=
  match word with
  | "for" => readLoop arguments span
  | "endfor" => bare .endfor word arguments span
  | "if" => do return .branch (← readCondition arguments span)
  | "elif" => do return .elif (← readCondition arguments span)
  | "else" => bare .otherwise word arguments span
  | "endif" => bare .endif word arguments span
  | _ => do return .subst (← readPath body span)

/-- A tag is read by its first word. -/
theorem ofTag_eq {body : String} {w rest : List Char} (span : Span)
    (hbody : body.toList = w ++ rest) (hne : w ++ rest ≠ []) (hhash : (w ++ rest).head? ≠ some '#')
    (hw : ∀ c ∈ w, Text.isBlank c = false)
    (hrest : ∀ c, rest.head? = some c → Text.isBlank c = true) :
    ofTag ⟨body, span⟩ =
      ofWord (String.ofList w) (w ++ rest) (rest.dropWhile Text.isBlank) span := by
  have hsolid : ∀ c ∈ w, (!Text.isBlank c) = true := by simpa using hw
  have hgap : ∀ c, rest.head? = some c → (!Text.isBlank c) = false := by simpa using hrest
  have htake := Text.takeWhile_run hsolid hgap
  have hdrop := Text.dropWhile_run hsolid hgap
  rw [ofTag]
  simp only [hbody]
  split
  · rename_i hnil
    exact absurd hnil hne
  · rename_i hcons
    exact absurd (by rw [hcons]; rfl) hhash
  · simp only [htake, hdrop]
    rfl

/-- The words that open, divide and close blocks. -/
theorem mem_keywords {word : String}
    (h : word ∈ ["for", "endfor", "if", "elif", "else", "endif"]) :
    '.' ∉ word.toList ∧ (∀ c ∈ word.toList, c ≠ '#' ∧ Text.isBlank c = false) ∧
      word.toList ≠ [] := by
  simp only [List.mem_cons, List.not_mem_nil, or_false] at h
  rcases h with rfl | rfl | rfl | rfl | rfl | rfl <;> simp [Text.isBlank, Text.blankRanges]

private theorem display_not_keyword {p : Path} (h : p.IsPlain) :
    p.display ∉ ["for", "endfor", "if", "elif", "else", "endif"] := by
  intro hmem
  cases hsteps : p.steps with
  | nil =>
    refine h.keyword ?_
    rwa [Path.display, hsteps, Path.displaySteps, String.append_empty] at hmem
  | cons step steps =>
    obtain ⟨name, rfl, -⟩ := h.steps step (by simp [hsteps])
    refine (mem_keywords hmem).1 ?_
    simp [Path.display, hsteps, Path.displaySteps, Path.Step.display]

/-- Paths hold no blanks and none of the characters with a meaning in tags. -/
private theorem display_char {p : Path} (h : p.IsPlain) {c : Char} (hc : c ∈ p.display.toList) :
    Text.isBlank c = false ∧ c ≠ '#' ∧ c ≠ '!' ∧ c ≠ ',' ∧ c ≠ '-' ∧ c ≠ '\x7d' := by
  rcases Path.mem_display h hc with hword | rfl
  · refine ⟨Text.isBlank_of_isWordChar hword, ?_, ?_, ?_, ?_, ?_⟩ <;>
      (rintro rfl; exact absurd hword (by decide))
  · decide

private theorem readPath_display {p : Path} (h : p.IsPlain) (span : Span) :
    readPath p.display.toList span = .ok p := by
  rw [readPath, String.ofList_toList, Path.parse_display h]

private theorem display_ne_nil {p : Path} (h : p.IsPlain) : p.display.toList ≠ [] := by
  obtain ⟨rest, c, hlast, -⟩ := Path.exists_last_display h
  simp [hlast]

/-- A path alone is a substitution. -/
theorem ofTag_display {p : Path} (h : p.IsPlain) (span : Span) :
    ofTag ⟨p.display, span⟩ = .ok (.subst p) := by
  have hkeyword := display_not_keyword h
  have hhash : p.display.toList.head? ≠ some '#' := fun hc ↦
    (display_char h (List.mem_of_mem_head? hc)).2.1 rfl
  rw [ofTag_eq span (List.append_nil _).symm (by simpa using display_ne_nil h)
    (by simpa using hhash) (fun c hc ↦ (display_char h hc).1) (by simp),
    String.ofList_toList, List.append_nil, ofWord, readPath_display h]
  · rfl
  all_goals exact fun hword ↦ hkeyword (by simp [hword])

/-- A word for a block is read with the arguments behind it. -/
theorem ofTag_keyword (word : String)
    (hword : word ∈ ["for", "endfor", "if", "elif", "else", "endif"]) {body : String}
    {rest : List Char} (span : Span) (hbody : body.toList = word.toList ++ rest)
    (hrest : ∀ c, rest.head? = some c → Text.isBlank c = true) :
    ofTag ⟨body, span⟩ = ofWord word (word.toList ++ rest) (rest.dropWhile Text.isBlank) span := by
  obtain ⟨-, hchars, hne⟩ := mem_keywords hword
  have hhash : (word.toList ++ rest).head? ≠ some '#' := by
    obtain ⟨c, cs, hword⟩ := List.exists_cons_of_ne_nil hne
    simpa [hword] using (hchars c (by simp [hword])).1
  rw [ofTag_eq span hbody (by simp [hne]) hhash (fun c hc ↦ (hchars c hc).2) hrest,
    String.ofList_toList]

/-- A word for a block and its arguments behind a space. -/
private theorem ofTag_arguments (word : String)
    (hword : word ∈ ["for", "endfor", "if", "elif", "else", "endif"]) {arguments : String}
    (harguments : ∀ c, arguments.toList.head? = some c → Text.isBlank c = false) (span : Span) :
    ofTag ⟨word ++ " " ++ arguments, span⟩ =
      ofWord word (word.toList ++ ' ' :: arguments.toList) arguments.toList span := by
  have hbody : (word ++ " " ++ arguments).toList = word.toList ++ ' ' :: arguments.toList := by
    simp
  have hblank : Text.isBlank ' ' = true := by decide
  have hdrop : (' ' :: arguments.toList).dropWhile Text.isBlank = arguments.toList := by
    rw [List.dropWhile_cons_of_pos hblank]
    cases h : arguments.toList with
    | nil => rfl
    | cons c cs => simp [harguments c (by rw [h]; rfl)]
  rw [ofTag_keyword word hword span hbody, hdrop]
  rintro c ⟨⟩
  exact hblank

theorem ofTag_endfor (span : Span) : ofTag ⟨"endfor", span⟩ = .ok .endfor :=
  ofTag_keyword "endfor" (by simp) span (List.append_nil _).symm (by simp)

theorem ofTag_else (span : Span) : ofTag ⟨"else", span⟩ = .ok .otherwise :=
  ofTag_keyword "else" (by simp) span (List.append_nil _).symm (by simp)

theorem ofTag_endif (span : Span) : ofTag ⟨"endif", span⟩ = .ok .endif :=
  ofTag_keyword "endif" (by simp) span (List.append_nil _).symm (by simp)

/-! ### Conditions -/

/-- The text of a condition. -/
def conditionText (c : Condition) : String := (if c.negated then "!" else "") ++ c.path.display

private theorem trimBlank_eq_self {cs : List Char} (h : ∀ c ∈ cs, Text.isBlank c = false) :
    Text.trimBlank cs = cs := by
  have hdrop : ∀ {ds : List Char}, (∀ c ∈ ds, Text.isBlank c = false) →
      ds.dropWhile Text.isBlank = ds := by
    intro ds hds
    cases ds with
    | nil => rfl
    | cons d ds => simp [hds d List.mem_cons_self]
  rw [Text.trimBlank, hdrop h, Text.dropTrailing, hdrop (by simpa using h), List.reverse_reverse]

private theorem conditionText_char {c : Condition} (h : c.path.IsPlain) {d : Char}
    (hd : d ∈ (conditionText c).toList) : Text.isBlank d = false ∧ d ≠ '\x7d' ∧ d ≠ '-' := by
  rw [conditionText, String.toList_append, List.mem_append] at hd
  rcases hd with hd | hd
  · obtain ⟨negated, path⟩ := c
    cases negated with
    | false => simp at hd
    | true =>
      obtain rfl : d = '!' := by simpa using hd
      decide
  · obtain ⟨hblank, -, -, -, hhyphen, hbrace⟩ := display_char h hd
    exact ⟨hblank, hbrace, hhyphen⟩

private theorem readCondition_conditionText {c : Condition} (h : c.path.IsPlain) (span : Span) :
    readCondition (conditionText c).toList span = .ok c := by
  rw [readCondition, trimBlank_eq_self fun d hd ↦ (conditionText_char h hd).1]
  obtain ⟨negated, path⟩ := c
  have hread := readPath_display h span
  have hne := display_ne_nil h
  have hchar := fun d hd ↦ display_char h (c := d) hd
  cases hpath : path.display.toList with
  | nil => exact absurd hpath hne
  | cons d ds =>
    have hd := hchar d (by simp [hpath])
    rw [hpath] at hread
    cases negated with
    | true =>
      have htext : (conditionText ⟨true, path⟩).toList = '!' :: d :: ds := by
        simp [conditionText, hpath]
      have hdrop : (d :: ds).dropWhile Text.isBlank = d :: ds := by simp [hd.1]
      simp only [htext, hdrop, hread, bind, Except.bind]
      rfl
    | false =>
      have htext : (conditionText ⟨false, path⟩).toList = d :: ds := by
        simp [conditionText, hpath]
      rw [htext]
      split
      · rename_i hnil
        cases hnil
      · rename_i hcons
        injection hcons with hhead
        exact absurd hhead hd.2.2.1
      · simp only [hread, bind, Except.bind]
        rfl

private theorem conditionText_head? {c : Condition} (h : c.path.IsPlain) (d : Char)
    (hd : (conditionText c).toList.head? = some d) : Text.isBlank d = false :=
  (conditionText_char h (List.mem_of_mem_head? hd)).1

theorem ofTag_if {c : Condition} (h : c.path.IsPlain) (span : Span) :
    ofTag ⟨"if" ++ " " ++ conditionText c, span⟩ = .ok (.branch c) := by
  rw [ofTag_arguments "if" (by simp) (conditionText_head? h), ofWord,
    readCondition_conditionText h]
  rfl

theorem ofTag_elif {c : Condition} (h : c.path.IsPlain) (span : Span) :
    ofTag ⟨"elif" ++ " " ++ conditionText c, span⟩ = .ok (.elif c) := by
  rw [ofTag_arguments "elif" (by simp) (conditionText_head? h), ofWord,
    readCondition_conditionText h]
  rfl

/-! ### Loops -/

/-- What stands behind `for`. -/
def loopText (key : Option String) (value : String) (path : Path) : String :=
  key.elim "" (· ++ ", ") ++ value ++ " in " ++ path.display

private theorem toList_loopText_none (value : String) (path : Path) :
    (loopText none value path).toList =
      value.toList ++ ' ' :: 'i' :: 'n' :: ' ' :: path.display.toList := by
  simp [loopText]

private theorem toList_loopText_some (name value : String) (path : Path) :
    (loopText (some name) value path).toList =
      name.toList ++ ',' :: ' ' ::
        (value.toList ++ ' ' :: 'i' :: 'n' :: ' ' :: path.display.toList) := by
  simp [loopText]

theorem spaceCommas_append (as bs : List Char) :
    spaceCommas (as ++ bs) = spaceCommas as ++ spaceCommas bs :=
  List.flatMap_append

theorem spaceCommas_eq_self {cs : List Char} (h : ∀ c ∈ cs, c ≠ ',') :
    spaceCommas cs = cs := by
  induction cs with
  | nil => rfl
  | cons c cs ih =>
    rw [spaceCommas, List.flatMap_cons, if_neg (h c List.mem_cons_self), ← spaceCommas,
      ih fun d hd ↦ h d (List.mem_cons_of_mem c hd)]
    rfl

private theorem name_char {name : String} (h : IsName name) {c : Char} (hc : c ∈ name.toList) :
    Text.isBlank c = false ∧ c ≠ ',' ∧ c ≠ '\x7d' := by
  have hword := h.2 c hc
  refine ⟨Text.isBlank_of_isWordChar hword, ?_, ?_⟩ <;>
    (rintro rfl; exact absurd hword (by decide))

/-- The words of `value in path`. -/
private theorem words_loop {value : String} {path : Path} (hvalue : IsName value)
    (hpath : path.IsPlain) :
    Text.words (spaceCommas (value.toList ++ ' ' :: 'i' :: 'n' :: ' ' :: path.display.toList)) =
      [value.toList, ['i', 'n'], path.display.toList] := by
  have hblank : Text.isBlank ' ' = true := by decide
  have hspace : ∀ (cs : List Char) (c : Char), (' ' :: cs).head? = some c →
      Text.isBlank c = true := by
    rintro cs c ⟨⟩
    exact hblank
  have hcommas : ∀ c ∈ value.toList ++ ' ' :: 'i' :: 'n' :: ' ' :: path.display.toList,
      c ≠ ',' := by
    intro c hc
    simp only [List.mem_append, List.mem_cons] at hc
    rcases hc with hc | rfl | rfl | rfl | rfl | hc
    · exact (name_char hvalue hc).2.1
    · decide
    · decide
    · decide
    · decide
    · exact (display_char hpath hc).2.2.2.1
  have hlast : Text.words path.display.toList = [path.display.toList] := by
    have hword : Text.words (path.display.toList ++ []) = path.display.toList :: Text.words [] :=
      Text.words_append (display_ne_nil hpath) (fun c hc ↦ (display_char hpath hc).1) (by simp)
    rwa [List.append_nil] at hword
  have hin : Text.words ('i' :: 'n' :: ' ' :: path.display.toList) =
      ['i', 'n'] :: Text.words (' ' :: path.display.toList) :=
    Text.words_append (w := ['i', 'n']) (by simp) (by simp [Text.isBlank, Text.blankRanges])
      (hspace _)
  rw [spaceCommas_eq_self hcommas,
    Text.words_append hvalue.1 (fun c hc ↦ (name_char hvalue hc).1) (hspace _),
    Text.words_cons_blank hblank, hin, Text.words_cons_blank hblank, hlast]

theorem isLoopName_of_isName {name : String} (h : IsName name) :
    isLoopName name.toList = true := by
  have hne : name.toList.isEmpty = false := by simpa using h.1
  rw [isLoopName, hne, List.all_eq_true.2 h.2]
  rfl

private theorem head?_append_of_isName {name : String} (h : IsName name) (rest : List Char)
    (c : Char) (hc : (name.toList ++ rest).head? = some c) : Text.isBlank c = false := by
  cases hname : name.toList with
  | nil => exact absurd hname h.1
  | cons d ds =>
    rw [hname] at hc
    obtain rfl : d = c := by simpa using hc
    exact (name_char h (by simp [hname])).1

private theorem makeLoop_eq_ok {key : Option String} {value : String} {path : Path}
    (hkey : ∀ name, key = some name → IsName name) (hvalue : IsName value) (hpath : path.IsPlain)
    (span : Span) :
    makeLoop (key.map String.toList) value.toList path.display.toList span =
      .ok (.loop key value path) := by
  have hnames :
      ((key.map String.toList).toList ++ [value.toList]).find? (!isLoopName ·) = none := by
    rw [List.find?_eq_none]
    intro cs hcs
    simp only [List.mem_append, Option.mem_toList, Option.map_eq_some_iff,
      List.mem_singleton] at hcs
    rcases hcs with ⟨name, hname, rfl⟩ | rfl
    · simp [isLoopName_of_isName (hkey name hname)]
    · simp [isLoopName_of_isName hvalue]
  rw [makeLoop, hnames]
  simp only [readPath_display hpath, bind, Except.bind, String.ofList_toList, Option.map_map]
  cases key with
  | none => rfl
  | some name => simp [pure, Except.pure]

private theorem readLoop_loopText {key : Option String} {value : String} {path : Path}
    (hkey : ∀ name, key = some name → IsName name) (hvalue : IsName value) (hpath : path.IsPlain)
    (span : Span) :
    readLoop (loopText key value path).toList span = .ok (.loop key value path) := by
  have hloop := makeLoop_eq_ok hkey hvalue hpath span
  cases key with
  | none =>
    rw [readLoop, toList_loopText_none, words_loop hvalue hpath]
    exact hloop
  | some name =>
    have hname := hkey name rfl
    have hcomma : ∀ cs, spaceCommas (',' :: ' ' :: cs) =
        ' ' :: ',' :: ' ' :: ' ' :: spaceCommas cs := fun _ ↦ rfl
    have hblank : Text.isBlank ' ' = true := by decide
    have hspace : ∀ (cs : List Char) (c : Char), (' ' :: cs).head? = some c →
        Text.isBlank c = true := by
      rintro cs c ⟨⟩
      exact hblank
    have hsign : ∀ cs, Text.words (',' :: ' ' :: cs) = [','] :: Text.words (' ' :: cs) := fun cs ↦
      Text.words_append (w := [',']) (by simp) (by simp [Text.isBlank, Text.blankRanges])
        (hspace cs)
    rw [readLoop, toList_loopText_some, spaceCommas_append,
      spaceCommas_eq_self fun c hc ↦ (name_char hname hc).2.1, hcomma,
      Text.words_append hname.1 (fun c hc ↦ (name_char hname hc).1) (hspace _),
      Text.words_cons_blank hblank, hsign, Text.words_cons_blank hblank,
      Text.words_cons_blank hblank, words_loop hvalue hpath]
    exact hloop

theorem ofTag_for {key : Option String} {value : String} {path : Path}
    (hkey : ∀ name, key = some name → IsName name) (hvalue : IsName value) (hpath : path.IsPlain)
    (span : Span) :
    ofTag ⟨"for" ++ " " ++ loopText key value path, span⟩ = .ok (.loop key value path) := by
  have hhead : ∀ c, (loopText key value path).toList.head? = some c → Text.isBlank c = false := by
    intro c hc
    cases key with
    | none => exact head?_append_of_isName hvalue _ c (toList_loopText_none .. ▸ hc)
    | some name => exact head?_append_of_isName (hkey name rfl) _ c (toList_loopText_some .. ▸ hc)
  rw [ofTag_arguments "for" (by simp) hhead, ofWord, readLoop_loopText hkey hvalue hpath]

/-! ### These are bodies of tags -/

private theorem isSparse_of_not_mem {c : Char} {cs : List Char} (h : c ∉ cs) :
    isSparse c cs = true := by
  induction cs with
  | nil => rfl
  | cons d cs ih =>
    rw [List.mem_cons, not_or] at h
    simp [isSparse, ih h.2, Ne.symm h.1]

private theorem ne_hyphen_of_isWordChar {c : Char} (h : Text.isWordChar c = true) : c ≠ '-' := by
  rintro rfl
  exact absurd h (by decide)

/-- What ends with a path can be the body of a tag. -/
private theorem isTagBody_append_display (cs : List Char) {path : Path} (hpath : path.IsPlain)
    (hbrace : '\x7d' ∉ cs)
    (hfirst : ∃ c rest, cs ++ path.display.toList = c :: rest ∧ Text.isBlank c = false ∧ c ≠ '-') :
    IsTagBody (cs ++ path.display.toList) := by
  refine ⟨isSparse_of_not_mem ?_, hfirst, ?_⟩
  · rw [List.mem_append, not_or]
    exact ⟨hbrace, fun hmem ↦ (display_char hpath hmem).2.2.2.2.2 rfl⟩
  · obtain ⟨rest, c, hlast, hc⟩ := Path.exists_last_display hpath
    refine ⟨cs ++ rest, c, by rw [hlast, List.append_assoc], Text.isBlank_of_isWordChar hc, ?_⟩
    exact ne_hyphen_of_isWordChar hc

theorem isTagBody_display {path : Path} (h : path.IsPlain) : IsTagBody path.display.toList := by
  refine isTagBody_append_display [] h (by simp) ?_
  cases hpath : path.display.toList with
  | nil => exact absurd hpath (display_ne_nil h)
  | cons c cs =>
    have hc := display_char h (c := c) (by simp [hpath])
    exact ⟨c, cs, rfl, hc.1, hc.2.2.2.2.1⟩

theorem isTagBody_if {c : Condition} (h : c.path.IsPlain) :
    IsTagBody ("if" ++ " " ++ conditionText c).toList := by
  have htext : ("if" ++ " " ++ conditionText c).toList =
      ['i', 'f', ' '] ++ (if c.negated then ['!'] else []) ++ c.path.display.toList := by
    cases hc : c.negated <;> simp [conditionText, hc]
  rw [htext]
  refine isTagBody_append_display _ h ?_ ⟨'i', _, rfl, by decide, by decide⟩
  cases c.negated <;> decide

theorem isTagBody_elif {c : Condition} (h : c.path.IsPlain) :
    IsTagBody ("elif" ++ " " ++ conditionText c).toList := by
  have htext : ("elif" ++ " " ++ conditionText c).toList =
      ['e', 'l', 'i', 'f', ' '] ++ (if c.negated then ['!'] else []) ++ c.path.display.toList := by
    cases hc : c.negated <;> simp [conditionText, hc]
  rw [htext]
  refine isTagBody_append_display _ h ?_ ⟨'e', _, rfl, by decide, by decide⟩
  cases c.negated <;> decide

theorem isTagBody_for {key : Option String} {value : String} {path : Path}
    (hkey : ∀ name, key = some name → IsName name) (hvalue : IsName value) (hpath : path.IsPlain) :
    IsTagBody ("for" ++ " " ++ loopText key value path).toList := by
  have htext : ("for" ++ " " ++ loopText key value path).toList =
      ['f', 'o', 'r', ' '] ++ (key.elim [] fun name ↦ name.toList ++ [',', ' ']) ++ value.toList
        ++ [' ', 'i', 'n', ' '] ++ path.display.toList := by
    cases key <;> simp [loopText]
  rw [htext]
  refine isTagBody_append_display _ hpath ?_ ⟨'f', _, rfl, by decide, by decide⟩
  have hbrace : ∀ name, IsName name → '\x7d' ∉ name.toList := fun name hname hmem ↦
    (name_char hname hmem).2.2 rfl
  cases key with
  | none => simp [hbrace value hvalue]
  | some name => simp [hbrace value hvalue, hbrace name (hkey name rfl)]

theorem isTagBody_keyword {word : String} (h : word ∈ ["endfor", "else", "endif"]) :
    IsTagBody word.toList := by
  simp only [List.mem_cons, List.not_mem_nil, or_false] at h
  rcases h with rfl | rfl | rfl
  · exact ⟨by decide, ⟨'e', _, rfl, by decide⟩, ⟨['e', 'n', 'd', 'f', 'o'], 'r', by decide⟩⟩
  · exact ⟨by decide, ⟨'e', _, rfl, by decide⟩, ⟨['e', 'l', 's'], 'e', by decide⟩⟩
  · exact ⟨by decide, ⟨'e', _, rfl, by decide⟩, ⟨['e', 'n', 'd', 'i'], 'f', by decide⟩⟩

end Directive

end Template

end StateGen
