import Mathlib.Data.List.Infix
import StateGen.Config

/-!
# Values that cannot leave their place

Templates put the values of options into C code as identifiers, into string literals and into block
comments, and the path of a description into a comment. What the checks of `Config` accept, and what
they make of a path, is said here about the characters themselves: no value ends the literal or the
comment that it stands in, or the line.
-/

namespace StateGen

/-! ## Characters -/

namespace Text

theorem contains_iff_infix {pattern cs : List Char} :
    contains pattern cs = true ↔ pattern <:+: cs := by
  induction cs with
  | nil => simp [contains]
  | cons c cs ih =>
    rw [contains, Bool.or_eq_true, ih, List.isPrefixOf_iff_prefix, List.infix_cons_iff]

/-- An identifier is a letter or an underscore, and then letters, digits and underscores. -/
theorem isIdentifier_iff {name : String} :
    isIdentifier name ↔ ∃ first rest, name.toList = first :: rest ∧
      (first.isAlpha ∨ first = '_') ∧ ∀ c ∈ rest, c.isAlphanum ∨ c = '_' := by
  rw [isIdentifier]
  cases name.toList <;> simp [isWordStart, isWordChar]

end Text

namespace Config

/-! ## Paths in comments -/

/-- The characters end a block comment. -/
def EndsComment (cs : List Char) : Prop := ['*', '/'] <:+: cs

theorem endsComment_cons_iff {c : Char} {cs : List Char} :
    EndsComment (c :: cs) ↔ (c = '*' ∧ cs.head? = some '/') ∨ EndsComment cs := by
  rw [EndsComment, List.infix_cons_iff, ← EndsComment]
  refine or_congr_left ?_
  cases cs with
  | nil => simp
  | cons d cs => simp [eq_comm]

private theorem not_endsComment_nil : ¬ EndsComment [] := by
  simp [EndsComment]

private theorem head?_breakCommentEnds (cs : List Char) :
    (breakCommentEnds cs).head? = cs.head? := by
  fun_cases breakCommentEnds cs <;> rfl

/-- No end of a comment is left, and none arises at a seam: a slash keeps its backslash, and every
other character is followed by what followed it before. -/
private theorem not_endsComment_breakCommentEnds (cs : List Char) :
    ¬ EndsComment (breakCommentEnds cs) := by
  fun_induction breakCommentEnds cs with
  | case1 cs ih => simp [endsComment_cons_iff, ih]
  | case2 c cs hsplit ih =>
    rw [endsComment_cons_iff, head?_breakCommentEnds, not_or]
    refine ⟨?_, ih⟩
    rintro ⟨rfl, hslash⟩
    obtain ⟨rest, rfl⟩ := List.head?_eq_some_iff.1 hslash
    exact hsplit rest rfl rfl
  | case3 => exact not_endsComment_nil

private theorem breakCommentEnds_eq_self {cs : List Char} (h : ¬ EndsComment cs) :
    breakCommentEnds cs = cs := by
  fun_induction breakCommentEnds cs with
  | case1 cs => exact absurd (endsComment_cons_iff.2 (.inl ⟨rfl, rfl⟩)) h
  | case2 c cs hsplit ih =>
    rw [endsComment_cons_iff, not_or] at h
    rw [ih h.2]
  | case3 => rfl

/-- The visible stand-in for a control character. -/
private def shown (c : Char) : Char := if Text.isControl c then '?' else c

private theorem isControl_shown (c : Char) : Text.isControl (shown c) = false := by
  unfold shown
  split
  · decide
  · rename_i hc
    simpa using hc

/-- The stand-in is no part of an end of a comment. -/
private theorem endsComment_of_map_shown {cs : List Char} (h : EndsComment (cs.map shown)) :
    EndsComment cs := by
  have hfixed {a c : Char} (ha : shown c = a) (hne : a ≠ '?') : c = a := by
    unfold shown at ha
    split at ha
    · exact absurd ha.symm hne
    · exact ha
  obtain ⟨pair, hpair, heq⟩ := List.infix_map_iff.1 h
  obtain ⟨star, rest, rfl, hstar, hrest⟩ := List.map_eq_cons_iff.1 heq.symm
  obtain ⟨slash, rfl, hslash⟩ := List.map_eq_singleton_iff.1 hrest
  obtain rfl := hfixed hstar (by decide)
  obtain rfl := hfixed hslash (by decide)
  exact hpair

/-- A text that can stand in a block comment of one line. -/
structure FitsComment (text : String) : Prop where
  not_endsComment : ¬ EndsComment text.toList
  no_control : ∀ c ∈ text.toList, Text.isControl c = false

/-- Whatever a path is, it is made fit for a comment. -/
theorem fitsComment_forComment (path : String) : FitsComment (forComment path) := by
  have hchars : (forComment path).toList = (breakCommentEnds path.toList).map shown :=
    String.toList_ofList
  constructor
  · rw [hchars]
    exact mt endsComment_of_map_shown (not_endsComment_breakCommentEnds path.toList)
  · intro c hc
    rw [hchars] at hc
    obtain ⟨original, -, rfl⟩ := List.mem_map.1 hc
    exact isControl_shown original

/-- A path that is fit for a comment is kept. -/
theorem FitsComment.forComment_eq {path : String} (h : FitsComment path) :
    forComment path = path := by
  have hshown : ∀ c ∈ path.toList, shown c = c := by
    intro c hc
    rw [shown, h.no_control c hc]
    rfl
  calc forComment path
      = String.ofList ((breakCommentEnds path.toList).map shown) := rfl
    _ = String.ofList path.toList := by
        rw [breakCommentEnds_eq_self h.not_endsComment, List.map_congr_left hshown, List.map_id']
    _ = path := String.ofList_toList

theorem forComment_idem (path : String) : forComment (forComment path) = forComment path :=
  (fitsComment_forComment path).forComment_eq

/-- Of overlapping runs only the pairs that end a comment are broken up. -/
example : forComment "a/**//*\n/" = "a/**\\//*?/" := by decide +kernel

/-! ## Checked values -/

/-- A text that can stand in a string literal and in a block comment. -/
structure FitsLiteral (text : String) : Prop extends FitsComment text where
  ne_empty : text ≠ ""
  no_quote : '"' ∉ text.toList
  no_backslash : '\\' ∉ text.toList

/-- Non-empty plain text. -/
theorem fitsLiteral_iff {text : String} :
    FitsLiteral text ↔ (!text.isEmpty && isPlainText text) = true := by
  simp only [isPlainText, Bool.and_eq_true, Bool.not_eq_true', ← Bool.not_eq_true,
    Text.contains_iff_infix, String.isEmpty_iff, List.any_eq_true, Bool.or_eq_true, beq_iff_eq,
    not_exists, not_and, not_or]
  constructor
  · intro h
    refine ⟨h.ne_empty, h.not_endsComment, fun c hc ↦ ⟨⟨?_, ?_⟩, ?_⟩⟩
    · rintro rfl
      exact h.no_quote hc
    · rintro rfl
      exact h.no_backslash hc
    · simp [h.no_control c hc]
  · rintro ⟨hne, hend, hchars⟩
    refine ⟨⟨hend, fun c hc ↦ ?_⟩, hne, fun hquote ↦ ?_, fun hbackslash ↦ ?_⟩
    · simpa using (hchars c hc).2
    · exact (hchars _ hquote).1.1 rfl
    · exact (hchars _ hbackslash).1.2 rfl

/-- The options whose value is put into literals and comments as it is. -/
def textKeys : List String := ["header_name", "invalid_name"]

theorem isValid_identifier_iff {key value : String} (h : key ∈ identifierKeys) :
    isValid key value ↔ Text.isIdentifier value := by
  have horder : ∀ key ∈ identifierKeys, key ≠ "callback_order" := by decide
  rw [isValid, if_neg (horder key h), isIdentifierKey, if_pos (List.contains_iff_mem.2 h)]

theorem isValid_text_iff {key value : String} (h : key ∈ textKeys) :
    isValid key value ↔ FitsLiteral value := by
  have hother : ∀ key ∈ textKeys, key ≠ "callback_order" ∧ isIdentifierKey key = false := by
    decide
  obtain ⟨horder, hkind⟩ := hother key h
  rw [isValid, if_neg horder, hkind, fitsLiteral_iff]
  rfl

theorem isValid_callbackOrder_iff {value : String} :
    isValid "callback_order" value ↔ ∃ order : CallbackOrder, value = order.name := by
  rw [isValid, if_pos rfl, CallbackOrder.ofName]
  constructor
  · intro h
    split at h
    · exact ⟨.exitEventEntry, ‹_›⟩
    · split at h
      · exact ⟨.exitEntryEvent, ‹_›⟩
      · cases h
  · rintro ⟨order, rfl⟩
    cases order <;> rfl

/-- The default of every option is a value that the option may have. -/
theorem isValid_default {key : String} (h : key ∈ keys) :
    isValid key ((defaults.lookup key).getD "") := by
  have hall : ∀ key ∈ keys, isValid key ((defaults.lookup key).getD "") := by decide +kernel
  exact hall key h

end Config

end StateGen
