import StateGen.Proofs.Template.Wording
import StateGen.Proofs.Token.Places

/-!
# Cutting a template at its leftmost tags

A text has one leftmost division into literals and tags: each tag opens at the first pair of opening
braces behind the tag before it and closes at the first pair of closing braces behind its opening.
Cutting follows this division. It fails exactly if an opening on the way has no closing braces
behind it, and blames that opening. Otherwise its segments are the literals, less what the trim
marks of the tags next to them take away, and the tags, each at the place of its braces.
-/

namespace StateGen

/-! ## Pieces of text -/

namespace Text

/-- The character stands twice side by side. -/
def HasPair (c : Char) (cs : List Char) : Prop := [c, c] <:+: cs

theorem not_hasPair_nil (c : Char) : ¬ HasPair c [] := by
  simp [HasPair]

theorem hasPair_cons_iff {c d : Char} {cs : List Char} :
    HasPair c (d :: cs) ↔ (d = c ∧ cs.head? = some c) ∨ HasPair c cs := by
  rw [HasPair, List.infix_cons_iff, ← HasPair]
  refine or_congr_left ?_
  cases cs with
  | nil => simp
  | cons e cs => simp [eq_comm]

theorem isSparse_iff {c : Char} {cs : List Char} :
    Template.isSparse c cs = true ↔ ¬ HasPair c (cs ++ [c]) := by
  induction cs with
  | nil => simp [Template.isSparse, hasPair_cons_iff, not_hasPair_nil]
  | cons d cs ih =>
    rw [Template.isSparse, Bool.and_eq_true, ih, List.cons_append, hasPair_cons_iff, not_or]
    refine and_congr_left' ?_
    cases cs with
    | nil => simp
    | cons e cs => simp [imp_iff_not_or]

/-- Cutting at a pair finds the first one. -/
theorem cutAtPair_eq_some_iff {c : Char} {cs before after : List Char} :
    cutAtPair c c cs = some (before, after) ↔
      cs = before ++ c :: c :: after ∧ ¬ HasPair c (before ++ [c]) := by
  rw [← isSparse_iff]
  constructor
  · intro h
    induction cs generalizing before with
    | nil => cases h
    | cons d cs ih =>
      cases cs with
      | nil => cases h
      | cons e cs =>
        rw [cutAtPair] at h
        split at h
        · rename_i hpair
          cases h
          simp [hpair, Template.isSparse]
        · rename_i hpair
          obtain ⟨⟨before', after'⟩, hcut, heq⟩ := Option.map_eq_some_iff.1 h
          cases heq
          obtain ⟨heq, hsparse⟩ := ih hcut
          refine ⟨by rw [heq]; rfl, ?_⟩
          rw [Template.isSparse, hsparse, Bool.and_true]
          -- The second character tells whether the first one starts a pair.
          cases before' with
          | nil => simp_all
          | cons f before' => simp_all [imp_iff_not_or]
  · rintro ⟨rfl, hsparse⟩
    exact Template.cutAtPair_of_isSparse hsparse after

theorem cutAtPair_eq_none_iff {c : Char} {cs : List Char} :
    cutAtPair c c cs = none ↔ ¬ HasPair c cs := by
  induction cs with
  | nil => simp [cutAtPair, not_hasPair_nil]
  | cons d cs ih =>
    rw [hasPair_cons_iff]
    cases cs with
    | nil => simp [cutAtPair, not_hasPair_nil]
    | cons e cs =>
      rw [cutAtPair]
      split <;> simp_all

/-- `kept` is the text without the characters of a class at its start. -/
def LosesFront (p : Char → Bool) (cs kept : List Char) : Prop :=
  ∃ front, cs = front ++ kept ∧ (∀ c ∈ front, p c = true) ∧
    ∀ c, kept.head? = some c → p c = false

/-- `kept` is the text without the characters of a class at its end. -/
def LosesBack (p : Char → Bool) (cs kept : List Char) : Prop :=
  ∃ back, cs = kept ++ back ∧ (∀ c ∈ back, p c = true) ∧
    ∀ c, kept.getLast? = some c → p c = false

theorem losesFront_iff {p : Char → Bool} {cs kept : List Char} :
    LosesFront p cs kept ↔ cs.dropWhile p = kept := by
  constructor
  · rintro ⟨front, rfl, hfront, hkept⟩
    exact dropWhile_run hfront hkept
  · rintro rfl
    exact ⟨cs.takeWhile p, List.takeWhile_append_dropWhile.symm,
      fun c hc ↦ List.mem_takeWhile_imp hc, head?_dropWhile cs⟩

theorem losesBack_iff {p : Char → Bool} {cs kept : List Char} :
    LosesBack p cs kept ↔ dropTrailing p cs = kept := by
  have hfront : LosesBack p cs kept ↔ LosesFront p cs.reverse kept.reverse := by
    constructor
    · rintro ⟨back, rfl, hback, hkept⟩
      exact ⟨back.reverse, List.reverse_append, by simpa using hback, by simpa using hkept⟩
    · rintro ⟨front, hcs, hfront, hkept⟩
      refine ⟨front.reverse, ?_, by simpa using hfront, by simpa using hkept⟩
      rw [← List.reverse_reverse cs, hcs, List.reverse_append, List.reverse_reverse]
  rw [hfront, losesFront_iff, dropTrailing, List.reverse_eq_iff]

end Text

namespace Template

/-! ## The division of a text -/

/-- A tag as it is written, and the text between it and the tag before it. -/
structure RawTag where
  literal : List Char
  /-- What stands between the braces. -/
  whole : List Char

namespace RawTag

/-- How the tag is written behind its literal. -/
def text (t : RawTag) : List Char :=
  t.literal ++ '\x7b' :: '\x7b' :: (t.whole ++ ['\x7d', '\x7d'])

/-- The tag opens at the first opening braces from its literal on, and closes at the first closing
braces behind them. -/
def IsLeftmost (t : RawTag) : Prop :=
  ¬ Text.HasPair '\x7b' (t.literal ++ ['\x7b']) ∧ ¬ Text.HasPair '\x7d' (t.whole ++ ['\x7d'])

end RawTag

/-- The text that is divided into tags and what follows the last one. -/
def rawText (tags : List RawTag) (last : List Char) : List Char := tags.flatMap RawTag.text ++ last

/-- The text is divided into leftmost tags and what follows the last one. -/
def IsDivision (cs : List Char) (tags : List RawTag) (last : List Char) : Prop :=
  cs = rawText tags last ∧ ∀ t ∈ tags, t.IsLeftmost

/-- Opening braces, the first ones behind `literal`, with no closing braces `inside` the rest. -/
def IsUnclosed (literal inside : List Char) : Prop :=
  ¬ Text.HasPair '\x7b' (literal ++ ['\x7b']) ∧ ¬ Text.HasPair '\x7d' inside

/-- A text can be divided until no opening is left, or up to one that is not closed. -/
theorem exists_isDivision (cs : List Char) :
    ∃ tags last, IsDivision cs tags last ∧ (¬ Text.HasPair '\x7b' last ∨
      ∃ literal inside, last = literal ++ '\x7b' :: '\x7b' :: inside ∧
        IsUnclosed literal inside) := by
  induction hn : cs.length using Nat.strong_induction_on generalizing cs with
  | _ n ih =>
    cases hopen : Text.cutAtPair '\x7b' '\x7b' cs with
    | none => exact ⟨[], cs, ⟨rfl, by simp⟩, .inl (Text.cutAtPair_eq_none_iff.1 hopen)⟩
    | some cut =>
      obtain ⟨literal, inside⟩ := cut
      obtain ⟨hcs, hliteral⟩ := Text.cutAtPair_eq_some_iff.1 hopen
      cases hclose : Text.cutAtPair '\x7d' '\x7d' inside with
      | none =>
        have hinside := Text.cutAtPair_eq_none_iff.1 hclose
        exact ⟨[], cs, ⟨rfl, by simp⟩, .inr ⟨literal, inside, hcs, hliteral, hinside⟩⟩
      | some cut =>
        obtain ⟨whole, rest⟩ := cut
        obtain ⟨rfl, hwhole⟩ := Text.cutAtPair_eq_some_iff.1 hclose
        have hlt : rest.length < n := by
          rw [← hn, hcs]
          simp only [List.length_append, List.length_cons]
          omega
        obtain ⟨tags, last, ⟨rfl, htags⟩, hlast⟩ := ih _ hlt rest rfl
        refine ⟨⟨literal, whole⟩ :: tags, last, ⟨?_, ?_⟩, hlast⟩
        · simp [hcs, rawText, RawTag.text]
        · exact List.forall_mem_cons.2 ⟨⟨hliteral, hwhole⟩, htags⟩

/-! ## What the marks take away -/

/-- The trim marks of a tag and what stands between them. The mark at the end is looked for behind
the one at the start, so that a single hyphen is a mark at the start only. -/
structure IsMarked (whole inner : List Char) (opening closing : Bool) : Prop where
  whole_eq : whole = (if opening then ['-'] else []) ++ (inner ++ if closing then ['-'] else [])
  head_ne : opening = false → whole.head? ≠ some '-'
  last_ne : closing = false → inner.getLast? ≠ some '-'

/-- `kept` is the text without a line feed at its start, or a carriage return and a line feed. -/
inductive LosesLineBreak : List Char → List Char → Prop where
  | lineFeed (kept : List Char) : LosesLineBreak ('\n' :: kept) kept
  | carriageReturn (kept : List Char) : LosesLineBreak ('\r' :: '\n' :: kept) kept
  | none {kept : List Char} :
    ¬ ['\n'] <+: kept → ¬ ['\r', '\n'] <+: kept → LosesLineBreak kept kept

/-- `kept` is what remains of a literal: behind a closing mark it loses spaces and tabs and then a
line break at its start, and in front of an opening mark spaces and tabs at its end. -/
def IsKept (closing opening : Bool) (literal kept : List Char) : Prop :=
  ∃ middle,
    (if closing then ∃ line, Text.LosesFront Text.isSpaceOrTab literal line ∧
      LosesLineBreak line middle else middle = literal) ∧
    (if opening then Text.LosesBack Text.isSpaceOrTab middle kept else kept = middle)

/-- The segments of a divided text. `before` is what precedes it, and `trims` tells whether the tag
in front of it has a closing mark. -/
inductive Yields : List Char → Bool → List RawTag → List Char → List Segment → Prop where
  | last {before last kept : List Char} {trims : Bool} :
    IsKept trims false last kept → Yields before trims [] last (textSegment kept)
  | tag {before kept inner middle body last : List Char} {trims opening closing : Bool}
      {t : RawTag} {tags : List RawTag} {segments : List Segment} :
    IsMarked t.whole inner opening closing → IsKept trims opening t.literal kept →
      Text.LosesFront Text.isBlank inner middle → Text.LosesBack Text.isBlank middle body →
      Yields (before ++ t.text) closing tags last segments →
      Yields before trims (t :: tags) last
        (textSegment kept ++
          .tag ⟨String.ofList body, .between (.behind (before ++ t.literal))
            (.behind (before ++ t.text.dropLast))⟩ :: segments)

private theorem openingMark_of_head_ne {cs : List Char} (h : cs.head? ≠ some '-') :
    openingMark cs = (false, cs) := by
  unfold openingMark
  split
  · exact absurd rfl h
  · rfl

/-- The marks are those that cutting sees. -/
private theorem isMarked_iff {whole inner : List Char} {opening closing : Bool} :
    IsMarked whole inner opening closing ↔
      (openingMark whole).1 = opening ∧ closingMark (openingMark whole).2 = (closing, inner) := by
  constructor
  · rintro ⟨rfl, hhead, hlast⟩
    have hopening : openingMark ((if opening then ['-'] else []) ++
        (inner ++ if closing then ['-'] else [])) =
          (opening, inner ++ if closing then ['-'] else []) := by
      cases opening with
      | false => exact openingMark_of_head_ne (hhead rfl)
      | true => rfl
    rw [hopening]
    refine ⟨rfl, ?_⟩
    cases closing with
    | false => simp [closingMark, hlast rfl]
    | true => simp [closingMark]
  · rintro ⟨rfl, hclosing⟩
    have hsplit : (openingMark whole).2 = inner ++ if closing then ['-'] else [] := by
      rw [closingMark] at hclosing
      split at hclosing
      · rename_i hlast
        cases hclosing
        obtain ⟨_, hsplit⟩ := List.getLast?_eq_some_iff.1 hlast
        simp [hsplit]
      · cases hclosing
        simp
    refine ⟨?_, ?_, ?_⟩
    · rw [← hsplit]
      unfold openingMark
      split <;> rfl
    · intro hfalse hhead
      obtain ⟨cs, rfl⟩ := List.head?_eq_some_iff.1 hhead
      cases hfalse
    · rintro rfl
      rw [closingMark] at hclosing
      split at hclosing
      · cases hclosing
      · rename_i hlast
        cases hclosing
        exact hlast

private theorem losesLineBreak_iff {line kept : List Char} :
    LosesLineBreak line kept ↔ dropLineBreak line = kept := by
  constructor
  · rintro (_ | _ | ⟨hfeed, hreturn⟩)
    · rfl
    · rfl
    · unfold dropLineBreak
      split
      · exact absurd ⟨_, rfl⟩ hreturn
      · exact absurd ⟨_, rfl⟩ hfeed
      · rfl
  · rintro rfl
    unfold dropLineBreak
    split
    · exact .carriageReturn _
    · exact .lineFeed _
    · rename_i hreturn hfeed
      refine .none ?_ ?_
      · rintro ⟨cs, rfl⟩
        exact hfeed cs rfl
      · rintro ⟨cs, rfl⟩
        exact hreturn cs rfl

/-- What remains of a literal is what cutting leaves. -/
private theorem isKept_iff {closing opening : Bool} {literal kept : List Char} :
    IsKept closing opening literal kept ↔
      (let start := if closing then trimAfterTag literal else literal
        if opening then trimBeforeTag start else start) = kept := by
  simp only [IsKept, Text.losesFront_iff, losesLineBreak_iff, Text.losesBack_iff, trimAfterTag,
    trimBeforeTag]
  cases closing <;> cases opening <;> simp [eq_comm]

/-! ## Cutting -/

theorem exists_yields (before : List Char) (trims : Bool) (tags : List RawTag) (last : List Char) :
    ∃ segments, Yields before trims tags last segments := by
  induction tags generalizing before trims with
  | nil => exact ⟨_, .last (isKept_iff.2 rfl)⟩
  | cons t tags ih =>
    obtain ⟨segments, hsegments⟩ :=
      ih (before ++ t.text) (closingMark (openingMark t.whole).2).1
    exact ⟨_, .tag (isMarked_iff.2 ⟨rfl, rfl⟩) (isKept_iff.2 rfl) (Text.losesFront_iff.2 rfl)
      (Text.losesBack_iff.2 rfl) hsegments⟩

private theorem scanFrom_of_unterminated {cs literal inside : List Char} (trim : Bool)
    (p : Position) (hopen : Text.cutAtPair '\x7b' '\x7b' cs = some (literal, inside))
    (hclose : Text.cutAtPair '\x7d' '\x7d' inside = none) :
    scanFrom trim p cs = .error (.malformed .unterminated (.point (p.advance literal))) := by
  rw [scanFrom]
  split
  · rename_i hnone
    rw [hopen] at hnone
    cases hnone
  · rename_i literal' inside' hsome
    rw [hopen] at hsome
    cases hsome
    split
    · rfl
    · rename_i hsome'
      rw [hclose] at hsome'
      cases hsome'

section

variable {t : RawTag} (ht : t.IsLeftmost) (trims : Bool) (before rest : List Char)
include ht

private theorem cut_rawTag :
    ∃ inside, Text.cutAtPair '\x7b' '\x7b' (t.text ++ rest) = some (t.literal, inside) ∧
      Text.cutAtPair '\x7d' '\x7d' inside = some (t.whole, rest) := by
  refine ⟨t.whole ++ '\x7d' :: '\x7d' :: rest, ?_, ?_⟩
  · exact Text.cutAtPair_eq_some_iff.2 ⟨by simp [RawTag.text], ht.1⟩
  · exact Text.cutAtPair_eq_some_iff.2 ⟨rfl, ht.2⟩

/-- Cutting steps over a tag. -/
private theorem scanFrom_rawTag :
    scanFrom trims (.behind before) (t.text ++ rest) =
      (scanFrom (closingMark (openingMark t.whole).2).1 (.behind (before ++ t.text)) rest).map
        fun segments ↦
          let start := if trims then trimAfterTag t.literal else t.literal
          textSegment (if (openingMark t.whole).1 then trimBeforeTag start else start) ++
            .tag ⟨String.ofList (Text.trimBlank (closingMark (openingMark t.whole).2).2),
              .between (.behind (before ++ t.literal)) (.behind (before ++ t.text.dropLast))⟩
              :: segments := by
  obtain ⟨inside, hopen, hclose⟩ := cut_rawTag ht rest
  have hstop : ((Position.behind before).advance t.literal).advance
      ('\x7b' :: '\x7b' :: t.whole ++ ['\x7d', '\x7d']) = .behind (before ++ t.text) := by
    rw [Position.advance_behind, Position.advance_behind, RawTag.text]
    simp
  have hlast : t.text.dropLast ++ ['\x7d'] = t.text := by
    have hsplit : t.text =
        t.literal ++ '\x7b' :: '\x7b' :: (t.whole ++ ['\x7d']) ++ ['\x7d'] := by
      simp [RawTag.text]
    rw [hsplit, List.dropLast_concat]
  have hbrace : Position.behind (before ++ t.text) =
      ⟨(Position.behind (before ++ t.text.dropLast)).line,
        (Position.behind (before ++ t.text.dropLast)).column + 1⟩ := by
    rw [← Position.behind_snoc (c := '\x7d') (by decide), List.append_assoc, hlast]
  rw [scanFrom_of_tag trims _ hopen hclose, hstop, Position.advance_behind, Span.between]
  simp only [hbrace, Nat.add_sub_cancel]

end

/-- A divided text is cut into its segments. -/
theorem scanFrom_of_yields {before last : List Char} {trims : Bool} {tags : List RawTag}
    {segments : List Segment} (h : Yields before trims tags last segments)
    (htags : ∀ t ∈ tags, t.IsLeftmost) (hlast : ¬ Text.HasPair '\x7b' last) :
    scanFrom trims (.behind before) (rawText tags last) = .ok segments := by
  induction h with
  | last hkept =>
    rw [rawText, List.flatMap_nil, List.nil_append,
      scanFrom_of_no_tag _ _ (Text.cutAtPair_eq_none_iff.2 hlast), ← isKept_iff.1 hkept]
    rfl
  | @tag before kept inner middle body last trims opening closing t tags segments hmarks hkept
      hfront hback _ ih =>
    obtain ⟨ht, htags⟩ := List.forall_mem_cons.1 htags
    obtain ⟨hopening, hclosing⟩ := isMarked_iff.1 hmarks
    have hbody : Text.trimBlank inner = body := by
      rw [Text.trimBlank, Text.losesFront_iff.1 hfront, Text.losesBack_iff.1 hback]
    have hrest := ih htags hlast
    rw [rawText, List.flatMap_cons, List.append_assoc, ← rawText, scanFrom_rawTag ht, hclosing,
      hrest, hopening, hbody]
    simp only [Except.map, isKept_iff.1 hkept]

/-- Cutting fails at the first opening that is not closed. -/
theorem scanFrom_of_unclosed {literal inside : List Char} {tags : List RawTag}
    (htags : ∀ t ∈ tags, t.IsLeftmost) (h : IsUnclosed literal inside) (before : List Char)
    (trims : Bool) :
    scanFrom trims (.behind before) (rawText tags (literal ++ '\x7b' :: '\x7b' :: inside)) =
      .error (.malformed .unterminated (.point (.behind (before ++ rawText tags literal)))) := by
  induction tags generalizing before trims with
  | nil =>
    have hopen := Text.cutAtPair_eq_some_iff.2 ⟨Eq.refl (literal ++ _ :: _ :: inside), h.1⟩
    have hclose := Text.cutAtPair_eq_none_iff.2 h.2
    rw [rawText, List.flatMap_nil, List.nil_append, scanFrom_of_unterminated trims _ hopen hclose,
      Position.advance_behind]
    rfl
  | cons t tags ih =>
    obtain ⟨ht, htags⟩ := List.forall_mem_cons.1 htags
    rw [rawText, List.flatMap_cons, List.append_assoc, ← rawText, scanFrom_rawTag ht, ih htags,
      rawText, rawText, List.flatMap_cons]
    simp only [Except.map, List.append_assoc]

/-- Cutting follows the leftmost division of the text into literals and tags. It yields the segments
of this division, or it fails at an opening without closing braces behind it. -/
theorem scan_leftmost (text : String) :
    (∀ segments, scan text = .ok segments ↔
      ∃ tags last, IsDivision text.toList tags last ∧ ¬ Text.HasPair '\x7b' last ∧
        Yields [] false tags last segments) ∧
    ∀ e, scan text = .error e ↔
      ∃ tags literal inside, IsDivision text.toList tags (literal ++ '\x7b' :: '\x7b' :: inside) ∧
        IsUnclosed literal inside ∧
        e = .malformed .unterminated (.point (.behind (rawText tags literal))) := by
  have hdone : ∀ {tags last segments}, IsDivision text.toList tags last →
      ¬ Text.HasPair '\x7b' last → Yields [] false tags last segments →
      scan text = .ok segments := by
    intro tags last segments hdivision hlast hyields
    rw [scan, hdivision.1]
    exact scanFrom_of_yields hyields hdivision.2 hlast
  have hfail : ∀ {tags literal inside},
      IsDivision text.toList tags (literal ++ '\x7b' :: '\x7b' :: inside) →
      IsUnclosed literal inside →
      scan text = .error (.malformed .unterminated (.point (.behind (rawText tags literal)))) := by
    intro tags literal inside hdivision hunclosed
    rw [scan, hdivision.1]
    exact scanFrom_of_unclosed hdivision.2 hunclosed [] false
  constructor
  · intro segments
    constructor
    · intro hscan
      obtain ⟨tags, last, hdivision, hlast | ⟨literal, inside, rfl, hunclosed⟩⟩ :=
        exists_isDivision text.toList
      · obtain ⟨segments', hyields⟩ := exists_yields [] false tags last
        obtain rfl : segments' = segments := by
          simpa [hdone hdivision hlast hyields] using hscan
        exact ⟨tags, last, hdivision, hlast, hyields⟩
      · rw [hfail hdivision hunclosed] at hscan
        cases hscan
    · rintro ⟨tags, last, hdivision, hlast, hyields⟩
      exact hdone hdivision hlast hyields
  · intro e
    constructor
    · intro hscan
      obtain ⟨tags, last, hdivision, hlast | ⟨literal, inside, rfl, hunclosed⟩⟩ :=
        exists_isDivision text.toList
      · obtain ⟨segments', hyields⟩ := exists_yields [] false tags last
        rw [hdone hdivision hlast hyields] at hscan
        cases hscan
      · rw [hfail hdivision hunclosed] at hscan
        cases hscan
        exact ⟨tags, literal, inside, hdivision, hunclosed, rfl⟩
    · rintro ⟨tags, literal, inside, hdivision, hunclosed, rfl⟩
      exact hfail hdivision hunclosed

end Template

end StateGen
