import StateGen.Template.Node

/-!
# Cutting a printed template

A template can be written down piece by piece: text, substitutions, and tags of blocks, which stand
on lines of their own and trim these lines away. Cutting the written text gives the pieces back,
except that neighbouring texts have become one and that the tags have places.
-/

namespace StateGen.Template

/-- A piece of a template. -/
inductive Piece where
  | text (s : String)
  /-- A tag within a line. -/
  | inline (body : String)
  /-- A tag with a line of its own. -/
  | line (body : String)

/-- The text of a piece. -/
def Piece.print : Piece → String
  | .text s => s
  | .inline body => "\x7b\x7b" ++ body ++ "\x7d\x7d"
  | .line body => "\x7b\x7b" ++ body ++ " -\x7d\x7d" ++ "\n"

/-- The text of several pieces. -/
def printPieces (ps : List Piece) : String := String.join (ps.map Piece.print)

/-- A piece as a segment without a place. -/
def Piece.segment : Piece → Segment
  | .text s => .text s
  | .inline body | .line body => .tag ⟨body, .none⟩

/-! ## Texts without a pair -/

/-- The character never stands before itself or at the end. -/
def isSparse (c : Char) : List Char → Bool
  | [] => true
  | d :: cs => (d != c || cs.head?.any (· != c)) && isSparse c cs

theorem isSparse_append {c : Char} {as bs : List Char} (ha : isSparse c as = true)
    (hb : isSparse c bs = true) : isSparse c (as ++ bs) = true := by
  induction as with
  | nil => exact hb
  | cons a as ih =>
    simp only [isSparse, Bool.and_eq_true] at ha
    have hhead : (a != c || (as ++ bs).head?.any (· != c)) = true := by
      cases as with
      | nil => simp_all
      | cons a' as => exact ha.1
    simp only [List.cons_append, isSparse, hhead, ih ha.2, Bool.and_self]

private theorem not_pair_of_isSparse {c d e : Char} {cs : List Char}
    (h : (d != c || (e :: cs).head?.any (· != c)) = true) : ¬ (d = c ∧ e = c) := by
  rintro ⟨rfl, rfl⟩
  simp at h

/-- The first pair is the one behind the text. -/
theorem cutAtPair_of_isSparse {c : Char} {cs : List Char} (h : isSparse c cs = true)
    (rest : List Char) : Text.cutAtPair c c (cs ++ c :: c :: rest) = some (cs, rest) := by
  induction cs with
  | nil => simp [Text.cutAtPair]
  | cons d cs ih =>
    simp only [isSparse, Bool.and_eq_true] at h
    cases cs with
    | nil =>
      have hd : d ≠ c := by simpa using h.1
      simp [Text.cutAtPair, hd]
    | cons e cs =>
      rw [List.cons_append, List.cons_append, Text.cutAtPair, if_neg (not_pair_of_isSparse h.1),
        ← List.cons_append, ih h.2]
      rfl

/-- There is no pair in the text. -/
theorem cutAtPair_eq_none_of_isSparse {c : Char} {cs : List Char} (h : isSparse c cs = true) :
    Text.cutAtPair c c cs = none := by
  induction cs with
  | nil => rfl
  | cons d cs ih =>
    simp only [isSparse, Bool.and_eq_true] at h
    cases cs with
    | nil => rfl
    | cons e cs =>
      rw [Text.cutAtPair, if_neg (not_pair_of_isSparse h.1), ih h.2]
      rfl

/-! ## Tags -/

/-- What a tag can say: something that neither starts nor ends with a blank or a trim mark and
holds no closing braces. -/
structure IsTagBody (cs : List Char) : Prop where
  sparse : isSparse '\x7d' cs = true
  first : ∃ c rest, cs = c :: rest ∧ Text.isBlank c = false ∧ c ≠ '-'
  last : ∃ rest c, cs = rest ++ [c] ∧ Text.isBlank c = false ∧ c ≠ '-'

section

variable {cs : List Char}

private theorem openingMark_of_isTagBody (h : IsTagBody cs) (rest : List Char) :
    openingMark (cs ++ rest) = (false, cs ++ rest) := by
  obtain ⟨c, cs', rfl, -, hc⟩ := h.first
  simp only [List.cons_append]
  unfold openingMark
  split <;> simp_all

private theorem closingMark_of_isTagBody (h : IsTagBody cs) : closingMark cs = (false, cs) := by
  obtain ⟨cs', c, rfl, -, hc⟩ := h.last
  simp [closingMark, hc]

private theorem closingMark_hyphen : closingMark (cs ++ [' ', '-']) = (true, cs ++ [' ']) := by
  have hsplit : cs ++ [' ', '-'] = (cs ++ [' ']) ++ ['-'] := by simp
  rw [hsplit, closingMark, List.getLast?_append, List.dropLast_append_of_ne_nil (by simp)]
  simp

/-- Blanks behind the body of a tag are not part of it. -/
private theorem trimBlank_of_isTagBody (h : IsTagBody cs) (blanks : List Char)
    (hblanks : ∀ c ∈ blanks, Text.isBlank c = true) : Text.trimBlank (cs ++ blanks) = cs := by
  have hstart : (cs ++ blanks).dropWhile Text.isBlank = cs ++ blanks := by
    obtain ⟨c, rest, rfl, hc, -⟩ := h.first
    simp [hc]
  obtain ⟨rest, c, rfl, hc, -⟩ := h.last
  rw [Text.trimBlank, hstart, Text.dropTrailing, List.reverse_append, List.dropWhile_append_of_pos
    (by simpa using hblanks)]
  simp [hc]

/-- Cutting goes on behind a tag. -/
theorem scanFrom_of_tag {literal inside whole rest : List Char} (trim : Bool) (p : Position)
    (hopen : Text.cutAtPair '\x7b' '\x7b' cs = some (literal, inside))
    (hclose : Text.cutAtPair '\x7d' '\x7d' inside = some (whole, rest)) :
    let start := p.advance literal
    let stop := start.advance ('\x7b' :: '\x7b' :: whole ++ ['\x7d', '\x7d'])
    let kept := if trim then trimAfterTag literal else literal
    scanFrom trim p cs =
      (scanFrom (closingMark (openingMark whole).2).1 stop rest).map fun segments ↦
        textSegment (if (openingMark whole).1 then trimBeforeTag kept else kept)
          ++ .tag ⟨String.ofList (Text.trimBlank (closingMark (openingMark whole).2).2),
            ⟨start.line, start.column, stop.line, stop.column - 1⟩⟩ :: segments := by
  intro start stop kept
  rw [scanFrom]
  split
  · rename_i hnone
    rw [hopen] at hnone
    cases hnone
  · rename_i literal' inside' hsome
    rw [hopen] at hsome
    obtain ⟨rfl, rfl⟩ : literal = literal' ∧ inside = inside' := by simpa using hsome
    split
    · rename_i hnone
      rw [hclose] at hnone
      cases hnone
    · rename_i whole' rest' hsome'
      rw [hclose] at hsome'
      obtain ⟨rfl, rfl⟩ : whole = whole' ∧ rest = rest' := by simpa using hsome'
      cases hrest : scanFrom (closingMark (openingMark whole).2).1 stop rest <;>
        simp only [start, stop] at hrest <;> simp only [hrest] <;> rfl

/-- Without a tag there is one text. -/
theorem scanFrom_of_no_tag (trim : Bool) (p : Position)
    (hopen : Text.cutAtPair '\x7b' '\x7b' cs = none) :
    scanFrom trim p cs = .ok (textSegment (if trim then trimAfterTag cs else cs)) := by
  rw [scanFrom]
  split
  · rfl
  · rename_i hsome
    rw [hopen] at hsome
    cases hsome

end

/-! ## The pieces come back -/

/-- Neighbouring texts put together, empty ones dropped, and places forgotten; `acc` is the text
that precedes. -/
def tidy (acc : List Char) : List Segment → List Segment
  | [] => textSegment acc
  | .text s :: rest => tidy (acc ++ s.toList) rest
  | .tag t :: rest => textSegment acc ++ .tag ⟨t.body, .none⟩ :: tidy [] rest

/-- A piece that can be told apart from its neighbours. -/
def Piece.IsPlain : Piece → Prop
  | .text s => isSparse '\x7b' s.toList = true
  | .inline body | .line body => IsTagBody body.toList

private theorem tidy_textSegment_append (acc : List Char) (t : Tag) (rest : List Segment) :
    tidy [] (textSegment acc ++ .tag t :: rest) =
      textSegment acc ++ .tag ⟨t.body, .none⟩ :: tidy [] rest := by
  by_cases h : acc = []
  · simp [textSegment, h, tidy]
  · simp [textSegment, h, tidy]

private theorem trimAfterTag_line (cs : List Char) : trimAfterTag ('\n' :: cs) = cs := by
  simp [trimAfterTag, dropLineBreak, Text.isSpaceOrTab]

/-- What a text looks like behind a tag: one with a line of its own leaves the end of the line. -/
private def lineEnd (trim : Bool) : List Char := if trim then ['\n'] else []

private theorem isSparse_lineEnd (trim : Bool) : isSparse '\x7b' (lineEnd trim) = true := by
  cases trim <;> rfl

private theorem trimStart_lineEnd (trim : Bool) (cs : List Char) :
    (if trim then trimAfterTag (lineEnd trim ++ cs) else lineEnd trim ++ cs) = cs := by
  cases trim with
  | false => rfl
  | true => exact trimAfterTag_line cs

/-- A tag behind a text gives the text and the tag. -/
private theorem scanFrom_append_tag {acc whole inner body : List Char} {trims : Bool}
    (hacc : isSparse '\x7b' acc = true) (hwhole : isSparse '\x7d' whole = true)
    (hopening : openingMark whole = (false, whole)) (hclosing : closingMark whole = (trims, inner))
    (hbody : Text.trimBlank inner = body) (trim : Bool) (p : Position) (rest : List Char) :
    ∃ stop span,
      scanFrom trim p
          (lineEnd trim ++ acc ++ '\x7b' :: '\x7b' :: (whole ++ '\x7d' :: '\x7d' :: rest)) =
        (scanFrom trims stop rest).map fun segments ↦
          textSegment acc ++ .tag ⟨String.ofList body, span⟩ :: segments := by
  have hopen := cutAtPair_of_isSparse (isSparse_append (isSparse_lineEnd trim) hacc)
    (whole ++ '\x7d' :: '\x7d' :: rest)
  have hclose := cutAtPair_of_isSparse hwhole rest
  have htag := scanFrom_of_tag trim p hopen hclose
  simp only [hopening, hclosing, hbody, trimStart_lineEnd, Bool.false_eq_true, if_false] at htag
  exact ⟨_, _, htag⟩

/-- Cutting what was printed gives the pieces, up to `tidy`. -/
theorem scanFrom_printPieces {ps : List Piece} (hps : ∀ p ∈ ps, p.IsPlain) (acc : List Char)
    (hacc : isSparse '\x7b' acc = true) (trim : Bool) (p : Position) :
    ∃ segments, scanFrom trim p (lineEnd trim ++ acc ++ (printPieces ps).toList) = .ok segments ∧
      tidy [] segments = tidy acc (ps.map Piece.segment) := by
  induction ps generalizing acc trim p with
  | nil =>
    have hnone := cutAtPair_eq_none_of_isSparse (isSparse_append (isSparse_lineEnd trim) hacc)
    refine ⟨textSegment acc, ?_, ?_⟩
    · rw [printPieces, List.map_nil, String.join_nil, String.toList_empty, List.append_nil,
        scanFrom_of_no_tag trim p hnone, trimStart_lineEnd]
    · by_cases h : acc = [] <;> simp [textSegment, h, tidy]
  | cons piece ps ih =>
    have hpiece := hps piece List.mem_cons_self
    have hrest : ∀ q ∈ ps, q.IsPlain := fun q hq ↦ hps q (List.mem_cons_of_mem piece hq)
    have hprint : (printPieces (piece :: ps)).toList =
        piece.print.toList ++ (printPieces ps).toList := by
      simp [printPieces]
    cases piece with
    | text s =>
      obtain ⟨segments, hscan, htidy⟩ :=
        ih hrest (acc ++ s.toList) (isSparse_append hacc hpiece) trim p
      refine ⟨segments, ?_, htidy⟩
      rw [hprint, ← hscan]
      simp [Piece.print]
    | inline body =>
      have hopening := openingMark_of_isTagBody hpiece []
      have htrim := trimBlank_of_isTagBody hpiece [] (by simp)
      rw [List.append_nil] at hopening htrim
      obtain ⟨stop, span, htag⟩ := scanFrom_append_tag hacc hpiece.sparse hopening
        (closingMark_of_isTagBody hpiece) htrim trim p (printPieces ps).toList
      obtain ⟨segments, hscan, htidy⟩ := ih hrest [] rfl false stop
      have hscan : scanFrom false stop (printPieces ps).toList = .ok segments := hscan
      rw [hscan, String.ofList_toList] at htag
      refine ⟨textSegment acc ++ .tag ⟨body, span⟩ :: segments, ?_, ?_⟩
      · rw [Except.map] at htag
        rw [hprint, ← htag]
        simp [Piece.print]
      · rw [tidy_textSegment_append, htidy]
        rfl
    | line body =>
      have hopening := openingMark_of_isTagBody hpiece [' ', '-']
      have htrim := trimBlank_of_isTagBody hpiece [' '] (by simp [Text.isBlank, Text.blankRanges])
      have hwhole : isSparse '\x7d' (body.toList ++ [' ', '-']) = true :=
        isSparse_append hpiece.sparse (by decide)
      obtain ⟨stop, span, htag⟩ := scanFrom_append_tag hacc hwhole hopening closingMark_hyphen
        htrim trim p ('\n' :: (printPieces ps).toList)
      obtain ⟨segments, hscan, htidy⟩ := ih hrest [] rfl true stop
      have hscan : scanFrom true stop ('\n' :: (printPieces ps).toList) = .ok segments := hscan
      rw [hscan, String.ofList_toList] at htag
      refine ⟨textSegment acc ++ .tag ⟨body, span⟩ :: segments, ?_, ?_⟩
      · rw [Except.map] at htag
        rw [hprint, ← htag]
        simp [Piece.print]
      · rw [tidy_textSegment_append, htidy]
        rfl

/-- Cutting a printed template gives its pieces, up to `tidy`. -/
theorem scan_printPieces {ps : List Piece} (hps : ∀ p ∈ ps, p.IsPlain) :
    ∃ segments, scan (printPieces ps) = .ok segments ∧
      tidy [] segments = tidy [] (ps.map Piece.segment) :=
  scanFrom_printPieces hps [] rfl false .start

end StateGen.Template
