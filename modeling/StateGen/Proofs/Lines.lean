import Mathlib.Data.List.Basic
import Mathlib.Data.List.Induction
import Mathlib.Data.List.TakeWhile
import StateGen.Source

/-!
# The lines of a text

Stepping through a text counts its lines and the characters of the last of them. The number of the
line that is reached in this way is the number of the piece between line feeds that is reached, and
the column tells where on this piece the text goes on. The lines that are shown are these pieces
without carriage returns at their ends, and without an empty last one.
-/

namespace StateGen

/-! ## Places -/

namespace Position

theorem advance_append (p : Position) (as bs : List Char) :
    p.advance (as ++ bs) = (p.advance as).advance bs := List.foldl_append

theorem advance_cons (p : Position) (c : Char) (cs : List Char) :
    p.advance (c :: cs) = (p.next c).advance cs := rfl

/-- The place of the character that follows the text: its line is counted by line feeds, its column
by the characters behind the last of them. -/
def behind (before : List Char) : Position :=
  ⟨before.count '\n' + 1, (before.reverse.takeWhile (· != '\n')).length + 1⟩

/-- Stepping through a text leads to the place behind it. -/
theorem advance_start (before : List Char) : start.advance before = behind before := by
  induction before using List.reverseRecOn with
  | nil => rfl
  | append_singleton before c ih =>
    rw [advance_append, ih, advance_cons, next]
    by_cases hc : c = '\n'
    · simp [hc, behind, advance]
    · simp [hc, behind, advance]

theorem advance_behind (before cs : List Char) :
    (behind before).advance cs = behind (before ++ cs) := by
  rw [← advance_start, ← advance_start, advance_append]

/-- Behind a character that is no line feed the column is one further. -/
theorem behind_snoc {c : Char} (hc : c ≠ '\n') (before : List Char) :
    behind (before ++ [c]) = ⟨(behind before).line, (behind before).column + 1⟩ := by
  simp [behind, hc]

end Position

/-! ## Pieces between line feeds -/

namespace Text

variable {cs front line : List Char}

private theorem length_splitLines (cs : List Char) :
    (splitLines cs).length = cs.count '\n' + 1 := by
  induction cs with
  | nil => rfl
  | cons c cs ih =>
    rw [splitLines]
    by_cases hc : c = '\n'
    · rw [if_pos hc, List.length_cons, ih, hc, List.count_cons_self]
    · rw [if_neg hc, List.count_cons_of_ne hc]
      cases hlines : splitLines cs with
      | nil =>
        rw [hlines] at ih
        cases ih
      | cons line lines =>
        rw [hlines] at ih
        exact ih

private theorem splitLines_append (as bs : List Char) :
    splitLines (as ++ '\n' :: bs) = splitLines as ++ splitLines bs := by
  induction as with
  | nil => rfl
  | cons c as ih =>
    rw [List.cons_append, splitLines, splitLines, ih]
    by_cases hc : c = '\n'
    · rw [if_pos hc, if_pos hc]
      rfl
    · rw [if_neg hc, if_neg hc]
      cases hlines : splitLines as with
      | nil =>
        have hlength := length_splitLines as
        rw [hlines] at hlength
        cases hlength
      | cons line lines => rfl

private theorem splitLines_of_line (h : '\n' ∉ line) : splitLines line = [line] := by
  induction line with
  | nil => rfl
  | cons c line ih =>
    rw [List.mem_cons, not_or] at h
    rw [splitLines, if_neg (Ne.symm h.1), ih h.2]

private theorem notMem_takeWhile_feed (cs : List Char) : '\n' ∉ cs.takeWhile (· != '\n') := by
  intro h
  have hfeed := List.mem_takeWhile_imp h
  simp at hfeed

private theorem dropWhile_feed_cases (cs : List Char) :
    cs.dropWhile (· != '\n') = [] ∨ ∃ rest, cs.dropWhile (· != '\n') = '\n' :: rest := by
  have hfeed := List.head?_dropWhile_not (· != '\n') cs
  cases hrest : cs.dropWhile (· != '\n') with
  | nil => exact .inl rfl
  | cons c rest =>
    rw [hrest] at hfeed
    have hc : c = '\n' := by simpa using hfeed
    exact .inr ⟨rest, by rw [hc]⟩

/-- A text goes on with its first line, up to the line feed if there is one. -/
private theorem exists_firstLine (cs : List Char) :
    ∃ tail, cs = cs.takeWhile (· != '\n') ++ tail ∧
      (tail = [] ∨ ∃ lines, tail = '\n' :: lines) :=
  ⟨_, List.takeWhile_append_dropWhile.symm, dropWhile_feed_cases cs⟩

/-- The text in front of a line is empty or ends with a line feed. -/
def StartsLine (front : List Char) : Prop := front = [] ∨ ∃ lines, front = lines ++ ['\n']

private theorem splitLines_of_startsLine (h : StartsLine front) (cs : List Char) :
    ∃ lines, splitLines (front ++ cs) = lines ++ splitLines cs ∧
      lines.length = front.count '\n' := by
  obtain rfl | ⟨before, rfl⟩ := h
  · exact ⟨[], rfl, rfl⟩
  · refine ⟨splitLines before, ?_, ?_⟩
    · rw [List.append_assoc]
      exact splitLines_append before cs
    · rw [length_splitLines, List.count_append]
      rfl

/-- The line on which a text ends, as far as it goes. -/
private theorem exists_lastLine (before : List Char) :
    ∃ front start, before = front ++ start ∧ StartsLine front ∧ '\n' ∉ start ∧
      Position.behind before = ⟨front.count '\n' + 1, start.length + 1⟩ := by
  have hsplit : before = (before.reverse.dropWhile (· != '\n')).reverse ++
      (before.reverse.takeWhile (· != '\n')).reverse := by
    rw [← List.reverse_append, List.takeWhile_append_dropWhile, List.reverse_reverse]
  have hstart : '\n' ∉ (before.reverse.takeWhile (· != '\n')).reverse :=
    fun h ↦ notMem_takeWhile_feed before.reverse (List.mem_reverse.1 h)
  refine ⟨_, _, hsplit, ?_, hstart, ?_⟩
  · obtain hfront | ⟨lines, hfront⟩ := dropWhile_feed_cases before.reverse
    · exact .inl (by rw [hfront, List.reverse_nil])
    · exact .inr ⟨lines.reverse, by rw [hfront, List.reverse_cons]⟩
  · have hcount := congrArg (List.count '\n') hsplit
    rw [List.count_append, List.count_eq_zero_of_not_mem hstart, Nat.add_zero] at hcount
    rw [Position.behind, hcount, List.length_reverse]

/-- The piece on which a text goes on has the number of its line: what precedes the text on this
line, and what of the text stands on it. -/
theorem exists_splitLines_behind (before rest : List Char) :
    ∃ start, (Position.behind before).column = start.length + 1 ∧
      (splitLines (before ++ rest))[(Position.behind before).line - 1]? =
        some (start ++ rest.takeWhile (· != '\n')) := by
  obtain ⟨front, start, rfl, hfront, hstart, hplace⟩ := exists_lastLine before
  refine ⟨start, by rw [hplace], ?_⟩
  have hline : '\n' ∉ start ++ rest.takeWhile (· != '\n') :=
    fun h ↦ (List.mem_append.1 h).elim hstart (notMem_takeWhile_feed rest)
  obtain ⟨before, hsplit, hlength⟩ := splitLines_of_startsLine hfront (start ++ rest)
  rw [List.append_assoc, hsplit, hplace, Nat.add_sub_cancel, ← hlength,
    List.getElem?_append_right (Nat.le_refl _), Nat.sub_self]
  obtain ⟨tail, hrest, htail⟩ := exists_firstLine rest
  generalize rest.takeWhile (· != '\n') = more at hrest hline ⊢
  subst hrest
  obtain rfl | ⟨tail, rfl⟩ := htail
  · rw [List.append_nil, splitLines_of_line hline]
    rfl
  · rw [← List.append_assoc, splitLines_append, splitLines_of_line hline]
    rfl

/-! ## Lines without their breaks -/

/-- What follows a line: the end of the text, or a line feed, or a carriage return and a line feed.
The line does not end with the carriage return in front of a line feed. -/
inductive EndsLine (line : List Char) : List Char → Prop where
  | text : EndsLine line []
  | lineFeed (tail : List Char) : line.getLast? ≠ some '\r' → EndsLine line ('\n' :: tail)
  | carriageReturn (tail : List Char) : EndsLine line ('\r' :: '\n' :: tail)

/-- The line of a text on which its part `before` ends, without its line break. -/
def IsLineAt (cs before line : List Char) : Prop :=
  ∃ front start tail, before = front ++ start ∧ cs = front ++ (line ++ tail) ∧
    StartsLine front ∧ start <+: line ∧ '\n' ∉ line ∧ EndsLine line tail

/-- The last line of a text. -/
private theorem lines_last (hfront : StartsLine front) (hline : '\n' ∉ line) (hne : line ≠ []) :
    (lines (front ++ line))[front.count '\n']? = some line := by
  obtain ⟨before, hsplit, hlength⟩ := splitLines_of_startsLine hfront line
  have hkeep : (some line).filter (!·.isEmpty) = some line := by
    cases line with
    | nil => exact absurd rfl hne
    | cons c line => rfl
  rw [lines, hsplit, splitLines_of_line hline, ← hlength]
  simp [hkeep]

/-- A line that is not the last one. -/
private theorem lines_broken (hfront : StartsLine front) (hline : '\n' ∉ line) (tail : List Char) :
    (lines (front ++ (line ++ '\n' :: tail)))[front.count '\n']? =
      some (dropCarriageReturn line) := by
  obtain ⟨before, hsplit, hlength⟩ := splitLines_of_startsLine hfront (line ++ '\n' :: tail)
  have hne : splitLines tail ≠ [] := by
    apply List.ne_nil_of_length_pos
    rw [length_splitLines]
    exact Nat.succ_pos _
  rw [lines, hsplit, splitLines_append, splitLines_of_line hline, ← hlength]
  rw [List.dropLast_append_of_ne_nil (by simp), List.singleton_append,
    List.dropLast_cons_of_ne_nil hne]
  simp

/-- A carriage return that is dropped stands behind any word of the line that has none. -/
private theorem dropCarriageReturn_append {w : List Char} (hne : w ≠ []) (hw : '\r' ∉ w)
    (start more : List Char) :
    ∃ kept, dropCarriageReturn (start ++ (w ++ more)) = start ++ (w ++ kept) ∧
      (kept = more ∧ (start ++ (w ++ more)).getLast? ≠ some '\r' ∨ more = kept ++ ['\r']) := by
  have hstays (h : (start ++ (w ++ more)).getLast? ≠ some '\r') :
      dropCarriageReturn (start ++ (w ++ more)) = start ++ (w ++ more) := if_neg h
  obtain rfl | ⟨kept, c, rfl⟩ := List.eq_nil_or_concat' more
  · have hlast : (start ++ (w ++ [])).getLast? ≠ some '\r' := by
      rw [List.append_nil, List.getLast?_append_of_ne_nil start hne]
      exact fun h ↦ hw (List.mem_of_getLast? h)
    exact ⟨[], hstays hlast, .inl ⟨rfl, hlast⟩⟩
  · have hlast : (start ++ (w ++ (kept ++ [c]))).getLast? = some c := by
      rw [← List.append_assoc, ← List.append_assoc, List.getLast?_concat]
    by_cases hc : c = '\r'
    · refine ⟨kept, ?_, .inr (by rw [hc])⟩
      rw [dropCarriageReturn, hlast, hc, if_pos rfl, ← List.append_assoc, ← List.append_assoc,
        List.dropLast_concat, List.append_assoc]
    · have hreturn : (start ++ (w ++ (kept ++ [c]))).getLast? ≠ some '\r' := by
        rw [hlast]
        exact fun h ↦ hc (Option.some.inj h)
      exact ⟨kept ++ [c], hstays hreturn, .inl ⟨rfl, hreturn⟩⟩

/-- A word of the text stands on the line that counting line feeds leads to, in the column that
counting the characters behind the last of them leads to. -/
theorem exists_line_at {before w rest : List Char} (hcs : cs = before ++ (w ++ rest))
    (hne : w ≠ []) (hw : ∀ c ∈ w, c ≠ '\n' ∧ c ≠ '\r') :
    ∃ line, (lines cs)[(Position.behind before).line - 1]? = some line ∧ IsLineAt cs before line ∧
      w <+: line.drop ((Position.behind before).column - 1) := by
  obtain ⟨front, start, rfl, hfront, hstart, hplace⟩ := exists_lastLine before
  obtain ⟨tail, hrest, htail⟩ := exists_firstLine rest
  have hmore := notMem_takeWhile_feed rest
  generalize rest.takeWhile (· != '\n') = more at hrest hmore
  subst hrest
  have hword : '\n' ∉ w := fun h ↦ (hw _ h).1 rfl
  have hline : '\n' ∉ start ++ (w ++ more) := by simp [hstart, hword, hmore]
  have hcs : cs = front ++ (start ++ (w ++ more) ++ tail) := by
    rw [hcs]
    simp only [List.append_assoc]
  rw [hplace]
  simp only [Nat.add_sub_cancel]
  obtain rfl | ⟨tail, rfl⟩ := htail
  · refine ⟨start ++ (w ++ more), ?_, ?_, ?_⟩
    · rw [hcs, List.append_nil]
      exact lines_last hfront hline (by simp [hne])
    · exact ⟨front, start, [], rfl, hcs, hfront, List.prefix_append _ _, hline, .text⟩
    · rw [List.drop_left]
      exact List.prefix_append w more
  · have hget := lines_broken hfront hline tail
    rw [← hcs] at hget
    obtain ⟨kept, hkept, hbreak⟩ :=
      dropCarriageReturn_append hne (fun h ↦ (hw _ h).2 rfl) start more
    rw [hkept] at hget
    refine ⟨_, hget, ?_, ?_⟩
    · obtain ⟨rfl, hlast⟩ | rfl := hbreak
      · exact ⟨front, start, _, rfl, hcs, hfront, List.prefix_append _ _, hline,
          .lineFeed tail hlast⟩
      · refine ⟨front, start, '\r' :: '\n' :: tail, rfl, ?_, hfront, List.prefix_append _ _, ?_,
          .carriageReturn tail⟩
        · rw [hcs]
          simp only [List.append_assoc, List.cons_append, List.nil_append]
        · simp only [List.mem_append, not_or] at hline ⊢
          exact ⟨hline.1, hline.2.1, hline.2.2.1⟩
    · rw [List.drop_left]
      exact List.prefix_append w kept

end Text

end StateGen
