/-!
# Character classes and pieces of text

Every rule about characters that the other modules share: which characters separate words, which
ones may stand in a C identifier, and how a text is cut into lines. Texts are handled as lists of
characters here; the functions on `String` only wrap them.
-/

namespace StateGen.Text

/-- Code points with the Unicode property `White_Space`. -/
def blankRanges : List (Nat × Nat) :=
  [(0x09, 0x0d), (0x20, 0x20), (0x85, 0x85), (0xa0, 0xa0), (0x1680, 0x1680), (0x2000, 0x200a),
    (0x2028, 0x2029), (0x202f, 0x202f), (0x205f, 0x205f), (0x3000, 0x3000)]

/-- A character with the Unicode property `White_Space`. -/
def isBlank (c : Char) : Bool :=
  blankRanges.any fun r ↦ r.1 ≤ c.toNat && c.toNat ≤ r.2

/-- A control character: one of the general category `Cc`. -/
def isControl (c : Char) : Bool :=
  c.toNat < 0x20 || (0x7f ≤ c.toNat && c.toNat ≤ 0x9f)

/-- A space or a tab. -/
def isSpaceOrTab (c : Char) : Bool := c == ' ' || c == '\t'

/-- An ASCII letter, an ASCII digit or the underscore. -/
def isWordChar (c : Char) : Bool := c.isAlphanum || c == '_'

/-- An ASCII letter or the underscore, which may start an identifier. -/
def isWordStart (c : Char) : Bool := c.isAlpha || c == '_'

/-- A C identifier: a letter or underscore, then letters, digits and underscores. -/
def isIdentifier (s : String) : Bool :=
  match s.toList with
  | [] => false
  | c :: cs => isWordStart c && cs.all isWordChar

/-- The list without its longest suffix of characters that satisfy `p`. -/
def dropTrailing (p : Char → Bool) (cs : List Char) : List Char :=
  (cs.reverse.dropWhile p).reverse

/-- The list without blanks at either end. -/
def trimBlank (cs : List Char) : List Char :=
  dropTrailing isBlank (cs.dropWhile isBlank)

/-- Cut at every line feed; the pieces joined by line feeds are the text again. -/
def splitLines : List Char → List (List Char)
  | [] => [[]]
  | c :: cs =>
    if c = '\n' then [] :: splitLines cs
    else
      match splitLines cs with
      | [] => [[c]]
      | line :: lines => (c :: line) :: lines

/-- The list without a carriage return at its end, if there is one. -/
def dropCarriageReturn (cs : List Char) : List Char :=
  if cs.getLast? = some '\r' then cs.dropLast else cs

/-- The lines of a text: each ends with a line feed or with a carriage return and a line feed, which
do not belong to it. The last line may lack its end; an empty one does not count then. -/
def lines (cs : List Char) : List (List Char) :=
  let pieces := splitLines cs
  pieces.dropLast.map dropCarriageReturn ++ (pieces.getLast?.filter (!·.isEmpty)).toList

/-- The maximal runs of characters that are not blank. -/
def words (cs : List Char) : List (List Char) :=
  match cs with
  | [] => []
  | c :: rest =>
    if isBlank c then words rest
    else
      match rest with
      | [] => [[c]]
      | d :: _ =>
        if isBlank d then [c] :: words rest
        else
          match words rest with
          | [] => [[c]]
          | w :: ws => (c :: w) :: ws

/-- Whether `pattern` stands somewhere in the text. -/
def contains (pattern : List Char) : List Char → Bool
  | [] => pattern.isEmpty
  | c :: cs => pattern.isPrefixOf (c :: cs) || contains pattern cs

/-- Cut at the first place where the two characters `a`, `b` stand side by side: what precedes
them and what follows them. -/
def cutAtPair (a b : Char) : List Char → Option (List Char × List Char)
  | c :: d :: rest =>
    if c = a ∧ d = b then some ([], rest)
    else (cutAtPair a b (d :: rest)).map fun (before, after) ↦ (c :: before, after)
  | _ => none

/-- The number that decimal digits write. -/
def decimal (digits : List Char) : Nat :=
  digits.foldl (fun n c ↦ n * 10 + (c.toNat - '0'.toNat)) 0

/-- Lower-case hexadecimal digit of a number below sixteen. -/
def hexDigit (n : Nat) : Char := Nat.digitChar n

/-- Two lower-case hexadecimal digits of a byte. -/
def hexByte (b : UInt8) : String :=
  String.ofList [hexDigit (b.toNat / 16), hexDigit (b.toNat % 16)]

/-- What follows the two characters is shorter than the text that was cut. -/
theorem length_lt_of_cutAtPair {a b : Char} {cs before after : List Char}
    (h : cutAtPair a b cs = some (before, after)) : after.length < cs.length := by
  fun_induction cutAtPair a b cs generalizing before after with
  | case1 c d rest _ =>
    simp only [Option.some.injEq, Prod.mk.injEq] at h
    simp only [← h.2, List.length_cons]
    omega
  | case2 c d rest _ ih =>
    obtain ⟨⟨before', after'⟩, hcut, heq⟩ := Option.map_eq_some_iff.1 h
    have hlt := ih hcut
    simp at heq
    simp only [List.length_cons] at hlt ⊢
    rw [← heq.2]
    omega
  | case3 => simp at h

end StateGen.Text
