import StateGen.Json.Reader

/-!
# Strings in JSON text

A character stands in a string in one of three forms: as it is, as a backslash with a letter, or as
a backslash with the four digits of its number. The reader takes the forms apart again one by one,
so a string between quotes reads as itself, whatever characters it holds.
-/

namespace StateGen.Json

variable {c : Char} {cs : List Char}

/-! ## Forms -/

/-- The forms in which a character may stand in a string. -/
inductive EscapedAs (c : Char) : List Char → Prop where
  | letter {e : Char} (known : simpleEscape? e = some c) : EscapedAs c ['\\', e]
  | digits {high low : Char} (below : c.toNat < 0x20)
    (number : hexQuad? '0' '0' high low = some c.toNat) :
    EscapedAs c ['\\', 'u', '0', '0', high, low]
  | plain (no_quote : c ≠ '"') (no_backslash : c ≠ '\\') (printable : 0x20 ≤ c.toNat) :
    EscapedAs c [c]

private theorem hexValue?_hexDigit {n : Nat} (h : n < 16) :
    hexValue? (Text.hexDigit n) = some n := by
  have hall : ∀ n < 16, hexValue? (Text.hexDigit n) = some n := by decide
  exact hall n h

private theorem hexQuad?_hexDigits {n : Nat} (h : n < 0x20) :
    hexQuad? '0' '0' (Text.hexDigit (n / 16)) (Text.hexDigit (n % 16)) = some n := by
  have hhigh : hexValue? (Text.hexDigit (n / 16)) = some (n / 16) := hexValue?_hexDigit (by omega)
  have hlow : hexValue? (Text.hexDigit (n % 16)) = some (n % 16) := hexValue?_hexDigit (by omega)
  have hzero : hexValue? '0' = some 0 := rfl
  simp only [hexQuad?, hhigh, hlow, hzero, Option.bind_eq_bind, Option.bind_some, Option.pure_def,
    Option.some.injEq]
  omega

/-- What is written for a character is one of its forms. -/
theorem escapedAs_escape (c : Char) : EscapedAs c (escape c) := by
  unfold escape
  -- Seven characters have a letter of their own.
  iterate 7
    split
    · next h =>
      subst h
      exact .letter rfl
  split
  · next h => exact .digits h (hexQuad?_hexDigits h)
  · next hquote hbackslash _ _ _ _ _ h => exact .plain hquote hbackslash (by omega)

private theorem ne_of_simpleEscape? {e : Char} (h : simpleEscape? e = some c) : e ≠ 'u' := by
  rintro rfl
  cases h

/-! ## Finding the end of a string -/

/-- A form is read over as a whole. -/
private theorem stringLiteral?_escaped (h : EscapedAs c cs) (rest : List Char) :
    stringLiteral? (cs ++ rest) =
      (stringLiteral? rest).map fun (literal, after) ↦ (cs ++ literal, after) := by
  cases h with
  | letter known =>
    rw [List.cons_append, List.cons_append, List.nil_append, stringLiteral?, known]
    · rfl
    · intro _ _ _ _ _ hu
      exact absurd hu (ne_of_simpleEscape? known)
  | digits _ number =>
    simp only [List.cons_append, List.nil_append, stringLiteral?, number]
    rfl
  | plain no_quote no_backslash printable =>
    rw [List.singleton_append, stringLiteral?, if_neg (by omega)]
    · rfl
    · exact no_quote
    · intro _ _ _ _ _ hbackslash
      exact absurd hbackslash no_backslash
    · intro _ _ hbackslash
      exact absurd hbackslash no_backslash

/-- A written string ends at its closing quote, and at no quote in it. -/
theorem stringLiteral?_quoted (cs rest : List Char) :
    stringLiteral? (cs.flatMap escape ++ '"' :: rest) = some (cs.flatMap escape, rest) := by
  induction cs with
  | nil => rw [List.flatMap_nil, List.nil_append, stringLiteral?]
  | cons c cs ih =>
    rw [List.flatMap_cons, List.append_assoc, stringLiteral?_escaped (escapedAs_escape c), ih]
    rfl

/-! ## Resolving escapes -/

/-- Four characters that write no number stand for nothing. -/
private theorem unescapeChars?_of_hexQuad?_eq_none {w x y z : Char}
    (h : hexQuad? w x y z = none) (rest : List Char) :
    unescapeChars? ('\\' :: 'u' :: w :: x :: y :: z :: rest) = none := by
  by_cases hpair : ∃ e f g k after, rest = '\\' :: 'u' :: e :: f :: g :: k :: after
  · obtain ⟨e, f, g, k, after, rfl⟩ := hpair
    rw [unescapeChars?, h]
  · rw [unescapeChars?, h]
    intro e f g k after heq
    exact hpair ⟨e, f, g, k, after, heq⟩

/-- The number of a character that is no half of a pair stands for it, even in front of another
number. -/
private theorem unescapeChars?_of_hexQuad? {w x y z : Char} {n : Nat}
    (h : hexQuad? w x y z = some n) (hn : n < 0xd800) (rest : List Char) :
    unescapeChars? ('\\' :: 'u' :: w :: x :: y :: z :: rest) =
      (unescapeChars? rest).map (Char.ofNat n :: ·) := by
  by_cases hpair : ∃ e f g k after, rest = '\\' :: 'u' :: e :: f :: g :: k :: after
  · obtain ⟨e, f, g, k, after, rfl⟩ := hpair
    rw [unescapeChars?, h]
    cases hlow : hexQuad? e f g k with
    | none => rw [unescapeChars?_of_hexQuad?_eq_none hlow, Option.map_none]
    | some low =>
      dsimp only
      rw [if_neg (by omega), if_neg (by omega)]
  · rw [unescapeChars?, h]
    · dsimp only
      rw [if_neg (by omega)]
    · intro e f g k after heq
      exact hpair ⟨e, f, g, k, after, heq⟩

/-- A form stands for its character. -/
private theorem unescapeChars?_escaped (h : EscapedAs c cs) (rest : List Char) :
    unescapeChars? (cs ++ rest) = (unescapeChars? rest).map (c :: ·) := by
  cases h with
  | letter known =>
    have hu := ne_of_simpleEscape? known
    rw [List.cons_append, List.cons_append, List.nil_append, unescapeChars?, known]
    · intro _ _ _ _ _ _ _ _ _ heq
      exact absurd heq hu
    · intro _ _ _ _ _ heq
      exact absurd heq hu
  | digits below number =>
    have hresolve := unescapeChars?_of_hexQuad? number (by omega) rest
    rwa [Char.ofNat_toNat] at hresolve
  | plain _ no_backslash _ =>
    rw [List.singleton_append, unescapeChars?]
    · intro _ _ _ _ _ _ _ _ _ heq
      exact absurd heq no_backslash
    · intro _ _ _ _ _ heq
      exact absurd heq no_backslash
    · intro _ _ heq
      exact absurd heq no_backslash

/-- What is written for a string stands for the string. -/
theorem unescape?_escaped (s : String) :
    unescape? (String.ofList (s.toList.flatMap escape)) = some s := by
  have hchars (cs : List Char) : unescapeChars? (cs.flatMap escape) = some cs := by
    induction cs with
    | nil => rw [List.flatMap_nil, unescapeChars?]
    | cons c cs ih =>
      rw [List.flatMap_cons, unescapeChars?_escaped (escapedAs_escape c), ih, Option.map_some]
  rw [unescape?, String.toList_ofList, hchars, Option.map_some, String.ofList_toList]

end StateGen.Json
