import StateGen.Json
import StateGen.Json.Number

/-!
# Reading JSON text

A strict reader: no comments, no trailing commas and no control characters inside strings. Blanks
are the space, the tab, the line feed and the carriage return.

Reading goes in two steps. `Raw.parse?` finds the structure of a text and keeps its strings and
numbers as their literals; `Raw.toJson?` then resolves the escapes, and refuses those that name
half a surrogate pair. A reader of records can so leave the values alone that it has no use for.
-/

namespace StateGen.Json

/-- A JSON text whose strings and numbers are still literals; those of strings stand without their
quotes. -/
inductive Raw where
  | null
  | bool (b : Bool)
  | number (literal : String)
  | str (literal : String)
  | arr (items : List Raw)
  | obj (members : List (String × Raw))

/-- A blank of JSON. -/
def isBlank (c : Char) : Bool := c == ' ' || c == '\t' || c == '\n' || c == '\r'

/-- Skip blanks. -/
def skipBlanks (cs : List Char) : List Char := cs.dropWhile isBlank

/-- The value of a hexadecimal digit. -/
def hexValue? (c : Char) : Option Nat :=
  if '0' ≤ c ∧ c ≤ '9' then some (c.toNat - '0'.toNat)
  else if 'a' ≤ c ∧ c ≤ 'f' then some (c.toNat - 'a'.toNat + 10)
  else if 'A' ≤ c ∧ c ≤ 'F' then some (c.toNat - 'A'.toNat + 10)
  else none

/-- The number written by four hexadecimal digits. -/
def hexQuad? (a b c d : Char) : Option Nat := do
  return (((← hexValue? a) * 16 + (← hexValue? b)) * 16 + (← hexValue? c)) * 16 + (← hexValue? d)

/-- The character of a one-letter escape. -/
def simpleEscape? (c : Char) : Option Char :=
  match c with
  | '"' => some '"'
  | '\\' => some '\\'
  | '/' => some '/'
  | 'b' => some '\x08'
  | 'f' => some '\x0c'
  | 'n' => some '\n'
  | 'r' => some '\r'
  | 't' => some '\t'
  | _ => none

/-- The rest of a string after its opening quote: its literal and what follows the closing
quote. -/
def stringLiteral? : List Char → Option (List Char × List Char)
  | [] => none
  | '"' :: rest => some ([], rest)
  | '\\' :: 'u' :: a :: b :: c :: d :: rest =>
    if (hexQuad? a b c d).isSome then
      (stringLiteral? rest).map fun (cs, after) ↦
        ('\\' :: 'u' :: a :: b :: c :: d :: cs, after)
    else none
  | '\\' :: c :: rest =>
    if (simpleEscape? c).isSome then
      (stringLiteral? rest).map fun (cs, after) ↦ ('\\' :: c :: cs, after)
    else none
  | c :: rest =>
    if c.toNat < 0x20 then none
    else (stringLiteral? rest).map fun (cs, after) ↦ (c :: cs, after)

/-- The characters that the literal of a string stands for. A character beyond U+FFFF is escaped
as a surrogate pair, and half of a pair stands for nothing. -/
def unescapeChars? : List Char → Option (List Char)
  | [] => some []
  | '\\' :: 'u' :: a :: b :: c :: d :: '\\' :: 'u' :: e :: f :: g :: h :: rest =>
    match hexQuad? a b c d, hexQuad? e f g h with
    | some high, some low =>
      if 0xd800 ≤ high ∧ high ≤ 0xdbff then
        if 0xdc00 ≤ low ∧ low ≤ 0xdfff then
          (unescapeChars? rest).map
            (Char.ofNat (0x10000 + (high - 0xd800) * 0x400 + (low - 0xdc00)) :: ·)
        else none
      else if 0xdc00 ≤ high ∧ high ≤ 0xdfff then none
      else
        (unescapeChars? ('\\' :: 'u' :: e :: f :: g :: h :: rest)).map (Char.ofNat high :: ·)
    | _, _ => none
  | '\\' :: 'u' :: a :: b :: c :: d :: rest =>
    match hexQuad? a b c d with
    | some n =>
      if 0xd800 ≤ n ∧ n ≤ 0xdfff then none
      else (unescapeChars? rest).map (Char.ofNat n :: ·)
    | none => none
  | '\\' :: c :: rest =>
    match simpleEscape? c with
    | some e => (unescapeChars? rest).map (e :: ·)
    | none => none
  | c :: rest => (unescapeChars? rest).map (c :: ·)

/-- The string that a literal stands for. -/
def unescape? (literal : String) : Option String :=
  (unescapeChars? literal.toList).map String.ofList

/-- A run of digits that is not empty. -/
def digits? (cs : List Char) : Option (List Char × List Char) :=
  match cs.takeWhile Char.isDigit with
  | [] => none
  | ds => some (ds, cs.dropWhile Char.isDigit)

/-- The integer part of a number: zero, or digits that do not start with zero. -/
def integerPart? : List Char → Option (List Char × List Char)
  | '0' :: rest => some (['0'], rest)
  | cs => digits? cs

/-- The fraction of a number, if there is one. -/
def fraction? : List Char → Option (List Char × List Char)
  | '.' :: rest => (digits? rest).map fun (ds, after) ↦ ('.' :: ds, after)
  | cs => some ([], cs)

/-- The exponent of a number, if there is one. -/
def exponent? : List Char → Option (List Char × List Char)
  | e :: rest =>
    if e == 'e' || e == 'E' then
      match rest with
      | sign :: tail =>
        if sign == '+' || sign == '-' then
          (digits? tail).map fun (ds, after) ↦ (e :: sign :: ds, after)
        else (digits? rest).map fun (ds, after) ↦ (e :: ds, after)
      | [] => none
    else some ([], e :: rest)
  | [] => some ([], [])

/-- A number without its sign. -/
def magnitude? (cs : List Char) : Option (List Char × List Char) := do
  let (whole, cs) ← integerPart? cs
  let (fraction, cs) ← fraction? cs
  let (exponent, cs) ← exponent? cs
  return (whole ++ fraction ++ exponent, cs)

/-- A number literal. -/
def number? : List Char → Option (List Char × List Char)
  | '-' :: rest => (magnitude? rest).map fun (ds, after) ↦ ('-' :: ds, after)
  | cs => magnitude? cs

/-- What follows a keyword, if the text starts with it. -/
def keyword? (word : String) (cs : List Char) : Option (List Char) :=
  if word.toList.isPrefixOf cs then some (cs.drop word.length) else none

namespace Raw

mutual

/-- A value at the start of the text, and what follows it. -/
def value? : Nat → List Char → Option (Raw × List Char)
  | 0, _ => none
  | fuel + 1, cs =>
    match cs with
    | '"' :: rest => (stringLiteral? rest).map fun (s, after) ↦ (.str (String.ofList s), after)
    | '[' :: rest =>
      match skipBlanks rest with
      | ']' :: after => some (.arr [], after)
      | inner => (items? fuel inner).map fun (items, after) ↦ (.arr items, after)
    | '\x7b' :: rest =>
      match skipBlanks rest with
      | '\x7d' :: after => some (.obj [], after)
      | inner => (members? fuel inner).map fun (members, after) ↦ (.obj members, after)
    | 'n' :: _ => (keyword? "null" cs).map fun after ↦ (.null, after)
    | 't' :: _ => (keyword? "true" cs).map fun after ↦ (.bool true, after)
    | 'f' :: _ => (keyword? "false" cs).map fun after ↦ (.bool false, after)
    | _ => (number? cs).map fun (ds, after) ↦ (.number (String.ofList ds), after)

/-- Array elements up to the closing bracket. -/
def items? : Nat → List Char → Option (List Raw × List Char)
  | 0, _ => none
  | fuel + 1, cs => do
    let (item, cs) ← value? fuel (skipBlanks cs)
    match skipBlanks cs with
    | ',' :: rest =>
      let (items, cs) ← items? fuel rest
      return (item :: items, cs)
    | ']' :: rest => return ([item], rest)
    | _ => none

/-- Object members up to the closing brace. -/
def members? : Nat → List Char → Option (List (String × Raw) × List Char)
  | 0, _ => none
  | fuel + 1, cs =>
    match skipBlanks cs with
    | '"' :: rest => do
      let (key, cs) ← stringLiteral? rest
      match skipBlanks cs with
      | ':' :: rest =>
        let (item, cs) ← value? fuel (skipBlanks rest)
        let member := (String.ofList key, item)
        match skipBlanks cs with
        | ',' :: rest =>
          let (members, cs) ← members? fuel rest
          return (member :: members, cs)
        | '\x7d' :: rest => return ([member], rest)
        | _ => none
      | _ => none
    | _ => none

end

/-- Read a text that holds one value and nothing else but blanks. Every value and every separator
takes a character, so twice the length of the text bounds the nesting of calls. -/
def parse? (text : String) : Option Raw := do
  let cs := text.toList
  let (v, rest) ← value? (2 * cs.length + 2) (skipBlanks cs)
  if (skipBlanks rest).isEmpty then return v else none

mutual

/-- The value with all strings and keys resolved. -/
def toJson? : Raw → Option Json
  | .null => some .null
  | .bool b => some (.bool b)
  | .number literal => some (.number literal)
  | .str literal => (unescape? literal).map .str
  | .arr items => (itemsToJson? items).map .arr
  | .obj members => (membersToJson? members).map .obj

/-- Array elements with all strings and keys resolved. -/
def itemsToJson? : List Raw → Option (List Json)
  | [] => some []
  | v :: vs => do return (← v.toJson?) :: (← itemsToJson? vs)

/-- Object members with all strings and keys resolved. -/
def membersToJson? : List (String × Raw) → Option (List (String × Json))
  | [] => some []
  | (key, v) :: ms => do return (← unescape? key, ← v.toJson?) :: (← membersToJson? ms)

end

mutual

/-- Whether a value can be kept as data: its strings and keys can be resolved, its numbers fit
into a double, and its containers are nested at most `room` deep. -/
def storable (room : Nat) : Raw → Bool
  | .null => true
  | .bool _ => true
  | .number literal => fitsDouble literal
  | .str literal => (unescape? literal).isSome
  | .arr items => 0 < room && itemsStorable (room - 1) items
  | .obj members => 0 < room && membersStorable (room - 1) members

/-- Whether every element of an array can be kept. -/
def itemsStorable (room : Nat) : List Raw → Bool
  | [] => true
  | v :: vs => v.storable room && itemsStorable room vs

/-- Whether every member of an object can be kept. -/
def membersStorable (room : Nat) : List (String × Raw) → Bool
  | [] => true
  | (key, v) :: ms => (unescape? key).isSome && v.storable room && membersStorable room ms

end

end Raw

/-- Read a text that holds one value. -/
def parse? (text : String) : Option Json := do (← Raw.parse? text).toJson?

end StateGen.Json
