import StateGen.Text
import StateGen.Value

/-!
# JSON

Trees of JSON values and the two ways of writing them: compact, without any blank, and indented by
two spaces a level. Objects keep their members in order.
-/

namespace StateGen

/-- A JSON value. Numbers are kept as their literal. -/
inductive Json where
  | null
  | bool (b : Bool)
  | number (literal : String)
  | str (s : String)
  | arr (items : List Json)
  | obj (members : List (String × Json))

namespace Json

instance : Inhabited Json := ⟨.null⟩

/-- An integer in decimal. -/
def ofInt (n : Int) : Json := .number (toString n)

/-- A natural number in decimal. -/
def ofNat (n : Nat) : Json := .number (toString n)

/-- How a character stands inside a string: quotes, backslashes and characters below U+0020 are
escaped, everything else stands for itself. -/
def escape (c : Char) : List Char :=
  if c = '"' then ['\\', '"']
  else if c = '\\' then ['\\', '\\']
  else if c = '\x08' then ['\\', 'b']
  else if c = '\x0c' then ['\\', 'f']
  else if c = '\n' then ['\\', 'n']
  else if c = '\r' then ['\\', 'r']
  else if c = '\t' then ['\\', 't']
  else if c.toNat < 0x20 then
    ['\\', 'u', '0', '0', Text.hexDigit (c.toNat / 16), Text.hexDigit (c.toNat % 16)]
  else [c]

/-- A string between quotes. -/
def quote (s : String) : String := String.ofList ('"' :: s.toList.flatMap escape ++ ['"'])

/-! ## Compact form -/

mutual

/-- The text without blanks. -/
def compact : Json → String
  | .null => "null"
  | .bool b => if b then "true" else "false"
  | .number literal => literal
  | .str s => quote s
  | .arr items => "[" ++ ",".intercalate (compactItems items) ++ "]"
  | .obj members => "\x7b" ++ ",".intercalate (compactMembers members) ++ "\x7d"

/-- The texts of array elements. -/
def compactItems : List Json → List String
  | [] => []
  | v :: vs => v.compact :: compactItems vs

/-- The texts of object members. -/
def compactMembers : List (String × Json) → List String
  | [] => []
  | (key, v) :: ms => (quote key ++ ":" ++ v.compact) :: compactMembers ms

end

/-! ## Indented form -/

/-- A line break and the indentation of a level. -/
def newline (level : Nat) : String := "\n" ++ "".pushn ' ' (2 * level)

mutual

/-- The text with every element and member on a line of its own; empty containers stay closed. -/
def pretty (level : Nat) : Json → String
  | .arr (item :: items) =>
    "[" ++ ",".intercalate (prettyItems (level + 1) (item :: items)) ++ newline level ++ "]"
  | .obj (member :: members) =>
    "\x7b" ++ ",".intercalate (prettyMembers (level + 1) (member :: members)) ++ newline level
      ++ "\x7d"
  | .arr [] => "[]"
  | .obj [] => "\x7b\x7d"
  | .null => "null"
  | .bool b => if b then "true" else "false"
  | .number literal => literal
  | .str s => quote s

/-- The lines of array elements. -/
def prettyItems (level : Nat) : List Json → List String
  | [] => []
  | v :: vs => (newline level ++ v.pretty level) :: prettyItems level vs

/-- The lines of object members. -/
def prettyMembers (level : Nat) : List (String × Json) → List String
  | [] => []
  | (key, v) :: ms =>
    (newline level ++ quote key ++ ": " ++ v.pretty level) :: prettyMembers level ms

end

end Json

/-! ## Values as JSON -/

namespace Value

mutual

/-- Strings, integers, sequences and mappings as their JSON counterparts. -/
def toJson : Value → Json
  | .str s => .str s
  | .int n => .ofInt n
  | .seq items => .arr (itemsToJson items)
  | .map ⟨entries⟩ => .obj (entriesToJson entries)

/-- The elements of a sequence. -/
def itemsToJson : List Value → List Json
  | [] => []
  | v :: vs => v.toJson :: itemsToJson vs

/-- The entries of a mapping. -/
def entriesToJson : List (String × Value) → List (String × Json)
  | [] => []
  | (key, v) :: es => (key, v.toJson) :: entriesToJson es

end

end Value

end StateGen
