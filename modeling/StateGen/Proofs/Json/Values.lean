import StateGen.Proofs.Json.Compact

/-!
# Values as JSON text

The text of a value tells the value: strings, integers, sequences and mappings are written as
strings, integers, arrays and objects, and nothing is written in two ways or stands for two values.
-/

namespace StateGen

namespace Json

/-- The number that decimal digits write, if there are digits and nothing else. -/
def decimal? (digits : List Char) : Option Nat :=
  if digits ≠ [] ∧ digits.all Char.isDigit then some (Text.decimal digits) else none

/-- The integer that a literal writes: decimal digits, behind a sign if it is negative. -/
def int? (literal : String) : Option Int :=
  match literal.toList with
  | '-' :: digits => (decimal? digits).map fun (n : Nat) ↦ -(n : Int)
  | digits => (decimal? digits).map Int.ofNat

private theorem decimal?_toDigits (n : Nat) : decimal? (Nat.toDigits 10 n) = some n := by
  obtain ⟨hne, hall⟩ := Text.isDigits_toDigits n
  rw [decimal?, if_pos ⟨hne, List.all_eq_true.2 hall⟩, Text.decimal_toDigits]

/-- The literal of an integer writes it. -/
theorem int?_toString (n : Int) : int? (toString n) = some n := by
  rw [int?, toList_toString_int]
  by_cases hsign : n < 0
  · rw [if_pos hsign]
    show (decimal? _).map _ = _
    rw [decimal?_toDigits, Option.map_some, Option.some.injEq]
    omega
  · rw [if_neg hsign]
    split
    · next digits heq =>
      have hminus : '-' ∈ Nat.toDigits 10 n.natAbs := by simp [heq]
      exact absurd ((Text.isDigits_toDigits n.natAbs).2 '-' hminus) (by decide)
    · rw [decimal?_toDigits, Option.map_some, Option.some.injEq, Int.ofNat_eq_natCast]
      omega

end Json

namespace Value

mutual

/-- The value that a tree stands for, with the members of objects in their order. No value is
written as null or as a truth value. -/
def ofJson? : Json → Option Value
  | .str s => some (.str s)
  | .number literal => (Json.int? literal).map .int
  | .arr items => (itemsOfJson? items).map .seq
  | .obj members => (entriesOfJson? members).map fun entries ↦ .map ⟨entries⟩
  | .null => none
  | .bool _ => none

/-- The values that array elements stand for. -/
def itemsOfJson? : List Json → Option (List Value)
  | [] => some []
  | j :: js => do return (← ofJson? j) :: (← itemsOfJson? js)

/-- The entries that object members stand for. -/
def entriesOfJson? : List (String × Json) → Option (List (String × Value))
  | [] => some []
  | (key, j) :: ms => do return (key, ← ofJson? j) :: (← entriesOfJson? ms)

end

/-- The value that is written as a text. -/
def decode (text : String) : Option Value := do ofJson? (← Json.parse? text)

mutual

/-- The tree of a value stands for the value. -/
theorem ofJson?_toJson : ∀ v : Value, ofJson? v.toJson = some v
  | .str s => by rw [toJson, ofJson?]
  | .int n => by rw [toJson, Json.ofInt, ofJson?, Json.int?_toString, Option.map_some]
  | .seq items => by rw [toJson, ofJson?, itemsOfJson?_itemsToJson, Option.map_some]
  | .map ⟨entries⟩ => by rw [toJson, ofJson?, entriesOfJson?_entriesToJson, Option.map_some]

theorem itemsOfJson?_itemsToJson : ∀ vs : List Value, itemsOfJson? (itemsToJson vs) = some vs
  | [] => rfl
  | v :: vs => by
    rw [itemsToJson, itemsOfJson?, ofJson?_toJson v, itemsOfJson?_itemsToJson vs]
    rfl

theorem entriesOfJson?_entriesToJson :
    ∀ es : List (String × Value), entriesOfJson? (entriesToJson es) = some es
  | [] => rfl
  | (key, v) :: es => by
    rw [entriesToJson, entriesOfJson?, ofJson?_toJson v, entriesOfJson?_entriesToJson es]
    rfl

end

mutual

/-- The numbers in the tree of a value are integers. -/
theorem isIntegral_toJson : ∀ v : Value, v.toJson.IsIntegral
  | .str s => by rw [toJson]; exact .str s
  | .int n => by rw [toJson]; exact .int n
  | .seq items => by rw [toJson]; exact .arr (isIntegral_of_mem_itemsToJson items)
  | .map ⟨entries⟩ => by rw [toJson]; exact .obj (isIntegral_of_mem_entriesToJson entries)

theorem isIntegral_of_mem_itemsToJson :
    ∀ vs : List Value, ∀ j ∈ itemsToJson vs, j.IsIntegral
  | [] => by simp [itemsToJson]
  | v :: vs => by
    rw [itemsToJson, List.forall_mem_cons]
    exact ⟨isIntegral_toJson v, isIntegral_of_mem_itemsToJson vs⟩

theorem isIntegral_of_mem_entriesToJson :
    ∀ es : List (String × Value), ∀ m ∈ entriesToJson es, m.2.IsIntegral
  | [] => by simp [entriesToJson]
  | (key, v) :: es => by
    rw [entriesToJson, List.forall_mem_cons]
    exact ⟨isIntegral_toJson v, isIntegral_of_mem_entriesToJson es⟩

end

/-- The compact JSON text of a value decodes to the value, whatever its strings and keys hold and
however deep it is. So values with one text are one value, the order of their entries included. -/
theorem decode_compact_toJson (v : Value) :
    decode v.toJson.compact = some v ∧
      ∀ w : Value, v.toJson.compact = w.toJson.compact ↔ v = w := by
  have hdecode (u : Value) : decode u.toJson.compact = some u := by
    rw [decode, Json.parse?_compact (isIntegral_toJson u)]
    exact ofJson?_toJson u
  refine ⟨hdecode v, fun w ↦ ⟨fun htext ↦ ?_, fun heq ↦ by rw [heq]⟩⟩
  have hsame : some v = some w := by rw [← hdecode v, htext, hdecode w]
  exact Option.some.inj hsame

end Value

end StateGen
