import StateGen.OrderedMap

/-!
# Namespace values

The values that templates read: strings, integers, sequences and insertion-ordered mappings. An
access that does not fit the kind of the value fails with the cause, never with a default.
-/

namespace StateGen

/-- A string, an integer, a sequence or a mapping. -/
inductive Value where
  | str (s : String)
  | int (n : Int)
  | seq (items : List Value)
  | map (fields : OrderedMap Value)

namespace Value

instance : Inhabited Value := ⟨.str ""⟩

/-- The four kinds of values. -/
inductive Kind where
  | string
  | integer
  | sequence
  | mapping
deriving DecidableEq, Repr

/-- The word for a kind in messages. -/
def Kind.name : Kind → String
  | .string => "string"
  | .integer => "integer"
  | .sequence => "sequence"
  | .mapping => "mapping"

/-- Why an access to a value failed. -/
inductive Error where
  | notFound (key : String)
  | indexOutOfRange (index length : Nat)
  | kindMismatch (expected found : Kind)
  | notAContainer (kind : Kind)
deriving DecidableEq, Repr

/-- The text of an access failure. -/
def Error.message : Error → String
  | .notFound key => s!"key '{key}' not found"
  | .indexOutOfRange index length =>
    "index " ++ toString index ++ " out of range (length " ++ toString length ++ ")"
  | .kindMismatch expected found => "expected " ++ expected.name ++ ", found " ++ found.name
  | .notAContainer kind => kind.name ++ " has no length"

/-- The kind of a value. -/
def kind : Value → Kind
  | .str _ => .string
  | .int _ => .integer
  | .seq _ => .sequence
  | .map _ => .mapping

/-- Truth values are the integers one and zero. -/
def ofBool (b : Bool) : Value := .int (if b then 1 else 0)

/-- A sequence of strings. -/
def ofStrings (names : List String) : Value := .seq (names.map .str)

/-! ## Access by kind -/

/-- The text of a string. -/
def asString : Value → Except Error String
  | .str s => .ok s
  | v => .error (.kindMismatch .string v.kind)

/-- The number of an integer. -/
def asInt : Value → Except Error Int
  | .int n => .ok n
  | v => .error (.kindMismatch .integer v.kind)

/-- The elements of a sequence. -/
def asSeq : Value → Except Error (List Value)
  | .seq items => .ok items
  | v => .error (.kindMismatch .sequence v.kind)

/-- The fields of a mapping. -/
def asMap : Value → Except Error (OrderedMap Value)
  | .map fields => .ok fields
  | v => .error (.kindMismatch .mapping v.kind)

/-- The value under a key of a mapping. -/
def get (v : Value) (key : String) : Except Error Value := do
  match (← v.asMap).get? key with
  | some found => return found
  | none => throw (.notFound key)

/-- The value under a key, if the value is a mapping that has it. -/
def get? : Value → String → Option Value
  | .map fields, key => fields.get? key
  | _, _ => none

/-- The element of a sequence at an index. -/
def item (v : Value) (index : Nat) : Except Error Value := do
  let items ← v.asSeq
  match items[index]? with
  | some found => return found
  | none => throw (.indexOutOfRange index items.length)

/-- Number of elements or entries of a container. -/
def length : Value → Except Error Nat
  | .seq items => .ok items.length
  | .map fields => .ok fields.size
  | v => .error (.notAContainer v.kind)

/-- Zero, the empty string and empty containers are false, everything else is true. -/
def isTruthy : Value → Bool
  | .str s => !s.isEmpty
  | .int n => n != 0
  | .seq items => !items.isEmpty
  | .map fields => !fields.isEmpty

/-! ## Changed copies -/

/-- The mapping with a value stored under a key. -/
def insert (v : Value) (key : String) (value : Value) : Except Error Value := do
  return .map ((← v.asMap).insert key value)

/-- The sequence with a value appended. -/
def push (v : Value) (value : Value) : Except Error Value := do
  return .seq ((← v.asSeq) ++ [value])

/-- Apply `f` to the value reached by following the keys, and store what it gives in its place.
A step that fails, or `f` itself, leaves nothing changed. -/
def updateAt (f : Value → Except Error Value) : List String → Value → Except Error Value
  | [], v => f v
  | key :: keys, v => do
    let fields ← v.asMap
    match fields.get? key with
    | none => throw (.notFound key)
    | some child => return .map (fields.insert key (← updateAt f keys child))

/-- The value reached by following the keys. -/
def follow : List String → Value → Except Error Value
  | [], v => .ok v
  | key :: keys, v => do follow keys (← v.get key)

/-! ## Text -/

mutual

/-- Strings stand for themselves and integers are decimal; containers show their contents between
brackets. -/
def display : Value → String
  | .str s => s
  | .int n => toString n
  | .seq items => "[" ++ ", ".intercalate (displayItems items) ++ "]"
  | .map ⟨entries⟩ => "\x7b" ++ ", ".intercalate (displayEntries entries) ++ "\x7d"

/-- The texts of the elements of a sequence. -/
def displayItems : List Value → List String
  | [] => []
  | v :: vs => v.display :: displayItems vs

/-- The texts of the entries of a mapping. -/
def displayEntries : List (String × Value) → List String
  | [] => []
  | (key, v) :: es => (key ++ ": " ++ v.display) :: displayEntries es

end

/-! ## Equality

Two mappings are equal when their entries are, order included.
-/

mutual

/-- Structural equality. -/
def beq : Value → Value → Bool
  | .str s, .str t => s == t
  | .int m, .int n => m == n
  | .seq as, .seq bs => beqItems as bs
  | .map ⟨as⟩, .map ⟨bs⟩ => beqEntries as bs
  | _, _ => false

/-- Equality of two lists of elements. -/
def beqItems : List Value → List Value → Bool
  | [], [] => true
  | a :: as, b :: bs => a.beq b && beqItems as bs
  | _, _ => false

/-- Equality of two lists of entries. -/
def beqEntries : List (String × Value) → List (String × Value) → Bool
  | [], [] => true
  | (k, a) :: as, (l, b) :: bs => k == l && a.beq b && beqEntries as bs
  | _, _ => false

end

mutual

/-- The test for equality accepts only equal values. -/
theorem eq_of_beq : ∀ {a b : Value}, a.beq b = true → a = b
  | .str _, .str _, h => by simpa [beq] using h
  | .int _, .int _, h => by simpa [beq] using h
  | .seq as, .seq bs, h => congrArg Value.seq (eq_of_beqItems (by simpa only [beq] using h))
  | .map ⟨as⟩, .map ⟨bs⟩, h =>
    congrArg (fun es ↦ Value.map ⟨es⟩) (eq_of_beqEntries (by simpa only [beq] using h))

/-- The test for equality of element lists accepts only equal lists. -/
theorem eq_of_beqItems : ∀ {as bs : List Value}, beqItems as bs = true → as = bs
  | [], [], _ => rfl
  | _ :: _, _ :: _, h => by
    simp only [beqItems, Bool.and_eq_true] at h
    rw [eq_of_beq h.1, eq_of_beqItems h.2]

/-- The test for equality of entry lists accepts only equal lists. -/
theorem eq_of_beqEntries :
    ∀ {as bs : List (String × Value)}, beqEntries as bs = true → as = bs
  | [], [], _ => rfl
  | (_, _) :: _, (_, _) :: _, h => by
    simp only [beqEntries, Bool.and_eq_true, beq_iff_eq] at h
    rw [h.1.1, eq_of_beq h.1.2, eq_of_beqEntries h.2]

end

mutual

/-- Every value passes the test for equality with itself. -/
theorem beq_self : ∀ a : Value, a.beq a = true
  | .str _ => by simp [beq]
  | .int _ => by simp [beq]
  | .seq as => by simpa [beq] using beqItems_self as
  | .map ⟨as⟩ => by simpa [beq] using beqEntries_self as

/-- Every list of elements passes the test with itself. -/
theorem beqItems_self : ∀ as : List Value, beqItems as as = true
  | [] => rfl
  | a :: as => by simp [beqItems, beq_self a, beqItems_self as]

/-- Every list of entries passes the test with itself. -/
theorem beqEntries_self : ∀ as : List (String × Value), beqEntries as as = true
  | [] => rfl
  | (_, a) :: as => by simp [beqEntries, beq_self a, beqEntries_self as]

end

instance : DecidableEq Value := fun a b ↦
  decidable_of_iff (a.beq b = true) ⟨eq_of_beq, fun h ↦ h ▸ beq_self a⟩

end Value

end StateGen
