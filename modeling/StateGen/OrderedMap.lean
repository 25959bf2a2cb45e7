/-!
# Mappings that remember insertion order

A string-keyed mapping as the list of its entries. Inserting a new key appends an entry;
inserting a key that is present replaces the value in place, so the position of a key is fixed by
its first insertion. The laws at the end tell what each operation does to the keys and to the value
under a key.
-/

namespace StateGen

universe u v

/-- Entries in the order in which their keys were first inserted. -/
structure OrderedMap (α : Type u) where
  /-- The keys with their current values. -/
  entries : List (String × α)

namespace OrderedMap

variable {α : Type u} {β : Type v}

/-- The mapping without entries. -/
def empty : OrderedMap α := ⟨[]⟩

instance : EmptyCollection (OrderedMap α) := ⟨empty⟩

instance : Inhabited (OrderedMap α) := ⟨empty⟩

/-- Number of entries. -/
def size (m : OrderedMap α) : Nat := m.entries.length

/-- Whether there is no entry. -/
def isEmpty (m : OrderedMap α) : Bool := m.entries.isEmpty

/-- The keys in insertion order. -/
def keys (m : OrderedMap α) : List String := m.entries.map (·.1)

/-- The values in insertion order of their keys. -/
def values (m : OrderedMap α) : List α := m.entries.map (·.2)

/-- The value stored under a key. -/
def get? (m : OrderedMap α) (key : String) : Option α := m.entries.lookup key

/-- Whether a key is present. -/
def contains (m : OrderedMap α) (key : String) : Bool := m.entries.any (·.1 == key)

/-- Zero-based insertion position of a key. -/
def position (m : OrderedMap α) (key : String) : Option Nat := m.keys.idxOf? key

/-- The entry at an insertion position. -/
def entryAt (m : OrderedMap α) (i : Nat) : Option (String × α) := m.entries[i]?

/-- Replace the value of a present key, or append an entry. -/
def insertEntry (key : String) (value : α) : List (String × α) → List (String × α)
  | [] => [(key, value)]
  | e :: es => if e.1 = key then (key, value) :: es else e :: insertEntry key value es

/-- Store a value under a key; a key that is present keeps its position. -/
def insert (m : OrderedMap α) (key : String) (value : α) : OrderedMap α :=
  ⟨insertEntry key value m.entries⟩

/-- Store a value under a key and give back the value that it replaces, if there is one. -/
def exchange (m : OrderedMap α) (key : String) (value : α) : Option α × OrderedMap α :=
  (m.get? key, m.insert key value)

/-- Update the value of the first entry with a key, if there is one. -/
def modifyEntry (key : String) (f : α → α) : List (String × α) → List (String × α)
  | [] => []
  | e :: es => if e.1 = key then (e.1, f e.2) :: es else e :: modifyEntry key f es

/-- Change the value stored under a key in place; without the key nothing changes. -/
def modify (m : OrderedMap α) (key : String) (f : α → α) : OrderedMap α :=
  ⟨modifyEntry key f m.entries⟩

/-- Apply a function to every value. -/
def mapValues (f : α → β) (m : OrderedMap α) : OrderedMap β :=
  ⟨m.entries.map fun e ↦ (e.1, f e.2)⟩

/-- Insert the pairs one after the other; of two values for one key the later one stays. -/
def ofList (pairs : List (String × α)) : OrderedMap α :=
  pairs.foldl (fun m e ↦ m.insert e.1 e.2) empty

/-! ## Laws

What storing, changing and mapping do to the keys and to the values found under them.
-/

/-- The first entry with a key decides. -/
theorem lookup_entry_cons (key : String) (e : String × α) (es : List (String × α)) :
    (e :: es).lookup key = if key = e.1 then some e.2 else es.lookup key := by
  obtain ⟨k, v⟩ := e
  rw [List.lookup_cons]
  by_cases h : key = k
  · simp [h]
  · have hne : (key == k) = false := by simpa using h
    rw [hne]
    exact (if_neg h).symm

/-- Storing under a key that is present keeps the keys. -/
theorem keys_insert_of_mem {m : OrderedMap α} {key : String} (value : α) (h : key ∈ m.keys) :
    (m.insert key value).keys = m.keys := by
  obtain ⟨es⟩ := m
  simp only [insert, keys] at h ⊢
  induction es with
  | nil => simp at h
  | cons e es ih =>
    by_cases he : e.1 = key
    · simp [insertEntry, he]
    · rw [List.map_cons, List.mem_cons] at h
      have hmem := h.resolve_left (Ne.symm he)
      rw [insertEntry, if_neg he, List.map_cons, ih hmem, List.map_cons]

/-- A new key comes last. -/
theorem keys_insert_of_not_mem {m : OrderedMap α} {key : String} (value : α)
    (h : key ∉ m.keys) : (m.insert key value).keys = m.keys ++ [key] := by
  obtain ⟨es⟩ := m
  simp only [insert, keys] at h ⊢
  induction es with
  | nil => rfl
  | cons e es ih =>
    rw [List.map_cons, List.mem_cons, not_or] at h
    rw [insertEntry, if_neg (Ne.symm h.1), List.map_cons, ih h.2, List.map_cons, List.cons_append]

/-- A key gives the value that was stored last. -/
@[simp]
theorem get?_insert (m : OrderedMap α) (key other : String) (value : α) :
    (m.insert key value).get? other = if other = key then some value else m.get? other := by
  obtain ⟨es⟩ := m
  simp only [insert, get?]
  induction es with
  | nil => simp only [insertEntry, lookup_entry_cons, List.lookup_nil]
  | cons e es ih =>
    by_cases h : e.1 = key
    · subst h
      by_cases ho : other = e.1 <;> simp [insertEntry, lookup_entry_cons, ho]
    · rw [insertEntry, if_neg h, lookup_entry_cons, lookup_entry_cons, ih]
      by_cases ho : other = e.1
      · simp [ho, h]
      · simp [ho]

/-- Changing a value keeps the keys. -/
@[simp]
theorem keys_modify (m : OrderedMap α) (key : String) (f : α → α) :
    (m.modify key f).keys = m.keys := by
  obtain ⟨es⟩ := m
  simp only [modify, keys]
  induction es with
  | nil => rfl
  | cons e es ih =>
    by_cases h : e.1 = key
    · simp [modifyEntry, h]
    · rw [modifyEntry, if_neg h, List.map_cons, ih, List.map_cons]

/-- Only the value under the key changes, and only if the key is present. -/
@[simp]
theorem get?_modify (m : OrderedMap α) (key other : String) (f : α → α) :
    (m.modify key f).get? other =
      if other = key then (m.get? other).map f else m.get? other := by
  obtain ⟨es⟩ := m
  simp only [modify, get?]
  induction es with
  | nil => simp [modifyEntry]
  | cons e es ih =>
    by_cases h : e.1 = key
    · subst h
      by_cases ho : other = e.1 <;> simp [modifyEntry, lookup_entry_cons, ho]
    · rw [modifyEntry, if_neg h, lookup_entry_cons, lookup_entry_cons, ih]
      by_cases ho : other = e.1
      · simp [ho, h]
      · simp [ho]

/-- Mapping values keeps the keys. -/
@[simp]
theorem keys_mapValues (f : α → β) (m : OrderedMap α) : (m.mapValues f).keys = m.keys := by
  simp [mapValues, keys]

/-- Mapping values maps what a key gives. -/
@[simp]
theorem get?_mapValues (f : α → β) (m : OrderedMap α) (key : String) :
    (m.mapValues f).get? key = (m.get? key).map f := by
  obtain ⟨es⟩ := m
  simp only [mapValues, get?]
  induction es with
  | nil => rfl
  | cons e es ih =>
    rw [List.map_cons, lookup_entry_cons, lookup_entry_cons, ih]
    by_cases h : key = e.1 <;> simp [h]

/-- A key is present if and only if it is among the keys. -/
theorem contains_iff_mem_keys (m : OrderedMap α) (key : String) :
    m.contains key = true ↔ key ∈ m.keys := by
  simp [contains, keys]

/-- A key gives a value if and only if it is among the keys. -/
theorem isSome_get?_iff_mem_keys (m : OrderedMap α) (key : String) :
    (m.get? key).isSome = true ↔ key ∈ m.keys := by
  obtain ⟨es⟩ := m
  simp only [get?, keys]
  induction es with
  | nil => simp
  | cons e es ih =>
    rw [lookup_entry_cons, List.map_cons, List.mem_cons, ← ih]
    by_cases h : key = e.1 <;> simp [h]

end OrderedMap

end StateGen
