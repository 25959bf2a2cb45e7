import Std.Data.HashMap
import StateGen.OrderedMap

/-!
# Ordered mappings with an index

An ordered mapping as it is kept in memory: the entries in a vector, and beside them a hash index
from every key to the slot of its entry, so that no lookup has to search. The two parts can fall out
of step, and following an index to a slot that does not exist is a fault. Nothing here checks for
that; that it never happens is a theorem about the mappings that can be built.
-/

namespace StateGen

universe u

/-- The fault of following an index to a slot that does not exist. -/
structure DanglingSlot where
  /-- The slot that the index names. -/
  slot : Nat
  /-- The number of slots. -/
  size : Nat
deriving DecidableEq, Repr

/-- Entries in the order in which their keys were first inserted, with an index of their keys. -/
structure IndexedMap (α : Type u) where
  /-- The keys with their current values. -/
  entries : Array (String × α)
  /-- The slot of every key. -/
  index : Std.HashMap String Nat

namespace IndexedMap

variable {α : Type u}

/-- The mapping without entries. -/
def empty : IndexedMap α := ⟨#[], ∅⟩

/-- The entry in a slot that the index names. -/
def entryIn (m : IndexedMap α) (slot : Nat) : Except DanglingSlot (String × α) :=
  match m.entries[slot]? with
  | some e => .ok e
  | none => .error ⟨slot, m.entries.size⟩

/-- Put another value into a slot that the index names, under the key that stands there, and give
back the value that was there before. -/
def replaceIn (m : IndexedMap α) (slot : Nat) (change : α → α) :
    Except DanglingSlot (α × IndexedMap α) := do
  let e ← m.entryIn slot
  return (e.2, { m with entries := m.entries.setIfInBounds slot (e.1, change e.2) })

/-- Store a value under a key, and give back the value that it replaces, if there is one. Only a
new key is written into the index. -/
def insert (m : IndexedMap α) (key : String) (value : α) :
    Except DanglingSlot (Option α × IndexedMap α) :=
  match m.index[key]? with
  | some slot => do
    let (previous, changed) ← m.replaceIn slot fun _ ↦ value
    return (some previous, changed)
  | none =>
    .ok (none, ⟨m.entries.push (key, value), m.index.insert key m.entries.size⟩)

/-- Change the value stored under a key in place; without the key nothing changes. -/
def modify (m : IndexedMap α) (key : String) (change : α → α) :
    Except DanglingSlot (IndexedMap α) :=
  match m.index[key]? with
  | some slot => do return (← m.replaceIn slot change).2
  | none => .ok m

/-- The value stored under a key. -/
def get? (m : IndexedMap α) (key : String) : Except DanglingSlot (Option α) :=
  match m.index[key]? with
  | some slot => do return some (← m.entryIn slot).2
  | none => .ok none

/-- Whether a key is present. -/
def contains (m : IndexedMap α) (key : String) : Bool := m.index.contains key

/-- Zero-based insertion position of a key. -/
def position (m : IndexedMap α) (key : String) : Option Nat := m.index[key]?

/-- The entry at an insertion position. -/
def entryAt (m : IndexedMap α) (i : Nat) : Option (String × α) := m.entries[i]?

/-- Number of entries. -/
def size (m : IndexedMap α) : Nat := m.entries.size

/-- Whether there is no entry. -/
def isEmpty (m : IndexedMap α) : Bool := m.entries.isEmpty

/-- The entries in insertion order. -/
def toList (m : IndexedMap α) : List (String × α) := m.entries.toList

/-- The keys in insertion order. -/
def keys (m : IndexedMap α) : List String := m.toList.map Prod.fst

/-- The values in insertion order of their keys. -/
def values (m : IndexedMap α) : List α := m.toList.map Prod.snd

/-- Two mappings are equal when their entries are, order included; the index does not count. -/
instance [BEq α] : BEq (IndexedMap α) := ⟨fun m n ↦ m.entries == n.entries⟩

/-- The mapping without its index. -/
def ordered (m : IndexedMap α) : OrderedMap α := ⟨m.toList⟩

end IndexedMap

end StateGen
