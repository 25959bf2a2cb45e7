import Mathlib.Data.List.Induction
import Mathlib.Data.List.Nodup
import StateGen.OrderedMap.Indexed
import StateGen.Proofs.Tables

/-!
# The index keeps step with the entries

A mapping with an index is built by storing values and by changing values in place. Whatever is
done, the index names for every key the slot of its entry and names no other key, so no access goes
astray, and the mapping answers like the list of its entries that `OrderedMap` is.
-/

namespace StateGen

universe u

variable {α : Type u}

/-! ## Positions in a list of entries -/

namespace OrderedMap

variable {m : OrderedMap α} {key : String} {i : Nat}

/-- A key stands at a position if and only if an entry with that key does. -/
theorem getElem?_keys_eq_some_iff :
    m.keys[i]? = some key ↔ ∃ value, m.entryAt i = some (key, value) := by
  simp [keys, entryAt]

/-- With distinct keys, the position of a key is the one where it stands. -/
theorem position_eq_some_iff (h : m.keys.Nodup) :
    m.position key = some i ↔ m.keys[i]? = some key := by
  rw [position, List.idxOf?_eq_some_iff]
  constructor
  · rintro ⟨hi, hkey, -⟩
    rw [List.getElem?_eq_getElem hi, hkey]
  · intro hkey
    obtain ⟨hi, rfl⟩ := List.getElem?_eq_some_iff.1 hkey
    refine ⟨hi, rfl, fun j hj heq ↦ ?_⟩
    have hji : j = i := h.getElem_inj_iff.1 heq
    omega

/-- Changing the value of an entry is replacing the entry at its position. -/
theorem modify_of_entryAt (h : m.keys.Nodup) {value : α} (change : α → α)
    (hi : m.entryAt i = some (key, value)) :
    m.modify key change = ⟨m.entries.set i (key, change value)⟩ := by
  obtain ⟨es⟩ := m
  simp only [modify, keys, entryAt] at h hi ⊢
  congr 1
  induction es generalizing i with
  | nil => simp at hi
  | cons e es ih =>
    rw [List.map_cons, List.nodup_cons] at h
    cases i with
    | zero =>
      obtain rfl : e = (key, value) := by simpa using hi
      simp [modifyEntry]
    | succ i =>
      rw [List.getElem?_cons_succ] at hi
      have hmem : key ∈ es.map Prod.fst := List.mem_map_of_mem (List.mem_of_getElem? hi)
      have hne : e.1 ≠ key := by
        rintro rfl
        exact h.1 hmem
      rw [modifyEntry, if_neg hne, ih h.2 hi, List.set_cons_succ]

/-- Without the key there is nothing to change. -/
theorem modify_of_not_mem (change : α → α) (h : key ∉ m.keys) : m.modify key change = m := by
  obtain ⟨es⟩ := m
  simp only [modify, keys] at h ⊢
  congr 1
  induction es with
  | nil => rfl
  | cons e es ih =>
    rw [List.map_cons, List.mem_cons, not_or] at h
    rw [modifyEntry, if_neg (Ne.symm h.1), ih h.2]

/-- Storing under a key that is present changes its value. -/
theorem insert_of_mem (value : α) (h : key ∈ m.keys) :
    m.insert key value = m.modify key fun _ ↦ value := by
  obtain ⟨es⟩ := m
  simp only [insert, modify, keys] at h ⊢
  congr 1
  induction es with
  | nil => simp at h
  | cons e es ih =>
    by_cases he : e.1 = key
    · simp [insertEntry, modifyEntry, he]
    · rw [List.map_cons, List.mem_cons] at h
      rw [insertEntry, modifyEntry, if_neg he, if_neg he, ih (h.resolve_left (Ne.symm he))]

end OrderedMap

/-! ## Calls -/

/-- A call that changes a mapping: storing a value under a key, or changing the value under a key in
place, whatever the change is. -/
inductive MapCall (α : Type u) where
  | insert (key : String) (value : α)
  | modify (key : String) (change : α → α)

namespace MapCall

/-- The key that a call may bring into a mapping. -/
def storedKey? : MapCall α → Option String
  | .insert key _ => some key
  | .modify _ _ => none

/-- What a call makes of the value under a key. -/
def valueUnder (key : String) (before : Option α) : MapCall α → Option α
  | .insert other value => if key = other then some value else before
  | .modify other change => if key = other then before.map change else before

/-- The value that calls leave under a key: what was stored last, with the changes since. -/
def lastValue (calls : List (MapCall α)) (key : String) : Option α :=
  calls.foldl (valueUnder key) none

/-- The call keeps a property of values: it holds of what is stored, and what is changed does not
lose it. -/
def Keeps (P : α → Prop) : MapCall α → Prop
  | .insert _ value => P value
  | .modify _ change => ∀ value, P value → P (change value)

/-- A property that all calls keep holds of what they leave. -/
theorem of_lastValue {P : α → Prop} {calls : List (MapCall α)} (h : ∀ c ∈ calls, c.Keeps P)
    {key : String} {value : α} (hlast : lastValue calls key = some value) : P value := by
  suffices hfrom : ∀ before : Option α, (∀ v, before = some v → P v) →
      ∀ v, calls.foldl (valueUnder key) before = some v → P v from
    hfrom none (by simp) value hlast
  clear hlast
  induction calls with
  | nil => exact fun _ hbefore ↦ hbefore
  | cons c calls ih =>
    intro before hbefore
    rw [List.forall_mem_cons] at h
    refine ih h.2 (valueUnder key before c) ?_
    intro v hv
    cases c with
    | insert other stored =>
      rw [valueUnder] at hv
      split at hv
      · exact Option.some.inj hv ▸ h.1
      · exact hbefore v hv
    | modify other change =>
      rw [valueUnder] at hv
      split at hv
      · obtain ⟨w, hw, rfl⟩ := Option.map_eq_some_iff.1 hv
        exact h.1 w (hbefore w hw)
      · exact hbefore v hv

/-- A call on a list of entries. -/
def onEntries (m : OrderedMap α) : MapCall α → OrderedMap α
  | .insert key value => m.insert key value
  | .modify key change => m.modify key change

/-- A call on a mapping with an index. -/
def onIndexed (m : IndexedMap α) : MapCall α → Except DanglingSlot (IndexedMap α)
  | .insert key value => do return (← m.insert key value).2
  | .modify key change => m.modify key change

end MapCall

namespace OrderedMap

/-- The list of entries after calls on the empty one. -/
def afterCalls (calls : List (MapCall α)) : OrderedMap α := calls.foldl MapCall.onEntries empty

/-- Only a new name at the end of a list is a new first occurrence. -/
private theorem eraseDups_concat (names : List String) (name : String) :
    (names ++ [name]).eraseDups =
      if name ∈ names then names.eraseDups else names.eraseDups ++ [name] := by
  rw [List.eraseDups_append]
  by_cases h : name ∈ names
  · simp [List.removeAll, h]
  · simp [List.removeAll, h, List.eraseDups_cons]

/-- The keys are those that were stored, in the order of their first calls. -/
theorem keys_afterCalls (calls : List (MapCall α)) :
    (afterCalls calls).keys = (calls.filterMap MapCall.storedKey?).eraseDups := by
  induction calls using List.reverseRecOn with
  | nil => rfl
  | append_singleton calls c ih =>
    have hstep : afterCalls (calls ++ [c]) = c.onEntries (afterCalls calls) := by
      simp [afterCalls]
    rw [hstep, List.filterMap_append]
    cases c with
    | modify key change =>
      have hnone : [MapCall.modify key change].filterMap MapCall.storedKey? = [] := rfl
      rw [MapCall.onEntries, keys_modify, ih, hnone, List.append_nil]
    | insert key value =>
      have hsome : [MapCall.insert key value].filterMap MapCall.storedKey? = [key] := rfl
      have hmem : key ∈ (afterCalls calls).keys ↔ key ∈ calls.filterMap MapCall.storedKey? := by
        rw [ih, List.mem_eraseDups]
      rw [MapCall.onEntries, hsome, eraseDups_concat, ← ih]
      by_cases hkey : key ∈ (afterCalls calls).keys
      · rw [keys_insert_of_mem value hkey, if_pos (hmem.1 hkey)]
      · rw [keys_insert_of_not_mem value hkey, if_neg (mt hmem.2 hkey)]

/-- Under a key stands what the calls leave there. -/
theorem get?_afterCalls (calls : List (MapCall α)) (key : String) :
    (afterCalls calls).get? key = MapCall.lastValue calls key := by
  suffices hfrom : ∀ m : OrderedMap α, (calls.foldl MapCall.onEntries m).get? key =
      calls.foldl (MapCall.valueUnder key) (m.get? key) from hfrom empty
  induction calls with
  | nil => intro m; rfl
  | cons c calls ih =>
    intro m
    rw [List.foldl_cons, List.foldl_cons, ih]
    cases c with
    | insert other value => rw [MapCall.onEntries, get?_insert, MapCall.valueUnder]
    | modify other change => rw [MapCall.onEntries, get?_modify, MapCall.valueUnder]

end OrderedMap

/-! ## The index and the slots -/

namespace IndexedMap

variable {m n : IndexedMap α} {key : String} {slot : Nat}

/-- The index names the slot of every key, and no key that is not there. -/
def InStep (m : IndexedMap α) : Prop :=
  ∀ (key : String) (slot : Nat), m.index[key]? = some slot ↔ m.keys[slot]? = some key

@[simp]
theorem keys_ordered (m : IndexedMap α) : m.ordered.keys = m.keys := rfl

@[simp]
theorem entryAt_ordered (m : IndexedMap α) (i : Nat) : m.ordered.entryAt i = m.entryAt i :=
  Array.getElem?_toList

theorem inStep_empty : (empty : IndexedMap α).InStep := by
  intro key slot
  simp [empty, keys, toList]

/-- Two slots with one key would both be the one that the index names. -/
theorem InStep.nodup_keys (h : m.InStep) : m.keys.Nodup := by
  rw [List.nodup_iff_getElem?_ne_getElem?]
  intro i j hij hj heq
  have hkey : m.keys[j]? = some m.keys[j] := List.getElem?_eq_getElem hj
  have hi := (h _ i).2 (heq.trans hkey)
  have hj := (h _ j).2 hkey
  rw [hi, Option.some.injEq] at hj
  omega

/-- The index is the table of positions. -/
theorem InStep.position_eq (h : m.InStep) (key : String) :
    m.position key = m.ordered.position key := by
  ext slot
  rw [OrderedMap.position_eq_some_iff (m := m.ordered) h.nodup_keys]
  exact h key slot

/-- A slot that the index names holds an entry with that key, and its value is the one under the
key. -/
theorem InStep.entryIn_eq (h : m.InStep) (hslot : m.index[key]? = some slot) :
    ∃ value, m.entryIn slot = .ok (key, value) ∧ m.ordered.entryAt slot = some (key, value) ∧
      m.ordered.get? key = some value := by
  obtain ⟨value, hentry⟩ :=
    OrderedMap.getElem?_keys_eq_some_iff (m := m.ordered).1 ((h key slot).1 hslot)
  have hstored : m.entries[slot]? = some (key, value) := by
    rwa [entryAt_ordered] at hentry
  refine ⟨value, ?_, hentry, ?_⟩
  · rw [entryIn, hstored]
  · exact OrderedMap.get?_of_mem_entries h.nodup_keys (List.mem_of_getElem? hentry)

/-- A key without a slot is not there. -/
theorem InStep.not_mem_keys (h : m.InStep) (hslot : m.index[key]? = none) : key ∉ m.keys := by
  intro hmem
  obtain ⟨slot, hat⟩ := List.getElem?_of_mem hmem
  rw [(h key slot).2 hat] at hslot
  cases hslot

/-- Following the index never fails, and finds the value under the key. -/
theorem InStep.get?_eq (h : m.InStep) (key : String) :
    m.get? key = .ok (m.ordered.get? key) := by
  rw [get?]
  cases hslot : m.index[key]? with
  | none => rw [OrderedMap.get?_eq_none_of_not_mem (h.not_mem_keys hslot)]
  | some slot =>
    obtain ⟨value, hentry, -, hfound⟩ := h.entryIn_eq hslot
    dsimp only
    rw [hentry, hfound]
    rfl

theorem InStep.contains_eq (h : m.InStep) (key : String) :
    m.contains key = m.ordered.contains key := by
  rw [Bool.eq_iff_iff, OrderedMap.contains_iff_mem_keys, keys_ordered, contains,
    Std.HashMap.contains_eq_isSome_getElem?]
  cases hslot : m.index[key]? with
  | none => simp [h.not_mem_keys hslot]
  | some slot => simp [List.mem_of_getElem? ((h key slot).1 hslot)]

/-- Only the keys and the index matter. -/
theorem InStep.congr (h : m.InStep) (hkeys : n.keys = m.keys) (hindex : n.index = m.index) :
    n.InStep := by
  intro key slot
  rw [hkeys, hindex]
  exact h key slot

/-- Replacing the value in the slot of a key moves no key. -/
theorem InStep.replaceIn_eq (h : m.InStep) (hslot : m.index[key]? = some slot)
    (change : α → α) :
    ∃ value changed, m.replaceIn slot change = .ok (value, changed) ∧ changed.InStep ∧
      m.ordered.get? key = some value ∧ changed.ordered = m.ordered.modify key change := by
  obtain ⟨value, hentry, hat, hfound⟩ := h.entryIn_eq hslot
  let changed : IndexedMap α :=
    { m with entries := m.entries.setIfInBounds slot (key, change value) }
  have hordered : changed.ordered = m.ordered.modify key change := by
    rw [OrderedMap.modify_of_entryAt (m := m.ordered) h.nodup_keys change hat]
    simp [changed, ordered, toList]
  have hkeys : changed.keys = m.keys := by
    rw [← keys_ordered, hordered, OrderedMap.keys_modify, keys_ordered]
  refine ⟨value, changed, ?_, h.congr hkeys rfl, hfound, hordered⟩
  rw [replaceIn, hentry]
  rfl

/-- Appending an entry with a new key, and the next slot for it in the index, keeps step. -/
theorem InStep.push (h : m.InStep) (hslot : m.index[key]? = none) (value : α) :
    InStep ⟨m.entries.push (key, value), m.index.insert key m.entries.size⟩ := by
  have hnew := h.not_mem_keys hslot
  have hsize : m.keys.length = m.entries.size := by simp [keys, toList]
  intro other i
  have hkeys : (⟨m.entries.push (key, value), m.index.insert key m.entries.size⟩ :
      IndexedMap α).keys = m.keys ++ [key] := by simp [keys, toList]
  rw [hkeys, Std.HashMap.getElem?_insert, List.getElem?_append, hsize]
  by_cases hother : key = other
  · subst hother
    have hfresh : m.keys[i]? ≠ some key := fun hat ↦ hnew (List.mem_of_getElem? hat)
    by_cases hi : i < m.entries.size
    · have hne : m.entries.size ≠ i := by omega
      simp [hi, hfresh, hne]
    · by_cases hend : m.entries.size = i
      · simp [hend]
      · have hbehind : i - m.entries.size ≠ 0 := by omega
        simp [hi, hend, hbehind]
  · have hne : (key == other) = false := by simpa using hother
    rw [hne, if_neg Bool.false_ne_true, h other i]
    by_cases hi : i < m.entries.size
    · rw [if_pos hi]
    · have hbeyond : m.keys[i]? = none := List.getElem?_eq_none (by omega)
      simp [hi, hbeyond, List.getElem?_singleton, hother]

/-- Storing never fails, gives back what stood under the key and keeps step. -/
theorem InStep.insert_eq (h : m.InStep) (key : String) (value : α) :
    ∃ changed, m.insert key value = .ok (m.ordered.get? key, changed) ∧ changed.InStep ∧
      changed.ordered = m.ordered.insert key value := by
  rw [insert]
  cases hslot : m.index[key]? with
  | none =>
    have hnew : key ∉ m.ordered.keys := h.not_mem_keys hslot
    refine ⟨_, by rw [OrderedMap.get?_eq_none_of_not_mem hnew], h.push hslot value, ?_⟩
    rw [OrderedMap.insert_of_not_mem value hnew]
    simp [ordered, toList]
  | some slot =>
    have hmem : key ∈ m.ordered.keys := List.mem_of_getElem? ((h key slot).1 hslot)
    obtain ⟨previous, changed, hreplace, hstep, hfound, hordered⟩ :=
      h.replaceIn_eq hslot fun _ ↦ value
    refine ⟨changed, ?_, hstep, ?_⟩
    · dsimp only
      rw [hreplace, hfound]
      rfl
    · rw [hordered, OrderedMap.insert_of_mem value hmem]

/-- Changing in place never fails and keeps step. -/
theorem InStep.modify_eq (h : m.InStep) (key : String) (change : α → α) :
    ∃ changed, m.modify key change = .ok changed ∧ changed.InStep ∧
      changed.ordered = m.ordered.modify key change := by
  rw [modify]
  cases hslot : m.index[key]? with
  | none =>
    have hnew : key ∉ m.ordered.keys := h.not_mem_keys hslot
    exact ⟨m, rfl, h, (OrderedMap.modify_of_not_mem change hnew).symm⟩
  | some slot =>
    obtain ⟨previous, changed, hreplace, hstep, -, hordered⟩ := h.replaceIn_eq hslot change
    refine ⟨changed, ?_, hstep, hordered⟩
    dsimp only
    rw [hreplace]
    rfl

/-- A call never fails and keeps step. -/
theorem InStep.call (h : m.InStep) (c : MapCall α) :
    ∃ changed, c.onIndexed m = .ok changed ∧ changed.InStep ∧
      changed.ordered = c.onEntries m.ordered := by
  cases c with
  | insert key value =>
    obtain ⟨changed, hinsert, hstep, hordered⟩ := h.insert_eq key value
    exact ⟨changed, by rw [MapCall.onIndexed, hinsert]; rfl, hstep, hordered⟩
  | modify key change => exact h.modify_eq key change

/-- The mapping after calls on the empty one. -/
def afterCalls (calls : List (MapCall α)) : Except DanglingSlot (IndexedMap α) :=
  calls.foldlM MapCall.onIndexed empty

/-- No sequence of calls fails, and the mapping is in step in the end. -/
theorem exists_afterCalls (calls : List (MapCall α)) :
    ∃ m, afterCalls calls = .ok m ∧ m.InStep ∧ m.ordered = OrderedMap.afterCalls calls := by
  suffices hfrom : ∀ m : IndexedMap α, m.InStep → ∃ changed,
      calls.foldlM MapCall.onIndexed m = .ok changed ∧ changed.InStep ∧
        changed.ordered = calls.foldl MapCall.onEntries m.ordered from hfrom empty inStep_empty
  induction calls with
  | nil => exact fun m h ↦ ⟨m, rfl, h, rfl⟩
  | cons c calls ih =>
    intro m h
    obtain ⟨next, hcall, hnext, hordered⟩ := h.call c
    obtain ⟨changed, hcalls, hchanged, hlast⟩ := ih next hnext
    refine ⟨changed, ?_, hchanged, ?_⟩
    · rw [List.foldlM_cons, hcall]
      exact hcalls
    · rw [hlast, hordered, List.foldl_cons]

/-- With the entries, all that the index says is given. -/
theorem InStep.index_eq (h : m.InStep) (h' : n.InStep) (heq : m.toList = n.toList)
    (key : String) : m.index[key]? = n.index[key]? := by
  have hkeys : m.keys = n.keys := congrArg (List.map Prod.fst) heq
  ext slot
  rw [h key slot, h' key slot, hkeys]

/-! ## Refinement -/

/-- The mapping does with its index what the list of entries does by searching. -/
structure Refines (m : IndexedMap α) (o : OrderedMap α) : Prop where
  entries_eq : m.toList = o.entries
  size_eq : m.size = o.size
  isEmpty_eq : m.isEmpty = o.isEmpty
  keys_eq : m.keys = o.keys
  values_eq : m.values = o.values
  entryAt_eq (i : Nat) : m.entryAt i = o.entryAt i
  position_eq (key : String) : m.position key = o.position key
  contains_eq (key : String) : m.contains key = o.contains key
  get?_eq (key : String) : m.get? key = .ok (o.get? key)
  insert_eq (key : String) (value : α) :
    ∃ changed, m.insert key value = .ok ((o.exchange key value).1, changed) ∧
      changed.ordered = (o.exchange key value).2
  modify_eq (key : String) (change : α → α) :
    ∃ changed, m.modify key change = .ok changed ∧ changed.ordered = o.modify key change

/-- All questions about the mapping have the answers that its entries give. -/
structure Coherent (m : IndexedMap α) : Prop where
  size_eq : m.size = m.toList.length
  isEmpty_iff : m.isEmpty = true ↔ m.toList = []
  keys_eq : m.keys = m.toList.map Prod.fst
  values_eq : m.values = m.toList.map Prod.snd
  entryAt_eq (i : Nat) : m.entryAt i = m.toList[i]?
  position_eq_some_iff (key : String) (i : Nat) :
    m.position key = some i ↔ ∃ value, m.entryAt i = some (key, value)
  contains_iff (key : String) : m.contains key = true ↔ key ∈ m.keys
  get?_eq_some_iff (key : String) (value : α) :
    m.get? key = .ok (some value) ↔ (key, value) ∈ m.toList

/-- A value is stored under a key: in the place of the value that is there, or else behind all
entries. -/
structure Stores (m : IndexedMap α) (key : String) (value : α) (previous : Option α)
    (changed : IndexedMap α) : Prop where
  previous_eq : m.get? key = .ok previous
  stored_eq : changed.get? key = .ok (some value)
  isSome_previous_iff : previous.isSome = true ↔ key ∈ m.keys
  of_mem : key ∈ m.keys → changed.size = m.size ∧
    ∀ other, changed.position other = m.position other
  of_not_mem : key ∉ m.keys → changed.toList = m.toList ++ [(key, value)] ∧
    changed.position key = some m.size

theorem InStep.refines (h : m.InStep) : m.Refines m.ordered where
  entries_eq := rfl
  size_eq := by simp [size, OrderedMap.size, ordered, toList]
  isEmpty_eq := by simp [isEmpty, OrderedMap.isEmpty, ordered, toList]
  keys_eq := rfl
  values_eq := rfl
  entryAt_eq i := (entryAt_ordered m i).symm
  position_eq := h.position_eq
  contains_eq := h.contains_eq
  get?_eq := h.get?_eq
  insert_eq key value := by
    obtain ⟨changed, hinsert, -, hordered⟩ := h.insert_eq key value
    exact ⟨changed, hinsert, hordered⟩
  modify_eq key change := by
    obtain ⟨changed, hmodify, -, hordered⟩ := h.modify_eq key change
    exact ⟨changed, hmodify, hordered⟩

theorem InStep.coherent (h : m.InStep) : m.Coherent where
  size_eq := by simp [size, toList]
  isEmpty_iff := by simp [isEmpty, toList]
  keys_eq := rfl
  values_eq := rfl
  entryAt_eq i := (entryAt_ordered m i).symm
  position_eq_some_iff key i := by
    rw [← entryAt_ordered, ← OrderedMap.getElem?_keys_eq_some_iff]
    exact h key i
  contains_iff key := by
    rw [h.contains_eq, OrderedMap.contains_iff_mem_keys, keys_ordered]
  get?_eq_some_iff key value := by
    rw [h.get?_eq, Except.ok.injEq]
    exact ⟨OrderedMap.mem_entries_of_get?,
      OrderedMap.get?_of_mem_entries (m := m.ordered) h.nodup_keys⟩

theorem InStep.stores (h : m.InStep) (key : String) (value : α) :
    ∃ previous changed, m.insert key value = .ok (previous, changed) ∧
      m.Stores key value previous changed := by
  obtain ⟨changed, hinsert, hstep, hordered⟩ := h.insert_eq key value
  refine ⟨_, changed, hinsert, h.get?_eq key, ?_, ?_, fun hmem ↦ ?_, fun hnew ↦ ?_⟩
  · rw [hstep.get?_eq, hordered, OrderedMap.get?_insert, if_pos rfl]
  · exact OrderedMap.isSome_get?_iff_mem_keys m.ordered key
  · have hkeys : changed.keys = m.keys := by
      rw [← keys_ordered, hordered, OrderedMap.keys_insert_of_mem value hmem, keys_ordered]
    constructor
    · rw [hstep.coherent.size_eq, h.coherent.size_eq]
      simpa [keys] using congrArg List.length hkeys
    · intro other
      rw [hstep.position_eq, h.position_eq, OrderedMap.position, OrderedMap.position, keys_ordered,
        keys_ordered, hkeys]
  · have hentries : changed.toList = m.toList ++ [(key, value)] :=
      congrArg OrderedMap.entries (hordered.trans (OrderedMap.insert_of_not_mem value hnew))
    refine ⟨hentries, (hstep.coherent.position_eq_some_iff key m.size).2 ⟨value, ?_⟩⟩
    rw [hstep.coherent.entryAt_eq, hentries, h.coherent.size_eq, List.getElem?_concat_length]

/-- Whatever is stored in the empty mapping and changed there in place, the mapping that results
refines the list of entries that results. Its index names exactly the keys that are present, each
with the slot of its entry, so that no call fails. The keys are distinct and stand in the order in
which they were stored first, each with the value that the calls leave under it. The next value to
be stored replaces the one under its key and moves no key, or else comes last. What holds of all
values that are stored, and is lost by no change, holds of all values that are there: being in step
is such a property of the mappings among them. Mappings are equal if their entries are, and then
their indexes say the same. -/
theorem calls_refine_entries [DecidableEq α] (calls : List (MapCall α)) :
    ∃ m, afterCalls calls = .ok m ∧ m.Refines (OrderedMap.afterCalls calls) ∧
      (∀ (key : String) (slot : Nat), m.index[key]? = some slot ↔
        ∃ value, m.entries[slot]? = some (key, value)) ∧
      m.keys.Nodup ∧ m.keys = (calls.filterMap MapCall.storedKey?).eraseDups ∧
      (∀ key, m.get? key = .ok (MapCall.lastValue calls key)) ∧
      (∀ key value, ∃ previous changed, m.insert key value = .ok (previous, changed) ∧
        m.Stores key value previous changed) ∧
      m.Coherent ∧
      (∀ P : α → Prop, (∀ c ∈ calls, c.Keeps P) → ∀ value ∈ m.values, P value) ∧
      ∀ others n, afterCalls others = .ok n →
        ((m == n) = true ↔ m.toList = n.toList) ∧
          ((m == n) = true → ∀ key : String, m.index[key]? = n.index[key]?) := by
  obtain ⟨m, hcalls, h, hordered⟩ := exists_afterCalls calls
  refine ⟨m, hcalls, hordered ▸ h.refines, h.coherent.position_eq_some_iff, h.nodup_keys, ?_, ?_,
    h.stores, h.coherent, ?_, ?_⟩
  · rw [← keys_ordered, hordered, OrderedMap.keys_afterCalls]
  · intro key
    rw [h.get?_eq, hordered, OrderedMap.get?_afterCalls]
  · intro P hkeeps value hvalue
    obtain ⟨⟨key, value⟩, hentry, rfl⟩ := List.mem_map.1 hvalue
    have hfound := OrderedMap.get?_of_mem_entries (m := m.ordered) h.nodup_keys hentry
    rw [hordered, OrderedMap.get?_afterCalls] at hfound
    exact MapCall.of_lastValue hkeeps hfound
  · intro others n hothers
    obtain ⟨n', hn, h', -⟩ := exists_afterCalls others
    obtain rfl : n' = n := by rwa [hn, Except.ok.injEq] at hothers
    have heq : (m == n') = true ↔ m.toList = n'.toList := by
      show (m.entries == n'.entries) = true ↔ _
      rw [beq_iff_eq, toList, toList, Array.toList_inj]
    exact ⟨heq, fun hbeq key ↦ h.index_eq h' (heq.1 hbeq) key⟩

end IndexedMap

end StateGen
