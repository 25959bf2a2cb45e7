import Mathlib.Data.List.Induction
import StateGen.Proofs.Tables
import StateGen.Value

/-!
# Values with distinct keys

A mapping is a list of entries, and every operation on it keeps the keys of the entries distinct. So
the values that can be built at all are those with `DistinctKeys`: no mapping in them, at any depth,
has two entries under one key.
-/

namespace StateGen

namespace OrderedMap

variable {α : Type} {m : OrderedMap α} {key : String} {value : α}

/-- What is found is one of the values. -/
theorem mem_values_of_get? (h : m.get? key = some value) : value ∈ m.values :=
  List.mem_map_of_mem (mem_entries_of_get? h)

/-- Storing a value keeps the keys distinct. -/
theorem nodup_keys_insert (h : m.keys.Nodup) (key : String) (value : α) :
    (m.insert key value).keys.Nodup := by
  by_cases hkey : key ∈ m.keys
  · rwa [keys_insert_of_mem value hkey]
  · rw [keys_insert_of_not_mem value hkey]
    exact List.nodup_append.2 ⟨h, by simp, by simpa using fun k hk ↦ ne_of_mem_of_not_mem hk hkey⟩

/-- The only new value is the one that is stored. -/
theorem eq_or_mem_of_mem_values_insert {v : α} (h : v ∈ (m.insert key value).values) :
    v = value ∨ v ∈ m.values := by
  obtain ⟨es⟩ := m
  simp only [insert, values] at h ⊢
  induction es with
  | nil => simpa [insertEntry] using h
  | cons e es ih =>
    by_cases he : e.1 = key
    · rw [insertEntry, if_pos he, List.map_cons, List.mem_cons] at h
      exact h.imp_right fun h ↦ List.mem_cons_of_mem _ h
    · rw [insertEntry, if_neg he, List.map_cons, List.mem_cons] at h
      rcases h with rfl | h
      · exact .inr List.mem_cons_self
      · exact (ih h).imp_right fun h ↦ List.mem_cons_of_mem _ h

end OrderedMap

namespace Value

/-! ## Distinct keys -/

/-- No mapping in the value has two entries under one key. -/
inductive DistinctKeys : Value → Prop where
  | str (s : String) : DistinctKeys (.str s)
  | int (n : Int) : DistinctKeys (.int n)
  | seq {items : List Value} (items_distinct : ∀ v ∈ items, DistinctKeys v) :
    DistinctKeys (.seq items)
  | map {fields : OrderedMap Value} (keys_nodup : fields.keys.Nodup)
    (values_distinct : ∀ v ∈ fields.values, DistinctKeys v) : DistinctKeys (.map fields)

/-- A value that can be built: a sequence from its elements, a mapping by storing its entries one
after the other. -/
inductive Built : Value → Prop where
  | str (s : String) : Built (.str s)
  | int (n : Int) : Built (.int n)
  | seq {items : List Value} (built : ∀ v ∈ items, Built v) : Built (.seq items)
  | empty : Built (.map .empty)
  | insert {fields : OrderedMap Value} {v : Value} (fields_built : Built (.map fields))
    (key : String) (value_built : Built v) : Built (.map (fields.insert key v))

theorem distinctKeys_map_iff {fields : OrderedMap Value} :
    DistinctKeys (.map fields) ↔
      fields.keys.Nodup ∧ ∀ v ∈ fields.values, v.DistinctKeys := by
  constructor
  · intro h
    cases h with
    | map hkeys hvalues => exact ⟨hkeys, hvalues⟩
  · rintro ⟨hkeys, hvalues⟩
    exact .map hkeys hvalues

theorem distinctKeys_seq_iff {items : List Value} :
    DistinctKeys (.seq items) ↔ ∀ v ∈ items, v.DistinctKeys := by
  constructor
  · intro h
    cases h with
    | seq hitems => exact hitems
  · exact .seq

private theorem Built.distinctKeys {v : Value} (h : v.Built) : v.DistinctKeys := by
  induction h with
  | str s => exact .str s
  | int n => exact .int n
  | seq _ ih => exact .seq ih
  | empty => exact .map List.nodup_nil (by simp [OrderedMap.values, OrderedMap.empty])
  | insert _ key _ ihFields ihValue =>
    obtain ⟨hkeys, hvalues⟩ := distinctKeys_map_iff.1 ihFields
    refine .map (OrderedMap.nodup_keys_insert hkeys key _) fun v hv ↦ ?_
    rcases OrderedMap.eq_or_mem_of_mem_values_insert hv with rfl | hv
    · exact ihValue
    · exact hvalues v hv

private theorem built_map {entries : List (String × Value)}
    (hkeys : (entries.map Prod.fst).Nodup) (hvalues : ∀ e ∈ entries, e.2.Built) :
    Built (.map ⟨entries⟩) := by
  -- The entries are stored from the first to the last.
  induction entries using List.reverseRecOn with
  | nil => exact .empty
  | append_singleton entries e ih =>
    rw [List.map_append, List.nodup_append] at hkeys
    have hnew : e.1 ∉ (⟨entries⟩ : OrderedMap Value).keys := fun hmem ↦
      hkeys.2.2 e.1 hmem e.1 (by simp) rfl
    have hbefore := ih hkeys.1 fun e' he' ↦ hvalues e' (List.mem_append_left _ he')
    have hbuilt := hbefore.insert e.1 (hvalues e (by simp))
    rwa [OrderedMap.insert_of_not_mem _ hnew] at hbuilt

/-- The values that can be built are those with distinct keys. -/
theorem built_iff_distinctKeys {v : Value} : v.Built ↔ v.DistinctKeys := by
  refine ⟨Built.distinctKeys, fun h ↦ ?_⟩
  induction h with
  | str s => exact .str s
  | int n => exact .int n
  | seq _ ih => exact .seq ih
  | map hkeys _ ih => exact built_map hkeys fun e he ↦ ih e.2 (List.mem_map_of_mem he)

/-- A part of a value with distinct keys has distinct keys. -/
theorem DistinctKeys.get? {v found : Value} {key : String} (h : v.DistinctKeys)
    (hfound : v.get? key = some found) : found.DistinctKeys := by
  cases h with
  | map _ hvalues => exact hvalues found (OrderedMap.mem_values_of_get? hfound)
  | str | int | seq => cases hfound

/-! ## Accesses that succeed -/

section

variable {v found : Value} {key : String}

theorem asString_eq_ok_iff {s : String} : v.asString = .ok s ↔ v = .str s := by
  cases v <;> simp [asString]

theorem asInt_eq_ok_iff {n : Int} : v.asInt = .ok n ↔ v = .int n := by
  cases v <;> simp [asInt]

theorem asSeq_eq_ok_iff {items : List Value} : v.asSeq = .ok items ↔ v = .seq items := by
  cases v <;> simp [asSeq]

theorem asMap_eq_ok_iff {fields : OrderedMap Value} :
    v.asMap = .ok fields ↔ v = .map fields := by
  cases v <;> simp [asMap]

/-- An access by key succeeds if and only if the value is a mapping that has the key. -/
theorem get_eq_ok_iff : v.get key = .ok found ↔ v.get? key = some found := by
  cases v with
  | map fields =>
    simp only [get, asMap, get?, bind, Except.bind]
    cases fields.get? key <;> simp [pure, Except.pure, throw, throwThe, MonadExceptOf.throw]
  | str | int | seq => simp [get, asMap, get?, bind, Except.bind]

/-- The way along keys goes on from what is found under the first one. -/
theorem follow_of_get? {keys : List String} (h : v.get? key = some found) :
    v.follow (key :: keys) = found.follow keys := by
  rw [follow, get_eq_ok_iff.2 h]
  rfl

end

end Value

end StateGen
