import StateGen.OrderedMap

/-!
# Tabulated mappings

A mapping that is given by a list: one entry for every element, in the order of the list. Storing
and changing entries of such a mapping gives such a mapping again, and the laws tell which one.
-/

namespace StateGen.OrderedMap

universe u v

variable {α : Type u} {ι : Type v}

/-- The mapping with one entry for every element of a list. -/
def tabulate (key : ι → String) (value : ι → α) (xs : List ι) : OrderedMap α :=
  ⟨xs.map fun x ↦ (key x, value x)⟩

/-- The mapping that gives every name of a list its value. -/
def table (value : String → α) (names : List String) : OrderedMap α := tabulate id value names

@[simp]
theorem keys_tabulate (key : ι → String) (value : ι → α) (xs : List ι) :
    (tabulate key value xs).keys = xs.map key := by
  simp [tabulate, keys, Function.comp_def]

@[simp]
theorem keys_table (value : String → α) (names : List String) :
    (table value names).keys = names := by
  simp [table]

/-- A value that is found stands under one of the keys. -/
theorem get?_eq_none_of_not_mem {m : OrderedMap α} {k : String} (h : k ∉ m.keys) :
    m.get? k = none := by
  rw [← isSome_get?_iff_mem_keys] at h
  simpa using h

/-- With distinct keys, every element is found under its key. -/
theorem get?_tabulate {key : ι → String} (value : ι → α) {xs : List ι}
    (hnodup : (xs.map key).Nodup) {x : ι} (hx : x ∈ xs) :
    (tabulate key value xs).get? (key x) = some (value x) := by
  simp only [tabulate, get?]
  induction xs with
  | nil => simp at hx
  | cons y ys ih =>
    rw [List.map_cons, List.nodup_cons] at hnodup
    rw [List.map_cons, lookup_entry_cons]
    by_cases hkey : key x = key y
    · -- The keys are distinct, so `x` cannot be among the other elements.
      have hxy : x = y := by
        refine (List.mem_cons.1 hx).resolve_right fun hmem ↦ hnodup.1 ?_
        rw [← hkey]
        exact List.mem_map_of_mem hmem
      rw [if_pos hkey, hxy]
    · rw [if_neg hkey]
      refine ih hnodup.2 ((List.mem_cons.1 hx).resolve_left ?_)
      intro hxy
      exact hkey (by rw [hxy])

/-- What is found under a key is an entry with that key. -/
theorem mem_entries_of_get? {m : OrderedMap α} {k : String} {v : α} (h : m.get? k = some v) :
    (k, v) ∈ m.entries := by
  obtain ⟨before, after, hsplit, -⟩ := List.lookup_eq_some_iff.1 h
  rw [hsplit]
  simp

/-- Among distinct keys every entry is found. -/
theorem get?_of_mem_entries {m : OrderedMap α} {k : String} {v : α} (hnodup : m.keys.Nodup)
    (h : (k, v) ∈ m.entries) : m.get? k = some v := by
  have hfound := get?_tabulate Prod.snd hnodup h
  simpa [tabulate] using hfound

/-- A value that is found belongs to an element with that key. -/
theorem exists_of_get?_tabulate {key : ι → String} {value : ι → α} {xs : List ι} {k : String}
    {v : α} (h : (tabulate key value xs).get? k = some v) : ∃ x ∈ xs, key x = k ∧ value x = v := by
  simp only [tabulate, get?] at h
  induction xs with
  | nil => simp at h
  | cons x xs ih =>
    rw [List.map_cons, lookup_entry_cons] at h
    by_cases hk : k = key x
    · rw [if_pos hk] at h
      exact ⟨x, List.mem_cons_self, hk.symm, Option.some.inj h⟩
    · rw [if_neg hk] at h
      obtain ⟨y, hy, hfound⟩ := ih h
      exact ⟨y, List.mem_cons_of_mem x hy, hfound⟩

/-- Every name of a table is found, distinct or not. -/
theorem get?_table (value : String → α) {names : List String} {name : String}
    (h : name ∈ names) : (table value names).get? name = some (value name) := by
  simp only [table, tabulate, get?]
  induction names with
  | nil => simp at h
  | cons n ns ih =>
    rw [List.map_cons, lookup_entry_cons]
    by_cases hn : name = n
    · simp [hn]
    · rw [if_neg (by simpa using hn)]
      exact ih ((List.mem_cons.1 h).resolve_left hn)

/-- A new key is appended with its value. -/
theorem insert_of_not_mem {m : OrderedMap α} {k : String} (v : α) (h : k ∉ m.keys) :
    m.insert k v = ⟨m.entries ++ [(k, v)]⟩ := by
  obtain ⟨es⟩ := m
  simp only [insert, keys] at h ⊢
  congr 1
  induction es with
  | nil => rfl
  | cons e es ih =>
    rw [List.map_cons, List.mem_cons, not_or] at h
    rw [insertEntry, if_neg (Ne.symm h.1), ih h.2, List.cons_append]

/-- Storing under a new name extends a table. -/
theorem insert_table (value : String → α) {names : List String} {name : String} {v : α}
    (h : name ∉ names) (hv : value name = v) :
    (table value names).insert name v = table value (names ++ [name]) := by
  rw [insert_of_not_mem v (by simpa using h)]
  simp [table, tabulate, hv]

private theorem map_eq_of_key_not_mem {key : ι → String} {value changed : ι → α} {xs : List ι}
    {k : String} (h : k ∉ xs.map key) (hsame : ∀ x, key x ≠ k → changed x = value x) :
    xs.map (fun x ↦ (key x, changed x)) = xs.map fun x ↦ (key x, value x) := by
  refine List.map_congr_left fun x hx ↦ ?_
  rw [hsame x]
  intro hkey
  exact h (hkey ▸ List.mem_map_of_mem hx)

/-- Storing under a key that is present replaces the value of its element. -/
theorem insert_tabulate {key : ι → String} {value : ι → α} {xs : List ι} {k : String} (v : α)
    (hnodup : (xs.map key).Nodup) (hk : k ∈ xs.map key) :
    (tabulate key value xs).insert k v =
      tabulate key (fun x ↦ if key x = k then v else value x) xs := by
  simp only [tabulate, insert]
  congr 1
  induction xs with
  | nil => simp at hk
  | cons x xs ih =>
    rw [List.map_cons, List.nodup_cons] at hnodup
    rw [List.map_cons, List.map_cons, insertEntry]
    by_cases hx : key x = k
    · subst hx
      rw [if_pos rfl, if_pos rfl]
      congr 1
      exact (map_eq_of_key_not_mem hnodup.1 fun y hy ↦ if_neg hy).symm
    · have hmem : k ∈ xs.map key := by
        rw [List.map_cons, List.mem_cons] at hk
        exact hk.resolve_left (Ne.symm hx)
      rw [if_neg hx, if_neg hx, ih hnodup.2 hmem]

/-- Changing the value under a key changes the value of its element, if there is one. -/
theorem modify_tabulate {key : ι → String} {value : ι → α} {xs : List ι} (k : String)
    (f : α → α) (hnodup : (xs.map key).Nodup) :
    (tabulate key value xs).modify k f =
      tabulate key (fun x ↦ if key x = k then f (value x) else value x) xs := by
  simp only [tabulate, modify]
  congr 1
  induction xs with
  | nil => rfl
  | cons x xs ih =>
    rw [List.map_cons, List.nodup_cons] at hnodup
    rw [List.map_cons, List.map_cons, modifyEntry]
    by_cases hx : key x = k
    · subst hx
      rw [if_pos rfl, if_pos rfl]
      congr 1
      exact (map_eq_of_key_not_mem hnodup.1 fun y hy ↦ if_neg hy).symm
    · rw [if_neg hx, if_neg hx, ih hnodup.2]

/-- Changing the value of a name changes nothing else. -/
theorem modify_table (value : String → α) (name : String) (f : α → α) {names : List String}
    (hnodup : names.Nodup) :
    (table value names).modify name f =
      table (fun n ↦ if n = name then f (value n) else value n) names :=
  modify_tabulate name f (by simpa using hnodup)

/-- Two tables over the same names are equal if they agree on those names. -/
theorem tabulate_congr {key : ι → String} {value other : ι → α} {xs : List ι}
    (h : ∀ x ∈ xs, value x = other x) : tabulate key value xs = tabulate key other xs := by
  simp only [tabulate]
  congr 1
  refine List.map_congr_left fun x hx ↦ ?_
  rw [h x hx]

/-- Mapping the values of a tabulated mapping. -/
theorem mapValues_tabulate {β : Type u} (f : α → β) (key : ι → String) (value : ι → α)
    (xs : List ι) :
    (tabulate key value xs).mapValues f = tabulate key (fun x ↦ f (value x)) xs := by
  simp [tabulate, mapValues, Function.comp_def]

/-! ## Numbered names -/

/-- Every name of a list with its position. -/
def numbered (names : List String) : OrderedMap Nat := ⟨names.zipIdx⟩

@[simp]
theorem keys_numbered (names : List String) : (numbered names).keys = names :=
  List.zipIdx_map_fst 0 names

@[simp]
theorem size_numbered (names : List String) : (numbered names).size = names.length := by
  simp [numbered, size]

/-- A name is found with its first position. -/
theorem get?_numbered {names : List String} {name : String} (h : name ∈ names) :
    (numbered names).get? name = some (names.idxOf name) := by
  suffices hfrom : ∀ k, (names.zipIdx k).lookup name = some (k + names.idxOf name) by
    simpa [numbered, get?] using hfrom 0
  induction names with
  | nil => simp at h
  | cons n ns ih =>
    intro k
    rw [List.zipIdx_cons, lookup_entry_cons]
    by_cases hn : name = n
    · simp [hn]
    · rw [if_neg hn, ih ((List.mem_cons.1 h).resolve_left hn)]
      rw [List.idxOf_cons, beq_false_of_ne (Ne.symm hn), cond_false]
      congr 1
      omega

/-- A name that is there once is found with its position. -/
theorem get?_numbered_of_getElem? {names : List String} (hnodup : names.Nodup) {i : Nat}
    {name : String} (h : names[i]? = some name) : (numbered names).get? name = some i := by
  obtain ⟨hi, rfl⟩ := List.getElem?_eq_some_iff.1 h
  rw [get?_numbered (List.getElem_mem hi), hnodup.idxOf_getElem]

/-- Storing a new name with the number of names extends the numbering. -/
theorem insert_numbered {names : List String} {name : String} (h : name ∉ names) :
    (numbered names).insert name names.length = numbered (names ++ [name]) := by
  rw [insert_of_not_mem _ (by simpa using h)]
  simp [numbered, List.zipIdx_append]

end StateGen.OrderedMap
