import StateGen.Diagnostic

/-!
# Collections of diagnostics

Every stage hands its collection on after pushing errors to it. Whatever is pushed or added from
another collection, as many errors are stored as there is room for, so that a collection that counts
an error also shows one.
-/

namespace StateGen

namespace Diagnostics

variable {ds ds' ds'' other : Diagnostics}

/-! ## Pushing errors -/

/-- The second collection is the first one with errors pushed to it. -/
def Grows (ds ds' : Diagnostics) : Prop :=
  ∃ reported : List Diagnostic, ds' = reported.foldl pushError ds

theorem Grows.refl (ds : Diagnostics) : Grows ds ds := ⟨[], rfl⟩

theorem Grows.trans (h : Grows ds ds') (h' : Grows ds' ds'') : Grows ds ds'' := by
  obtain ⟨reported, rfl⟩ := h
  obtain ⟨reported', rfl⟩ := h'
  exact ⟨reported ++ reported', (List.foldl_append ..).symm⟩

theorem grows_pushError (ds : Diagnostics) (d : Diagnostic) : Grows ds (ds.pushError d) :=
  ⟨[d], rfl⟩

theorem totalErrors_foldl_pushError (reported : List Diagnostic) (ds : Diagnostics) :
    (reported.foldl pushError ds).totalErrors = ds.totalErrors + reported.length := by
  induction reported generalizing ds with
  | nil => rfl
  | cons d reported ih =>
    rw [List.foldl_cons, ih, List.length_cons]
    show ds.totalErrors + 1 + reported.length = _
    omega

theorem Grows.totalErrors_le (h : Grows ds ds') : ds.totalErrors ≤ ds'.totalErrors := by
  obtain ⟨reported, rfl⟩ := h
  rw [totalErrors_foldl_pushError]
  omega

/-! ## Stored errors -/

/-- The first errors are stored. -/
theorem errors_foldl_pushError (reported : List Diagnostic) (h : ds.errors.length ≤ capacity) :
    (reported.foldl pushError ds).errors = (ds.errors ++ reported).take capacity := by
  induction reported generalizing ds with
  | nil => rw [List.append_nil, List.take_of_length_le h, List.foldl_nil]
  | cons d reported ih =>
    rw [List.foldl_cons]
    by_cases hroom : ds.errors.length < capacity
    · have herrors : (ds.pushError d).errors = ds.errors ++ [d] := if_pos hroom
      rw [ih (by rw [herrors, List.length_append, List.length_singleton]; omega), herrors,
        List.append_assoc, List.singleton_append]
    · have herrors : (ds.pushError d).errors = ds.errors := if_neg hroom
      have hlength : ds.errors.length = capacity := by omega
      rw [ih (by rw [herrors]; exact h), herrors, ← hlength, List.take_left, List.take_left]

/-- As many errors are stored as there is room for. -/
def Stored (ds : Diagnostics) : Prop := ds.errors.length = min ds.totalErrors capacity

theorem stored_empty : Stored empty := rfl

theorem Stored.pushError (h : ds.Stored) (d : Diagnostic) : (ds.pushError d).Stored := by
  unfold Stored at h ⊢
  show (if ds.errors.length < capacity then ds.errors ++ [d] else ds.errors).length =
    min (ds.totalErrors + 1) capacity
  split
  · next hroom =>
    rw [List.length_append, List.length_singleton]
    omega
  · omega

theorem Stored.grows (h : ds.Stored) (hgrows : Grows ds ds') : ds'.Stored := by
  obtain ⟨reported, rfl⟩ := hgrows
  induction reported generalizing ds with
  | nil => exact h
  | cons d reported ih => exact ih (h.pushError d)

/-- A collection that counts errors stores one. -/
theorem Stored.errors_ne_nil (h : ds.Stored) (hs : ds.totalErrors ≠ 0) : ds.errors ≠ [] := by
  intro hnil
  rw [Stored, hnil, List.length_nil, capacity] at h
  omega

/-! ## Warnings, and whole collections -/

theorem totalErrors_foldl_pushWarning (reported : List Diagnostic) (ds : Diagnostics) :
    (reported.foldl pushWarning ds).totalErrors = ds.totalErrors := by
  induction reported generalizing ds with
  | nil => rfl
  | cons d reported ih =>
    rw [List.foldl_cons, ih]
    rfl

theorem errors_foldl_pushWarning (reported : List Diagnostic) (ds : Diagnostics) :
    (reported.foldl pushWarning ds).errors = ds.errors := by
  induction reported generalizing ds with
  | nil => rfl
  | cons d reported ih =>
    rw [List.foldl_cons, ih]
    rfl

theorem Stored.foldl_pushWarning (h : ds.Stored) (reported : List Diagnostic) :
    (reported.foldl pushWarning ds).Stored := by
  rw [Stored, errors_foldl_pushWarning, totalErrors_foldl_pushWarning]
  exact h

/-- Every error of the other collection is counted, whether it is stored there or not. -/
theorem totalErrors_extend (ds : Diagnostics) (h : other.Stored) :
    (ds.extend other).totalErrors = ds.totalErrors + other.totalErrors := by
  rw [Stored] at h
  simp only [extend, totalErrors_foldl_pushWarning, totalErrors_foldl_pushError, overflow]
  omega

/-- What the other collection stores fills the room that is left, and what it only counts comes from
a full store. -/
theorem Stored.extend (h : ds.Stored) (hother : other.Stored) : (ds.extend other).Stored := by
  have hpushed : (other.errors.foldl Diagnostics.pushError ds).Stored := h.grows ⟨_, rfl⟩
  have htotal := totalErrors_extend ds hother
  have herrors : (ds.extend other).errors =
      (other.errors.foldl Diagnostics.pushError ds).errors := by
    simp only [Diagnostics.extend, errors_foldl_pushWarning]
  rw [Stored, totalErrors_foldl_pushError] at hpushed
  rw [Stored] at hother
  rw [Stored, herrors, htotal, hpushed]
  omega

end Diagnostics

/-! ## Reports about one file -/

namespace Diagnostic

/-- What tells two reports about one file apart: code, text and place. -/
structure Mark where
  code : Code
  message : String
  span : Span
deriving DecidableEq

/-- Code, text and place of a report. -/
def mark (d : Diagnostic) : Mark := ⟨d.code, d.message, d.span⟩

/-- A report about a file. -/
def Mark.locate (file : SourceFile) (m : Mark) : Diagnostic :=
  .located file m.code m.message m.span

end Diagnostic

namespace Diagnostics

open Diagnostic (Mark)

/-- The collection of reports about a file. -/
def ofMarks (file : SourceFile) (ms : List Mark) : Diagnostics :=
  (ms.map (Mark.locate file)).foldl pushError empty

theorem ofMarks_snoc (file : SourceFile) (ms : List Mark) (m : Mark) :
    ofMarks file (ms ++ [m]) = (ofMarks file ms).pushError (m.locate file) := by
  rw [ofMarks, List.map_append, List.foldl_append]
  rfl

theorem isFull_ofMarks {file : SourceFile} {ms : List Mark} :
    (ofMarks file ms).isFull ↔ capacity ≤ ms.length := by
  rw [isFull, decide_eq_true_iff, ofMarks, totalErrors_foldl_pushError, List.length_map]
  simp [empty]

theorem map_mark_errors_ofMarks (file : SourceFile) (ms : List Mark) :
    (ofMarks file ms).errors.map Diagnostic.mark = ms.take capacity := by
  have hempty : empty.errors.length ≤ capacity := Nat.zero_le capacity
  have hmark : Diagnostic.mark ∘ Mark.locate file = id := rfl
  rw [ofMarks, errors_foldl_pushError _ hempty, List.map_take]
  show ((ms.map (Mark.locate file)).map Diagnostic.mark).take capacity = _
  rw [List.map_map, hmark, List.map_id]

end Diagnostics

end StateGen
