import StateGen.Proofs.Diagnostic

/-!
# Collections as truncated logs

A collection of diagnostics is a log of reports of which only the first errors are kept. Pushing to
it writes to the log, and adding another collection appends the log of that one, although what
the other one only counted is lost: it has a full store then, so nothing behind it would be kept
anyway. So a collection depends on its log alone, not on how it was put together.
-/

namespace StateGen

namespace Diagnostics

/-! ## Logs -/

/-- One diagnostic as it is handed over. -/
inductive Report where
  | error (d : Diagnostic)
  | warning (d : Diagnostic)

namespace Report

/-- The diagnostic, if it is handed over as an error. -/
@[simp]
def error? : Report → Option Diagnostic
  | .error d => some d
  | .warning _ => none

/-- The diagnostic, if it is handed over as a warning. -/
@[simp]
def warning? : Report → Option Diagnostic
  | .error _ => none
  | .warning d => some d

/-- Push a diagnostic as what it is handed over. -/
def push (ds : Diagnostics) : Report → Diagnostics
  | .error d => ds.pushError d
  | .warning d => ds.pushWarning d

end Report

/-- The errors of a log. -/
def errorsIn (log : List Report) : List Diagnostic := log.filterMap Report.error?

/-- The warnings of a log, as they are handed over. -/
def warningsIn (log : List Report) : List Diagnostic := log.filterMap Report.warning?

@[simp]
theorem errorsIn_append (log log' : List Report) :
    errorsIn (log ++ log') = errorsIn log ++ errorsIn log' := List.filterMap_append

@[simp]
theorem warningsIn_append (log log' : List Report) :
    warningsIn (log ++ log') = warningsIn log ++ warningsIn log' := List.filterMap_append

@[simp]
theorem errorsIn_error (d : Diagnostic) : errorsIn [.error d] = [d] := rfl

@[simp]
theorem errorsIn_warning (d : Diagnostic) : errorsIn [.warning d] = [] := rfl

@[simp]
theorem warningsIn_error (d : Diagnostic) : warningsIn [.error d] = [] := rfl

@[simp]
theorem warningsIn_warning (d : Diagnostic) : warningsIn [.warning d] = [d] := rfl

/-- What a collection keeps of a log: the first errors, all warnings as such, and how many there
were of each. -/
def ofLog (log : List Report) : Diagnostics where
  errors := (errorsIn log).take capacity
  warnings := (warningsIn log).map Diagnostic.asWarning
  totalErrors := (errorsIn log).length
  totalWarnings := (warningsIn log).length

/-! ## Pushing many diagnostics -/

variable {ds : Diagnostics}

private theorem frame_foldl_pushError (reported : List Diagnostic) (ds : Diagnostics) :
    (reported.foldl pushError ds).warnings = ds.warnings ∧
      (reported.foldl pushError ds).totalWarnings = ds.totalWarnings := by
  induction reported generalizing ds with
  | nil => exact ⟨rfl, rfl⟩
  | cons d reported ih => exact ih (ds.pushError d)

/-- Errors fill the room that is left and are counted. -/
theorem foldl_pushError_eq (reported : List Diagnostic) (h : ds.errors.length ≤ capacity) :
    reported.foldl pushError ds =
      { ds with
        errors := (ds.errors ++ reported).take capacity
        totalErrors := ds.totalErrors + reported.length } := by
  obtain ⟨hwarnings, htotal⟩ := frame_foldl_pushError reported ds
  rw [← errors_foldl_pushError reported h, ← totalErrors_foldl_pushError, ← hwarnings, ← htotal]

/-- Warnings are kept and counted. -/
theorem foldl_pushWarning_eq (reported : List Diagnostic) (ds : Diagnostics) :
    reported.foldl pushWarning ds =
      { ds with
        warnings := ds.warnings ++ reported.map Diagnostic.asWarning
        totalWarnings := ds.totalWarnings + reported.length } := by
  induction reported generalizing ds with
  | nil => simp
  | cons d reported ih =>
    rw [List.foldl_cons, ih]
    simp only [pushWarning, List.map_cons, List.append_assoc, List.singleton_append,
      List.length_cons, Nat.add_assoc, Nat.add_comm 1]

/-! ## Operations on logs -/

/-- Of two lists one after the other, the first elements are among the first ones of each. -/
private theorem take_append_take {α : Type} (n : Nat) (as bs : List α) :
    (as.take n ++ bs.take n).take n = (as ++ bs).take n := by
  by_cases h : n ≤ as.length
  · rw [List.take_append_of_le_length (by simp [h]), List.take_append_of_le_length h,
      List.take_take, Nat.min_self]
  · rw [List.take_of_length_le (Nat.le_of_not_le h), List.take_append, List.take_append,
      List.take_take, Nat.min_eq_left (Nat.sub_le ..)]

theorem length_errors_ofLog (log : List Report) : (ofLog log).errors.length ≤ capacity :=
  List.length_take_le ..

/-- Nothing is counted that is not in the log. -/
theorem overflow_ofLog (log : List Report) :
    (ofLog log).overflow = (errorsIn log).length - capacity := by
  simp only [overflow, ofLog, List.length_take]
  omega

theorem pushError_ofLog (log : List Report) (d : Diagnostic) :
    (ofLog log).pushError d = ofLog (log ++ [.error d]) := by
  have hpush : (ofLog log).pushError d = _ := foldl_pushError_eq [d] (length_errors_ofLog log)
  have herrors := take_append_take capacity (errorsIn log) [d]
  have hone : [d].length ≤ capacity := Nat.le_add_left 1 19
  rw [List.take_of_length_le hone] at herrors
  rw [hpush]
  simp only [ofLog, herrors, errorsIn_append, errorsIn_error, warningsIn_append, warningsIn_error,
    List.length_append, List.append_nil]

theorem pushWarning_ofLog (log : List Report) (d : Diagnostic) :
    (ofLog log).pushWarning d = ofLog (log ++ [.warning d]) := by
  simp [ofLog, pushWarning]

/-- Pushing a report writes it to the log. -/
theorem push_ofLog (log : List Report) (r : Report) :
    r.push (ofLog log) = ofLog (log ++ [r]) := by
  cases r with
  | error d => exact pushError_ofLog log d
  | warning d => exact pushWarning_ofLog log d

/-- Adding a collection appends its log: whatever it has only counted stands behind a full store. -/
theorem extend_ofLog (log log' : List Report) :
    (ofLog log).extend (ofLog log') = ofLog (log ++ log') := by
  have herrors : ((errorsIn log).take capacity ++ (errorsIn log').take capacity).take capacity =
      (errorsIn log ++ errorsIn log').take capacity := take_append_take ..
  have hcount : (errorsIn log).length + ((errorsIn log').take capacity).length +
      ((errorsIn log').length - capacity) = (errorsIn log).length + (errorsIn log').length := by
    rw [List.length_take]
    omega
  have hwarnings : ((warningsIn log').map Diagnostic.asWarning).map Diagnostic.asWarning =
      (warningsIn log').map Diagnostic.asWarning := List.map_map ..
  simp only [extend, foldl_pushWarning_eq, foldl_pushError_eq _ (length_errors_ofLog log),
    overflow_ofLog]
  simp only [ofLog, herrors, hcount, hwarnings, errorsIn_append, warningsIn_append,
    List.length_append, List.length_map, List.map_append]

theorem foldl_push_ofLog (reports log : List Report) :
    reports.foldl Report.push (ofLog log) = ofLog (log ++ reports) := by
  induction reports generalizing log with
  | nil => rw [List.foldl_nil, List.append_nil]
  | cons r reports ih => rw [List.foldl_cons, push_ofLog, ih, List.append_assoc,
      List.singleton_append]

/-! ## How collections are put together -/

/-- How a collection is put together: from nothing, by pushing diagnostics and by adding collections
that are put together in the same way. -/
inductive History where
  | empty
  | error (before : History) (d : Diagnostic)
  | warning (before : History) (d : Diagnostic)
  | extend (before other : History)

namespace History

/-- The collection. -/
def collection : History → Diagnostics
  | .empty => .empty
  | .error before d => before.collection.pushError d
  | .warning before d => before.collection.pushWarning d
  | .extend before other => before.collection.extend other.collection

/-- Everything that is pushed, in order. -/
def log : History → List Report
  | .empty => []
  | .error before d => before.log ++ [.error d]
  | .warning before d => before.log ++ [.warning d]
  | .extend before other => before.log ++ other.log

/-- A collection is what it keeps of its log. -/
theorem collection_eq_ofLog (h : History) : h.collection = ofLog h.log := by
  induction h with
  | empty => rfl
  | error before d ih => rw [collection, ih, pushError_ofLog, log]
  | warning before d ih => rw [collection, ih, pushWarning_ofLog, log]
  | extend before other ih ih' => rw [collection, ih, ih', extend_ofLog, log]

end History

/-- Pushing everything one by one leads to the same collection, however it was put together: the
first errors are stored, all warnings are, and both are counted. So what is only counted is what
does not fit, the store is full exactly if it is, and adding collections is associative with the
empty one as its unit. -/
theorem collection_is_truncated_log (h : History) :
    let errors := errorsIn h.log
    let warnings := warningsIn h.log
    h.collection = h.log.foldl Report.push .empty ∧
      h.collection.errors = errors.take 20 ∧ h.collection.totalErrors = errors.length ∧
      h.collection.warnings = warnings.map ({ · with severity := .warning }) ∧
      h.collection.totalWarnings = warnings.length ∧
      h.collection.errors.length + h.collection.overflow = h.collection.totalErrors ∧
      (h.collection.isFull ↔ h.collection.errors.length = 20) ∧
      (∀ h' h'' : History, (h.collection.extend h'.collection).extend h''.collection =
        h.collection.extend (h'.collection.extend h''.collection)) ∧
      empty.extend h.collection = h.collection ∧ h.collection.extend empty = h.collection := by
  have hempty : empty = ofLog [] := rfl
  simp only [History.collection_eq_ofLog]
  refine ⟨?_, rfl, rfl, rfl, rfl, ?_, ?_, fun h' h'' ↦ ?_, ?_, ?_⟩
  · rw [hempty, foldl_push_ofLog, List.nil_append]
  · rw [overflow_ofLog]
    simp only [ofLog, List.length_take]
    omega
  · rw [isFull, decide_eq_true_iff]
    simp only [ofLog, List.length_take, capacity]
    omega
  · simp only [extend_ofLog, List.append_assoc]
  · rw [hempty, extend_ofLog, List.nil_append]
  · rw [hempty, extend_ofLog, List.append_nil]

end Diagnostics

end StateGen
