import StateGen.Machine
import StateGen.OrderedMap

/-!
# Scripted hooks

Hooks that record every call. A guard answers from its queue, then with its fixed answer, and
passes otherwise.
-/

namespace StateGen.Machine

/-- The answers of guards, and the calls that were made. -/
structure Script where
  calls : List Call := []
  queued : OrderedMap (List Bool) := .empty
  fixed : OrderedMap Bool := .empty

namespace Script

/-- Fix the answer of a guard. -/
def always (s : Script) (hook : String) (answer : Bool) : Script :=
  { s with fixed := s.fixed.insert hook answer }

/-- Queue answers of a guard behind those that are queued already. -/
def andThen (s : Script) (hook : String) (answers : List Bool) : Script :=
  { s with queued := s.queued.insert hook ((s.queued.get? hook).getD [] ++ answers) }

/-- How often a hook was called. -/
def count (s : Script) (hook : String) : Nat := s.calls.countP (·.hook == hook)

/-- Forget the recorded calls. -/
def clear (s : Script) : Script := { s with calls := [] }

/-- Record a call. -/
def note (s : Script) (c : Call) : Script := { s with calls := s.calls ++ [c] }

/-- Answer a guard. -/
def answer (c : Call) (s : Script) : Bool × Script :=
  let s := s.note c
  match s.queued.get? c.hook with
  | some (result :: rest) => (result, { s with queued := s.queued.insert c.hook rest })
  | _ => ((s.fixed.get? c.hook).getD true, s)

/-- The hooks of a script. -/
def hooks : Hooks Script where
  guard := answer
  callback c s := s.note c

end Script

end StateGen.Machine
