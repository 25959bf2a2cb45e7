import StateGen.Source

/-!
# Declarations

The flat form of a description: single declarations in an order in which every one can be judged
by what was declared before it.
-/

namespace StateGen

/-- What a hook is attached to. -/
inductive HookTarget where
  /-- Entering a state. -/
  | entry (state : String)
  /-- Leaving a state. -/
  | exit (state : String)
  /-- Every transition that an event triggers. -/
  | event (event : String)
  /-- One edge: `via` is its event, or its target where there are no events. -/
  | transition (source via : String)
deriving DecidableEq, Repr

/-- The text of a hook target in log records. -/
def HookTarget.display : HookTarget → String
  | .entry s => "entry of state '" ++ s ++ "'"
  | .exit s => "exit of state '" ++ s ++ "'"
  | .event e => "event '" ++ e ++ "'"
  | .transition source via => "transition '" ++ source ++ "' -> '" ++ via ++ "'"

namespace Declaration

/-- What is declared. -/
inductive Kind where
  | state (name : String)
  | event (name : String)
  | transition (source : String) (event : Option String) (target : String)
  | initial (state : String)
  | precondition (target : HookTarget) (name : String)
  | callback (target : HookTarget) (name : String)
  | config (key value : String)
deriving DecidableEq, Repr

end Declaration

/-- A declaration and where it was written. -/
structure Declaration where
  kind : Declaration.Kind
  span : Span := .none
deriving DecidableEq, Repr

end StateGen
