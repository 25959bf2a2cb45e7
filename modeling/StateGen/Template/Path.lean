import StateGen.Text
import StateGen.Text.Utf8
import StateGen.Value

/-!
# Paths into a namespace

A path is a name followed by steps: `.key`, `[3]` or `[other.path]`. A bracket that holds only
digits is an index; any other bracket holds a path whose value selects the entry. Names are runs of
ASCII letters, digits and underscores.
-/

namespace StateGen.Template

/-- One step of a path. -/
inductive Path.Step where
  | key (name : String)
  | index (i : Nat)
  /-- The value of another path: a string selects a key, an integer a position. -/
  | lookup (root : String) (steps : List Path.Step)

/-- A name and the steps from its value. -/
structure Path where
  root : String
  steps : List Path.Step

namespace Path

/-! ## Text -/

mutual

/-- The text of a step. -/
def Step.display : Step → String
  | .key name => "." ++ name
  | .index i => "[" ++ toString i ++ "]"
  | .lookup root steps => "[" ++ root ++ displaySteps steps ++ "]"

/-- The text of several steps. -/
def displaySteps : List Step → String
  | [] => ""
  | s :: ss => s.display ++ displaySteps ss

end

/-- The text of a path. -/
def display (p : Path) : String := p.root ++ displaySteps p.steps

/-! ## Reading -/

/-- Why a text is no path. -/
inductive Fault where
  | expectedName (found : Option Char)
  | missingBracket
  | indexTooLarge (digits : String)
  | unexpected (found : Char) (offset : Nat)
deriving DecidableEq, Repr

/-- A character in a message: beyond ASCII, the one whose number is its first byte. -/
def Fault.showChar (c : Char) : String :=
  String.singleton (Char.ofNat (Utf8.firstByte c).toNat)

/-- The text of a fault. -/
def Fault.message : Fault → String
  | .expectedName none => "expected a name"
  | .expectedName (some c) => "expected a name, found '" ++ showChar c ++ "'"
  | .missingBracket => "missing ']'"
  | .indexTooLarge digits => "index '" ++ digits ++ "' is too large"
  | .unexpected c offset =>
    "unexpected '" ++ showChar c ++ "' at offset " ++ toString offset

/-- The largest index. -/
def maxIndex : Nat := UInt64.size - 1

/-- A name at the start of the text. -/
def nameFrom (cs : List Char) :
    Except Fault (String × { rest : List Char // rest.length < cs.length }) :=
  match cs with
  | [] => .error (.expectedName none)
  | c :: cs =>
    if Text.isWordChar c then
      .ok (String.ofList (c :: cs.takeWhile Text.isWordChar),
        ⟨cs.dropWhile Text.isWordChar,
          Nat.lt_succ_of_le (List.dropWhile_suffix _).length_le⟩)
    else .error (.expectedName (some c))

/-- An index at the start of the text: digits up to a closing bracket. -/
def indexFrom? (cs : List Char) :
    Option (List Char × { rest : List Char // rest.length < cs.length }) :=
  match h : cs.dropWhile Char.isDigit with
  | ']' :: rest =>
    if cs.takeWhile Char.isDigit = [] then none
    else
      some (cs.takeWhile Char.isDigit, ⟨rest, by
        have hle := (List.dropWhile_suffix (l := cs) Char.isDigit).length_le
        rw [h, List.length_cons] at hle
        omega⟩)
  | _ => none

/-- The steps at the start of the text, as many as there are, and what follows them. -/
def stepsFrom (cs : List Char) :
    Except Fault (List Step × { rest : List Char // rest.length ≤ cs.length }) :=
  match cs with
  | '.' :: afterDot => do
    let (name, ⟨rest, hname⟩) ← nameFrom afterDot
    let (steps, ⟨rest, hsteps⟩) ← stepsFrom rest
    return (.key name :: steps, ⟨rest, by simp only [List.length_cons]; omega⟩)
  | '[' :: inner =>
    match indexFrom? inner with
    | some (digits, ⟨rest, hindex⟩) =>
      if maxIndex < Text.decimal digits then .error (.indexTooLarge (String.ofList digits))
      else do
        let (steps, ⟨rest, hsteps⟩) ← stepsFrom rest
        return (.index (Text.decimal digits) :: steps,
          ⟨rest, by simp only [List.length_cons]; omega⟩)
    | none => do
      let (root, ⟨afterRoot, hroot⟩) ← nameFrom inner
      let (selector, ⟨afterSelector, hselector⟩) ← stepsFrom afterRoot
      match _hs : afterSelector with
      | ']' :: afterBracket => do
        let (steps, ⟨rest, hsteps⟩) ← stepsFrom afterBracket
        return (.lookup root selector :: steps, ⟨rest, by
          simp only [_hs, List.length_cons] at hselector ⊢
          omega⟩)
      | _ => .error .missingBracket
  | cs => .ok ([], ⟨cs, Nat.le_refl _⟩)
termination_by cs.length
decreasing_by
  all_goals
    simp_all only [List.length_cons]
    omega

/-- Read a text that is a path as a whole. -/
def parse (text : String) : Except Fault Path := do
  let (root, ⟨afterRoot, _⟩) ← nameFrom text.toList
  let (steps, ⟨rest, _⟩) ← stepsFrom afterRoot
  match rest with
  | [] => return ⟨root, steps⟩
  | c :: _ => throw (.unexpected c (text.length - rest.length))

/-! ## Values -/

/-- The element of a sequence or the value of a mapping entry at a position. -/
def atPosition? : Value → Nat → Option Value
  | .seq items, i => items[i]?
  | .map fields, i => (fields.entryAt i).map (·.2)
  | _, _ => none

/-- The entry of a value that a selector names. -/
def select? (v : Value) : Value → Option Value
  | .str key => v.get? key
  | .int n => if 0 ≤ n then atPosition? v n.toNat else none
  | _ => none

mutual

/-- Take one step from a value; `env` gives the values of names. -/
def Step.follow (env : String → Option Value) : Step → Value → Option Value
  | .key name, v => v.get? name
  | .index i, v => atPosition? v i
  | .lookup root steps, v => do
    let start ← env root
    let selector ← followSteps env steps start
    select? v selector

/-- Take several steps from a value. -/
def followSteps (env : String → Option Value) : List Step → Value → Option Value
  | [], v => some v
  | s :: ss, v => do
    let next ← s.follow env v
    followSteps env ss next

end

/-- The value of a path, if every step leads somewhere. -/
def resolve (env : String → Option Value) (p : Path) : Option Value := do
  let start ← env p.root
  followSteps env p.steps start

end Path

end StateGen.Template
