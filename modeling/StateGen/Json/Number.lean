import StateGen.Text

/-!
# Numbers that fit into a double

A number literal has digits, maybe a fraction and maybe an exponent. What is kept of it is a
significand below 2⁶⁴ and a power of ten: digits for which the significand has no room are dropped
behind the point and counted in front of it. The literal fits if the double nearest to the
significand times the double nearest to the power of ten is finite.
-/

namespace StateGen.Json

/-! ## Rounding -/

/-- The quotient of `n` by `unit` as the nearest integer; a half goes to the even neighbour. -/
def roundedQuotient (n unit : Nat) : Nat :=
  let low := n / unit
  let twice := 2 * (n % unit)
  if unit < twice ∨ (unit = twice ∧ low % 2 = 1) then low + 1 else low

/-- The integer with 53 significant bits that is nearest to `n`. -/
def nearestDouble (n : Nat) : Nat :=
  let unit := 1 <<< (n.log2 - 52)
  unit * roundedQuotient n unit

/-- The least integer that is rounded to infinity, halfway between the largest double and the next
power of two. -/
def overflowBound : Nat := 1 <<< 1024 - 1 <<< 970

/-- Whether a significand times a power of ten is finite as a double. Small numbers always are:
at worst they become zero. -/
def finiteDouble (significand : Nat) (exponent : Int) : Bool :=
  significand == 0 || exponent ≤ 0 ||
    (exponent ≤ 308 &&
      nearestDouble significand * nearestDouble (Nat.pow 10 exponent.toNat) < overflowBound)

/-! ## Literals -/

/-- Read digits into a significand as long as there is room, and tell which ones are left. -/
def absorb (significand : Nat) : List Char → Nat × List Char
  | [] => (significand, [])
  | d :: ds =>
    let next := 10 * significand + Text.decimal [d]
    if next < UInt64.size then absorb next ds else (significand, d :: ds)

/-- The power of ten that an exponent names; no exponent names zero. -/
def exponentValue : List Char → Int
  | _ :: '-' :: ds => -(Text.decimal ds : Int)
  | _ :: '+' :: ds => Text.decimal ds
  | _ :: ds => Text.decimal ds
  | [] => 0

/-- Whether a number literal fits into a double. -/
def fitsDouble (literal : String) : Bool :=
  let cs := literal.toList.dropWhile (· == '-')
  let whole := cs.takeWhile Char.isDigit
  let behind := (cs.dropWhile Char.isDigit).dropWhile (· == '.')
  let fraction := behind.takeWhile Char.isDigit
  let exponent := exponentValue (behind.dropWhile Char.isDigit)
  let (significand, excess) := absorb 0 whole
  let (significand, unread) := absorb significand fraction
  finiteDouble significand (excess.length + unread.length - fraction.length + exponent)

end StateGen.Json
