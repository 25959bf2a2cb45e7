import Mathlib.Data.List.TakeWhile
import StateGen.Text

/-!
# Runs of characters and decimal digits

Taking characters of a class from the front of a text takes the run that stands there, up to where
it ends. The digits of a number read as that number, and digits without a leading zero are the
digits of the number that they read as.
-/

namespace StateGen

namespace Text

section

variable {p : Char → Bool} {run rest : List Char} (hrun : ∀ c ∈ run, p c = true)
  (hrest : ∀ c, rest.head? = some c → p c = false)
include hrun hrest

/-- A run of characters is taken up to where it ends. -/
theorem takeWhile_run : (run ++ rest).takeWhile p = run := by
  rw [List.takeWhile_append_of_pos hrun]
  cases rest with
  | nil => simp
  | cons c rest => simp [hrest c rfl]

theorem dropWhile_run : (run ++ rest).dropWhile p = rest := by
  rw [List.dropWhile_append_of_pos hrun]
  cases rest with
  | nil => rfl
  | cons c rest => simp [hrest c rfl]

end

theorem head?_dropWhile {p : Char → Bool} (cs : List Char) (c : Char)
    (hc : (cs.dropWhile p).head? = some c) : p c = false := by
  have hnot := List.head?_dropWhile_not p cs
  simpa [hc] using hnot

/-- One or more decimal digits. -/
def IsDigits (cs : List Char) : Prop := cs ≠ [] ∧ ∀ c ∈ cs, c.isDigit = true

theorem decimal_eq (digits : List Char) : decimal digits = Nat.ofDigitChars 10 digits 0 := by
  simp only [decimal, Nat.ofDigitChars_eq_foldl, Nat.mul_comm]

theorem isDigits_toDigits (n : Nat) : IsDigits (Nat.toDigits 10 n) :=
  ⟨Nat.toDigits_ne_nil, fun _ hc ↦ Nat.isDigit_of_mem_toDigits (by decide) (by decide) hc⟩

theorem decimal_toDigits (n : Nat) : decimal (Nat.toDigits 10 n) = n := by
  rw [decimal_eq, Nat.ofDigitChars_ten_toDigits]

/-- A digit is the one of its value. -/
private theorem toDigits_of_isDigit {c : Char} (h : c.isDigit = true) :
    c.toNat - '0'.toNat < 10 ∧ Nat.toDigits 10 (c.toNat - '0'.toNat) = [c] := by
  have hrange : 48 ≤ c.toNat ∧ c.toNat ≤ 57 := Char.isDigit_iff_toNat.1 h
  have hzero : '0'.toNat = 48 := rfl
  have hlt : c.toNat - '0'.toNat < 10 := by omega
  refine ⟨hlt, ?_⟩
  rw [Nat.toDigits_of_lt_base hlt, List.cons.injEq]
  refine ⟨Char.toNat_inj.1 ?_, rfl⟩
  rw [Nat.toNat_digitChar_of_lt_ten hlt]
  omega

/-- Digits behind those of a positive number are the digits of a longer number. -/
private theorem toDigits_append {n : Nat} {digits : List Char} (hn : 0 < n)
    (h : ∀ c ∈ digits, c.isDigit = true) :
    Nat.toDigits 10 (Nat.ofDigitChars 10 digits n) = Nat.toDigits 10 n ++ digits := by
  induction digits generalizing n with
  | nil => simp
  | cons c digits ih =>
    obtain ⟨hlt, hdigit⟩ := toDigits_of_isDigit (h c List.mem_cons_self)
    have hpos : 0 < 10 * n + (c.toNat - '0'.toNat) := by omega
    rw [Nat.ofDigitChars_cons, ih hpos fun d hd ↦ h d (List.mem_cons_of_mem c hd),
      ← Nat.toDigits_append_toDigits (by decide) hn hlt, hdigit, List.append_assoc]
    rfl

/-- Digits without a leading zero are those of their number. -/
theorem toDigits_decimal {c : Char} {digits : List Char} (h : ∀ d ∈ c :: digits, d.isDigit = true)
    (hc : c ≠ '0') : Nat.toDigits 10 (decimal (c :: digits)) = c :: digits := by
  obtain ⟨hdigit, hdigits⟩ := List.forall_mem_cons.1 h
  obtain ⟨hlt, hone⟩ := toDigits_of_isDigit hdigit
  have hpos : 0 < c.toNat - '0'.toNat := by
    refine Nat.pos_of_ne_zero fun hzero ↦ hc ?_
    rw [hzero, Nat.toDigits_zero] at hone
    exact (List.cons.inj hone).1.symm
  rw [decimal_eq, Nat.ofDigitChars_cons, Nat.mul_zero, Nat.zero_add, toDigits_append hpos hdigits,
    hone]
  rfl

end Text

end StateGen
