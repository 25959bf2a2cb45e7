import StateGen.Proofs.Diagnostic
import StateGen.Token.Lexer

/-!
# What lexing yields

The tokens of a text end with the end of the text, which stands nowhere else, and no word among them
is a keyword. Faults are pushed to the diagnostics and change nothing else in them.
-/

namespace StateGen

theorem Keyword.mem_all (k : Keyword) : k ∈ all := by
  cases k <;> decide

/-- A word is no keyword if and only if no keyword is written like it. -/
theorem Keyword.ofText?_eq_none_iff {word : String} :
    ofText? word = none ↔ ∀ k : Keyword, k.text ≠ word := by
  rw [ofText?, List.find?_eq_none]
  constructor
  · intro h k
    simpa using h k k.mem_all
  · intro h k _
    simpa using h k

namespace Token

open Diagnostics (Grows)

/-! ## Tokens -/

/-- The kinds of tokens that stand in front of the end: a word among them is no keyword. -/
def Kind.IsLexed (kind : Kind) : Prop :=
  kind ≠ .eof ∧ ∀ name, kind = .word name → ∀ k : Keyword, k.text ≠ name

theorem Kind.isLexed_ofWord (word : String) : (ofWord word).IsLexed := by
  unfold ofWord
  split
  · next k _ => exact ⟨by simp, by simp⟩
  · next hnone =>
    refine ⟨by simp, fun name hname ↦ ?_⟩
    cases hname
    exact Keyword.ofText?_eq_none_iff.1 hnone

theorem Kind.isLexed_ofMark? {c : Char} {mark : Kind} (h : ofMark? c = some mark) :
    mark.IsLexed := by
  unfold ofMark? at h
  split at h <;> cases h <;> exact ⟨by simp, by simp⟩

theorem isLexed_scan {p : Position} {c : Char} {cs : List Char} {t : Token}
    (h : (scan p c cs).token = some t) : t.kind.IsLexed := by
  unfold scan at h
  split at h
  · next mark hmark =>
    cases h
    exact Kind.isLexed_ofMark? hmark
  split at h
  · cases h
    exact ⟨by simp, by simp⟩
  split at h
  · cases h
    exact ⟨by simp, by simp⟩
  split at h
  · cases h
    exact Kind.isLexed_ofWord _
  · cases h

/-- The tokens from a place on are those in front of the end, and the end. A property of the former
follows by induction: it holds of no tokens at all, and it is kept by what is skipped or read in
front of further tokens. -/
theorem exists_lexFrom_eq_of {Q : Position → List Char → List Token → Prop}
    (hnil : ∀ p cs, Q p cs [])
    (hskip : ∀ p cs tokens, Q (skipTrivia false p cs).1 (skipTrivia false p cs).2 tokens →
      Q p cs tokens)
    (hscan : ∀ p c cs tokens, Q (scan p c cs).position (scan p c cs).rest tokens →
      Q p (c :: cs) ((scan p c cs).token.toList ++ tokens))
    (file : SourceFile) (p : Position) (cs : List Char) (ds : Diagnostics) :
    ∃ tokens finish, (lexFrom file p cs ds).1 = tokens ++ [finish] ∧ finish.kind = .eof ∧
      Q p cs tokens := by
  fun_induction lexFrom file p cs ds with
  | case1 p cs ds _ => exact ⟨[], _, rfl, rfl, hnil p cs⟩
  | case2 p cs ds _ q _ => exact ⟨[], _, rfl, rfl, hnil p cs⟩
  | case3 p cs ds _ q c rest heq x tokens ds' hrest ih =>
    obtain ⟨later, finish, hlater, hfinish, hbehind⟩ := ih
    rw [hrest] at hlater
    have htokens : tokens = later ++ [finish] := hlater
    refine ⟨x.token.toList ++ later, finish, by simp [htokens], hfinish, hskip p cs _ ?_⟩
    rw [heq]
    exact hscan q c rest later hbehind

/-- What holds of every token that is read holds of those in front of the end. -/
theorem exists_lexFrom_eq_forall {P : Token → Prop}
    (h : ∀ {p c cs t}, (scan p c cs).token = some t → P t)
    (file : SourceFile) (p : Position) (cs : List Char) (ds : Diagnostics) :
    ∃ tokens finish, (lexFrom file p cs ds).1 = tokens ++ [finish] ∧ finish.kind = .eof ∧
      ∀ t ∈ tokens, P t := by
  apply exists_lexFrom_eq_of (Q := fun _ _ tokens ↦ ∀ t ∈ tokens, P t)
  · intro p cs t ht
    cases ht
  · intro p cs tokens htokens
    exact htokens
  · intro p c cs tokens htokens t ht
    rcases List.mem_append.1 ht with ht | ht
    · exact h (Option.mem_toList.1 ht)
    · exact htokens t ht

theorem exists_lexFrom_eq (file : SourceFile) (p : Position) (cs : List Char) (ds : Diagnostics) :
    ∃ tokens finish, (lexFrom file p cs ds).1 = tokens ++ [finish] ∧ finish.kind = .eof ∧
      ∀ t ∈ tokens, t.kind.IsLexed :=
  exists_lexFrom_eq_forall isLexed_scan file p cs ds

/-! ## Faults -/

private theorem grows_report (x : Lexeme) (file : SourceFile) (ds : Diagnostics) :
    Grows ds (x.report file ds) := by
  unfold Lexeme.report
  generalize x.faults = faults
  induction faults generalizing ds with
  | nil => exact .refl ds
  | cons located faults ih =>
    obtain ⟨fault, span⟩ := located
    rw [List.foldl_cons]
    refine Grows.trans ?_ (ih _)
    dsimp only
    split
    · exact .refl ds
    · exact Diagnostics.grows_pushError ds _

/-- What was reported without an error had no faults. -/
theorem faults_eq_nil_of_report {x : Lexeme} {file : SourceFile} {ds : Diagnostics}
    (h : (x.report file ds).totalErrors = 0) : x.faults = [] := by
  cases hfaults : x.faults with
  | nil => rfl
  | cons located faults =>
    obtain ⟨fault, span⟩ := located
    let pushed := ds.pushError (.located file fault.code fault.message span)
    have hstart : ds.totalErrors = 0 := Nat.le_zero.1 (h ▸ (grows_report x file ds).totalErrors_le)
    have hroom : ds.isFull = false := by simp [Diagnostics.isFull, hstart, Diagnostics.capacity]
    have hreport : x.report file ds = { x with faults := faults }.report file pushed := by
      simp only [Lexeme.report, hfaults, List.foldl_cons, hroom, Bool.and_false,
        Bool.false_eq_true, if_false, pushed]
    have hpushed := (grows_report { x with faults := faults } file pushed).totalErrors_le
    rw [← hreport, h] at hpushed
    cases hpushed

theorem grows_lexFrom (file : SourceFile) (p : Position) (cs : List Char) (ds : Diagnostics) :
    Grows ds (lexFrom file p cs ds).2 := by
  fun_induction lexFrom file p cs ds with
  | case1 p cs ds _ => exact .refl ds
  | case2 p cs ds _ q _ => exact .refl ds
  | case3 p cs ds _ q c rest _ x tokens ds' hrest ih =>
    rw [hrest] at ih
    exact (grows_report x file ds).trans ih

/-- The faults of a text are pushed one by one. -/
theorem grows_lex (file : SourceFile) : Grows .empty (lex file).2 := grows_lexFrom ..

end Token

end StateGen
