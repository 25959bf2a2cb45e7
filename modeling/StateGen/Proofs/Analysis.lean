import StateGen.Analysis
import StateGen.Proofs.Description.Parsing
import StateGen.Proofs.Model.Declared
import StateGen.Proofs.Token.Lexing

/-!
# When a description has a namespace

A description is judged in four stages: its text, the order of its tokens, each of its declarations,
and the machine as a whole. An analysis yields a namespace if and only if no stage objects, and a
stage that objects leaves an error in the diagnostics. So the namespace is there exactly if no error
is counted.
-/

namespace StateGen

namespace SourceFile

/-- The description that the text spells, as far as it is readable. -/
def description (file : SourceFile) : Description :=
  (Description.ofTokens file (Token.lex file).1).1

/-- The text has no faults, and its tokens are in order. -/
def IsReadable (file : SourceFile) : Prop :=
  (Token.lex file).2.totalErrors = 0 ∧
    (Description.ofTokens file (Token.lex file).1).2.totalErrors = 0

/-- The tokens of a readable text derive from the grammar, and the description is what the
derivation stands for. -/
theorem IsReadable.exists_derivation {file : SourceFile} (h : file.IsReadable) :
    ∃ (items : Description.Derivation) (finish : Token),
      (Token.lex file).1 = items.tokens ++ [finish] ∧
        file.description = items.description finish ∧ ∀ t ∈ items.tokens, t.kind.IsLexed := by
  obtain ⟨tokens, finish, hlex, hfinish, hlexed⟩ :=
    Token.exists_lexFrom_eq file .start file.text.toList .empty
  have htokens : ∀ t ∈ tokens, t.kind ≠ .eof := fun t ht ↦ (hlexed t ht).1
  have hmistakes := h.2
  rw [Token.lex, hlex] at hmistakes
  obtain ⟨items, rfl⟩ :=
    Description.exists_derivation_of_ofTokens file htokens hfinish hmistakes
  refine ⟨items, finish, hlex, ?_, hlexed⟩
  rw [description, Token.lex, hlex, Description.ofTokens_of_derivation file htokens hfinish]

/-- A text without faults is readable if its tokens derive from the grammar. -/
theorem isReadable_of_derivation {file : SourceFile} {items : Description.Derivation}
    {finish : Token} (hlex : Token.lex file = (items.tokens ++ [finish], .empty))
    (htokens : ∀ t ∈ items.tokens, t.kind ≠ .eof) (hfinish : finish.kind = .eof) :
    file.IsReadable ∧ file.description = items.description finish := by
  have hread := Description.ofTokens_of_derivation file htokens hfinish
  rw [IsReadable, description, hlex]
  dsimp only
  rw [hread]
  exact ⟨⟨rfl, rfl⟩, rfl⟩

end SourceFile

namespace Analysis

variable {decls : List Declaration} {m m' : Model} {ds : Diagnostics}

/-- An analysis that yields a namespace exactly if it counts no error, and that stores an error if
it counts one. -/
structure IsHonest (a : Analysis) : Prop where
  stored : a.diagnostics.Stored
  isSome_result_iff : a.result.isSome ↔ a.diagnostics.totalErrors = 0

theorem toExcept_eq_ok_iff {a : Analysis} {ns : Namespace} :
    a.toExcept = .ok ns ↔ a.result = some ns := by
  rw [toExcept]
  cases a.result <;> simp

/-- An analysis that counts no error has a namespace to give, and no other has. -/
theorem IsHonest.exists_toExcept_eq_ok_iff {a : Analysis} (h : a.IsHonest) :
    (∃ ns, a.toExcept = .ok ns) ↔ a.diagnostics.totalErrors = 0 := by
  simp only [toExcept_eq_ok_iff, ← h.isSome_result_iff, Option.isSome_iff_exists]

/-! ## Declarations -/

theorem grows_applyAll (file : SourceFile) (decls : List Declaration) (m : Model)
    (ds : Diagnostics) : ds.Grows (applyAll file decls m ds).diagnostics := by
  induction decls generalizing m ds with
  | nil => exact .refl ds
  | cons d decls ih =>
    rw [applyAll]
    cases Model.apply d m with
    | ok _ m' => exact ih m' ds
    | error e m' =>
      have hpush := Diagnostics.grows_pushError ds (rejection file d.span e)
      dsimp only
      split
      · exact hpush
      · exact hpush.trans (ih m' _)

/-- Declarations that are all accepted leave no report. -/
theorem applyAll_of_ok (file : SourceFile) (ds : Diagnostics)
    (h : Model.applyAll decls m = .ok () m') :
    (applyAll file decls m ds).model = m' ∧ (applyAll file decls m ds).diagnostics = ds := by
  induction decls generalizing m with
  | nil =>
    injection h with _ hm
    exact ⟨hm, rfl⟩
  | cons d decls ih =>
    simp only [Model.applyAll, bind, EStateM.bind] at h
    cases hd : Model.apply d m with
    | error e m₁ =>
      rw [hd] at h
      cases h
    | ok _ m₁ =>
      rw [hd] at h
      simp only [applyAll, hd]
      exact ih h

/-- A rejected declaration leaves a report, and none is taken back. -/
theorem lt_totalErrors_applyAll (file : SourceFile) (ds : Diagnostics) {e : Model.Error}
    (h : Model.applyAll decls m = .error e m') :
    ds.totalErrors < (applyAll file decls m ds).diagnostics.totalErrors := by
  induction decls generalizing m with
  | nil => cases h
  | cons d decls ih =>
    simp only [Model.applyAll, bind, EStateM.bind] at h
    cases hd : Model.apply d m with
    | ok _ m₁ =>
      rw [hd] at h
      simp only [applyAll, hd]
      exact ih h
    | error e₁ m₁ =>
      have hpush : (ds.pushError (rejection file d.span e₁)).totalErrors = ds.totalErrors + 1 := rfl
      have hle := (grows_applyAll file decls m₁
        (ds.pushError (rejection file d.span e₁))).totalErrors_le
      simp only [applyAll, hd]
      split
      · show ds.totalErrors < (ds.pushError _).totalErrors
        omega
      · omega

/-- Judging the machine as a whole adds an error exactly if there is no namespace. -/
theorem isHonest_conclude (file : SourceFile) (m : Model) (hs : ds.Stored)
    (hds : ds.totalErrors = 0) : (conclude file m ds).IsHonest := by
  unfold conclude
  cases m.finalize with
  | ok ns => exact ⟨hs, by simp [hds]⟩
  | error e => exact ⟨hs.pushError _, by simp [Diagnostics.pushError]⟩

theorem result_conclude (file : SourceFile) (m : Model) (ds : Diagnostics) :
    (conclude file m ds).result = m.finalize.toOption := by
  unfold conclude
  cases m.finalize <;> rfl

/-- Warnings of unreachable states leave the errors as they are. -/
private theorem warn_unreachable (file : SourceFile) (decls : List Declaration)
    (states : List String) (hs : ds.Stored) :
    let warned := states.foldl
      (fun ds name ↦ ds.pushWarning (unreachableWarning file decls name)) ds
    warned.Stored ∧ warned.totalErrors = ds.totalErrors := by
  have hwarned : states.foldl
      (fun ds name ↦ ds.pushWarning (unreachableWarning file decls name)) ds =
        (states.map (unreachableWarning file decls)).foldl Diagnostics.pushWarning ds :=
    (List.foldl_map ..).symm
  intro warned
  simp only [warned, hwarned]
  exact ⟨hs.foldl_pushWarning _, Diagnostics.totalErrors_foldl_pushWarning ..⟩

/-- Where nothing was wrong before, declarations have the namespace that they build. -/
theorem ofDeclarations_spec (file : SourceFile) (preset decls : List Declaration) (hs : ds.Stored)
    (hds : ds.totalErrors = 0) :
    (ofDeclarations file preset decls ds).IsHonest ∧
      (ofDeclarations file preset decls ds).result =
        (Model.build file.name (preset ++ decls)).toOption := by
  unfold ofDeclarations Model.build
  cases hrun : Model.applyAll (preset ++ decls) (.initial file.name) with
  | error e m =>
    have hlt := lt_totalErrors_applyAll file ds hrun
    have hgrows := grows_applyAll file (preset ++ decls) (.initial file.name) ds
    dsimp only
    rw [if_pos (by simpa [Diagnostics.hasErrors] using Nat.zero_lt_of_lt hlt)]
    refine ⟨⟨hs.grows hgrows, ?_⟩, rfl⟩
    simp only [Option.isSome_none, Bool.false_eq_true, false_iff]
    omega
  | ok _ m =>
    obtain ⟨hmodel, hdiagnostics⟩ := applyAll_of_ok file ds hrun
    dsimp only
    rw [hmodel, hdiagnostics, if_neg (by simp [Diagnostics.hasErrors, hds])]
    obtain ⟨hstored, htotal⟩ := warn_unreachable file decls m.unreachableStates hs
    have hconclude := isHonest_conclude file m hstored (htotal.trans hds)
    exact ⟨⟨hconclude.stored, hconclude.isSome_result_iff⟩, result_conclude ..⟩

end Analysis

/-! ## The whole analysis -/

/-- What is wrong with the text and the order of its tokens. -/
private def readingErrors (file : SourceFile) : Diagnostics :=
  (Token.lex file).2.extend (Description.ofTokens file (Token.lex file).1).2

private theorem stored_ofTokens (file : SourceFile) (tokens : List Token) :
    (Description.ofTokens file tokens).2.Stored :=
  Diagnostics.stored_empty.grows (Description.grows_ofTokens file tokens)

private theorem stored_readingErrors (file : SourceFile) : (readingErrors file).Stored :=
  (Diagnostics.stored_empty.grows (Token.grows_lex file)).extend (stored_ofTokens file _)

/-- Faults and mistakes are counted together. -/
private theorem totalErrors_readingErrors (file : SourceFile) :
    (readingErrors file).totalErrors = 0 ↔ file.IsReadable := by
  rw [readingErrors, Diagnostics.totalErrors_extend _ (stored_ofTokens file _),
    SourceFile.IsReadable]
  omega

/-- A readable text is judged by its declarations. -/
private theorem analyze_of_isReadable {file : SourceFile} (preset : List Declaration)
    (h : file.IsReadable) :
    (analyze file preset).IsHonest ∧
      (analyze file preset).result =
        (Model.build file.name (preset ++ file.description.declarations)).toOption := by
  have hzero := (totalErrors_readingErrors file).2 h
  have hanalyze : analyze file preset =
      let decls := file.description.declarations
      let a := Analysis.ofDeclarations file preset decls (readingErrors file)
      { a with
        records := .mk .debug .pipeline
          (file.name ++ ": " ++ toString decls.length ++ " declarations") :: a.records } := by
    show (if (readingErrors file).hasErrors then _ else _) = _
    rw [if_neg (by simp [Diagnostics.hasErrors, hzero])]
    rfl
  obtain ⟨hhonest, hresult⟩ := Analysis.ofDeclarations_spec file preset
    file.description.declarations (stored_readingErrors file) hzero
  rw [hanalyze]
  exact ⟨⟨hhonest.stored, hhonest.isSome_result_iff⟩, hresult⟩

private theorem analyze_of_not_isReadable {file : SourceFile} (preset : List Declaration)
    (h : ¬ file.IsReadable) : analyze file preset = ⟨none, readingErrors file, []⟩ := by
  have hne := mt (totalErrors_readingErrors file).1 h
  show (if (readingErrors file).hasErrors then (⟨none, readingErrors file, []⟩ : Analysis)
    else _) = _
  rw [if_pos (by simpa [Diagnostics.hasErrors] using Nat.pos_of_ne_zero hne)]

/-- An analysis yields a namespace exactly if it counts no error. -/
theorem isHonest_analyze (file : SourceFile) (preset : List Declaration) :
    (analyze file preset).IsHonest := by
  by_cases h : file.IsReadable
  · exact (analyze_of_isReadable preset h).1
  · rw [analyze_of_not_isReadable preset h]
    refine ⟨stored_readingErrors file, ?_⟩
    simp only [Option.isSome_none, Bool.false_eq_true, totalErrors_readingErrors, h]

/-- The namespace of a description is what its declarations build, behind those that are preset. -/
theorem result_analyze_eq_some_iff {file : SourceFile} {preset : List Declaration}
    {ns : Namespace} :
    (analyze file preset).result = some ns ↔
      file.IsReadable ∧
        Model.build file.name (preset ++ file.description.declarations) = .ok ns := by
  by_cases h : file.IsReadable
  · rw [(analyze_of_isReadable preset h).2]
    cases Model.build file.name (preset ++ file.description.declarations) <;>
      simp [h, Except.toOption]
  · rw [analyze_of_not_isReadable preset h]
    simp [h]

/-- Checking counts no error exactly if each of the stages has nothing to object to. -/
theorem totalErrors_check_eq_zero_iff (file : SourceFile) :
    (check file).totalErrors = 0 ↔
      (Token.lex file).2.totalErrors = 0 ∧
        (Description.ofTokens file (Token.lex file).1).2.totalErrors = 0 ∧
        ∃ m, Model.applyAll file.description.declarations (.initial file.name) = .ok () m ∧
          m.check = .ok () := by
  rw [check, ← (isHonest_analyze file []).isSome_result_iff, Option.isSome_iff_exists, ← and_assoc]
  simp only [result_analyze_eq_some_iff, exists_and_left, List.nil_append, SourceFile.IsReadable,
    Model.build]
  refine and_congr_right fun _ ↦ ?_
  cases Model.applyAll file.description.declarations (.initial file.name) with
  | error e m => simp
  | ok _ m => simp [Model.finalize_eq_ok_iff]

end StateGen
