import StateGen.Proofs.Digits
import StateGen.Proofs.Results
import StateGen.Template.Path

/-!
# The spelling of paths

A path is spelled as a name and steps: a dot and a name, or brackets around digits or around another
path. Digits alone between brackets are always an index. Reading accepts exactly these spellings,
and the text of a path is one of them, the one whose indices have no leading zeros.
-/

namespace StateGen

namespace Template

/-- A name: letters, digits and underscores. -/
def IsName (s : String) : Prop := s.toList ≠ [] ∧ ∀ c ∈ s.toList, Text.isWordChar c = true

namespace Path

/-! ## Spellings -/

/-- The spellings of steps. -/
inductive StepsSpell : List Step → List Char → Prop where
  | nil : StepsSpell [] []
  | key {name : String} {steps : List Step} {cs : List Char} :
    IsName name → StepsSpell steps cs → StepsSpell (.key name :: steps) ('.' :: (name.toList ++ cs))
  | index {digits : List Char} {steps : List Step} {cs : List Char} :
    Text.IsDigits digits → Text.decimal digits ≤ maxIndex → StepsSpell steps cs →
      StepsSpell (.index (Text.decimal digits) :: steps) ('[' :: (digits ++ ']' :: cs))
  /-- Between brackets stands a path, unless there are digits only. -/
  | lookup {root : String} {selector steps : List Step} {inner cs : List Char} :
    IsName root → StepsSpell selector inner → ¬ Text.IsDigits (root.toList ++ inner) →
      StepsSpell steps cs →
      StepsSpell (.lookup root selector :: steps) ('[' :: (root.toList ++ (inner ++ ']' :: cs)))

/-- The spellings of a path. -/
def Spells (p : Path) (cs : List Char) : Prop :=
  IsName p.root ∧ ∃ rest, cs = p.root.toList ++ rest ∧ StepsSpell p.steps rest

section

variable {steps : List Step} {cs rest : List Char} {root : String}

/-- Steps start with a dot or a bracket. -/
theorem StepsSpell.head? (h : StepsSpell steps cs) {c : Char} (hc : cs.head? = some c) :
    c = '.' ∨ c = '[' := by
  cases h with
  | nil => cases hc
  | key => exact .inl (by simpa using hc.symm)
  | index => exact .inr (by simpa using hc.symm)
  | lookup => exact .inr (by simpa using hc.symm)

/-- In front of steps, or of what follows them, a name ends. -/
private theorem StepsSpell.endsName (h : StepsSpell steps cs)
    (hrest : ∀ c, rest.head? = some c → Text.isWordChar c = false) (c : Char)
    (hc : (cs ++ rest).head? = some c) : Text.isWordChar c = false := by
  cases hcs : cs with
  | nil =>
    rw [hcs, List.nil_append] at hc
    exact hrest c hc
  | cons d ds =>
    obtain rfl : d = c := by simpa [hcs] using hc
    rcases h.head? (by rw [hcs]; rfl) with rfl | rfl
    · decide
    · decide

/-- A bracket around a path is told from one around an index by what stands behind its digits. -/
private theorem StepsSpell.not_index (h : StepsSpell steps cs) (hroot : IsName root)
    (hdigits : ¬ Text.IsDigits (root.toList ++ cs)) (rest : List Char) :
    ((root.toList ++ (cs ++ rest)).dropWhile Char.isDigit).head? ≠ some ']' := by
  by_cases hall : ∀ c ∈ root.toList, c.isDigit = true
  · rw [List.dropWhile_append_of_pos hall]
    cases hcs : cs with
    | nil => exact absurd ⟨by simp [hroot.1], by simpa [hcs] using hall⟩ hdigits
    | cons c cs' =>
      rcases h.head? (c := c) (by rw [hcs]; rfl) with rfl | rfl
      · simp
      · simp
  · -- The first character that is no digit belongs to the name.
    have hne : root.toList.dropWhile Char.isDigit ≠ [] := by
      rwa [Ne, List.dropWhile_eq_nil_iff]
    obtain ⟨c, behind, hcons⟩ := List.exists_cons_of_ne_nil hne
    have hmem : c ∈ root.toList.dropWhile Char.isDigit := by simp [hcons]
    have hc : Text.isWordChar c = true := hroot.2 c ((List.dropWhile_suffix _).subset hmem)
    rw [List.dropWhile_append, if_neg (by simp [hcons]), hcons]
    rintro ⟨⟩
    exact absurd hc (by decide)

end

/-! ## Reading -/

/-- A name is read up to the first character that cannot be part of it. -/
theorem nameFrom_eq_ok_iff {cs rest : List Char} {name : String} :
    (∃ hlt, nameFrom cs = .ok (name, ⟨rest, hlt⟩)) ↔
      IsName name ∧ cs = name.toList ++ rest ∧
        ∀ c, rest.head? = some c → Text.isWordChar c = false := by
  constructor
  · rintro ⟨hlt, h⟩
    cases cs with
    | nil => cases h
    | cons c cs =>
      rw [nameFrom] at h
      split at h
      · rename_i hc
        simp only [Except.ok.injEq, Prod.mk.injEq, Subtype.mk.injEq] at h
        obtain ⟨rfl, rfl⟩ := h
        refine ⟨⟨by simp, ?_⟩, ?_, Text.head?_dropWhile cs⟩
        · rw [String.toList_ofList]
          exact List.forall_mem_cons.2 ⟨hc, fun d hd ↦ List.mem_takeWhile_imp hd⟩
        · simp
      · cases h
  · rintro ⟨⟨hne, hword⟩, hcs, hrest⟩
    obtain ⟨c, run, hname⟩ := List.exists_cons_of_ne_nil hne
    obtain ⟨hc, hrun⟩ := List.forall_mem_cons.1 (hname ▸ hword)
    obtain rfl : cs = c :: (run ++ rest) := by rw [hcs, hname, List.cons_append]
    refine ⟨by simp only [List.length_cons, List.length_append]; omega, ?_⟩
    simp only [nameFrom, hc, if_true, Text.takeWhile_run hrun hrest,
      Text.dropWhile_run hrun hrest, ← hname, String.ofList_toList]

/-- An index is read if digits stand in front of a closing bracket. -/
theorem indexFrom?_eq_some_iff {cs digits rest : List Char} :
    (∃ hlt, indexFrom? cs = some (digits, ⟨rest, hlt⟩)) ↔
      Text.IsDigits digits ∧ cs = digits ++ ']' :: rest := by
  constructor
  · rintro ⟨hlt, h⟩
    rw [indexFrom?] at h
    split at h
    · rename_i after hafter
      split at h
      · cases h
      · rename_i hne
        simp only [Option.some.injEq, Prod.mk.injEq, Subtype.mk.injEq] at h
        obtain ⟨rfl, rfl⟩ := h
        refine ⟨⟨hne, fun c hc ↦ List.mem_takeWhile_imp hc⟩, ?_⟩
        rw [← hafter, List.takeWhile_append_dropWhile]
    · cases h
  · rintro ⟨⟨hne, hdigits⟩, rfl⟩
    have hbracket : ∀ c, (']' :: rest).head? = some c → c.isDigit = false := by
      rintro c ⟨⟩
      decide
    have htake := Text.takeWhile_run hdigits hbracket
    have hdrop := Text.dropWhile_run hdigits hbracket
    refine ⟨by simp only [List.length_cons, List.length_append]; omega, ?_⟩
    rw [indexFrom?]
    split
    · rename_i after hafter
      rw [hdrop] at hafter
      cases hafter
      simp [htake, hne]
    · rename_i hnone
      exact absurd hdrop (hnone rest)

theorem indexFrom?_eq_none {cs : List Char}
    (h : (cs.dropWhile Char.isDigit).head? ≠ some ']') : indexFrom? cs = none := by
  rw [indexFrom?]
  split
  · rename_i hafter
    exact absurd (by rw [hafter]; rfl) h
  · rfl

/-- Reading steps at the start of `cs` yields `steps` and leaves `rest`. -/
private def Takes (cs : List Char) (steps : List Step) (rest : List Char) : Prop :=
  ∃ hle, stepsFrom cs = .ok (steps, ⟨rest, hle⟩)

section

variable {cs after rest digits : List Char} {name : String} {selector steps : List Step}

private theorem takes_nil (h : ∀ c, rest.head? = some c → c = ']') : Takes rest [] rest := by
  refine ⟨Nat.le_refl _, ?_⟩
  rw [stepsFrom]
  · rintro cs rfl
    exact absurd (h '.' rfl) (by decide)
  · rintro cs rfl
    exact absurd (h '[' rfl) (by decide)

private theorem takes_key (hname : ∃ hlt, nameFrom cs = .ok (name, ⟨after, hlt⟩))
    (h : Takes after steps rest) : Takes ('.' :: cs) (.key name :: steps) rest := by
  obtain ⟨hlt, hname⟩ := hname
  obtain ⟨hle, hsteps⟩ := h
  refine ⟨by simp only [List.length_cons]; omega, ?_⟩
  rw [stepsFrom, hname]
  simp only [bind, Except.bind, hsteps]
  rfl

private theorem takes_index (hindex : ∃ hlt, indexFrom? cs = some (digits, ⟨after, hlt⟩))
    (hmax : Text.decimal digits ≤ maxIndex) (h : Takes after steps rest) :
    Takes ('[' :: cs) (.index (Text.decimal digits) :: steps) rest := by
  obtain ⟨hlt, hindex⟩ := hindex
  obtain ⟨hle, hsteps⟩ := h
  refine ⟨by simp only [List.length_cons]; omega, ?_⟩
  rw [stepsFrom, hindex]
  simp only [Nat.not_lt.2 hmax, if_false, bind, Except.bind, hsteps]
  rfl

private theorem takes_lookup {afterRoot : List Char} (hindex : indexFrom? cs = none)
    (hname : ∃ hlt, nameFrom cs = .ok (name, ⟨afterRoot, hlt⟩))
    (hselector : Takes afterRoot selector (']' :: after)) (h : Takes after steps rest) :
    Takes ('[' :: cs) (.lookup name selector :: steps) rest := by
  obtain ⟨hlt, hname⟩ := hname
  obtain ⟨hle', hselector⟩ := hselector
  obtain ⟨hle, hsteps⟩ := h
  have hlength : rest.length ≤ ('[' :: cs).length := by
    simp only [List.length_cons] at hle' ⊢
    omega
  refine ⟨hlength, ?_⟩
  rw [stepsFrom, hindex, hname]
  simp only [bind, Except.bind, hselector, hsteps]
  rfl

end

/-- Steps end in front of a closing bracket and at the end of the text. -/
private def EndsSteps (rest : List Char) : Prop := ∀ c, rest.head? = some c → c = ']'

private theorem endsSteps_bracket (rest : List Char) : EndsSteps (']' :: rest) := by
  rintro c ⟨⟩
  rfl

private theorem EndsSteps.endsName {rest : List Char} (h : EndsSteps rest) (c : Char)
    (hc : rest.head? = some c) : Text.isWordChar c = false := by
  rw [h c hc]
  decide

/-- Reading takes as many steps as are spelled. -/
private theorem takes_of_stepsSpell {steps : List Step} {cs : List Char} (h : StepsSpell steps cs)
    {rest : List Char} (hrest : EndsSteps rest) : Takes (cs ++ rest) steps rest := by
  induction h generalizing rest with
  | nil => exact takes_nil hrest
  | key hname hsteps ih =>
    rw [List.cons_append, List.append_assoc]
    exact takes_key (nameFrom_eq_ok_iff.2 ⟨hname, rfl, hsteps.endsName hrest.endsName⟩) (ih hrest)
  | index hdigits hmax hsteps ih =>
    rw [List.cons_append, List.append_assoc, List.cons_append]
    exact takes_index (indexFrom?_eq_some_iff.2 ⟨hdigits, rfl⟩) hmax (ih hrest)
  | @lookup root selector steps inner cs hroot hselector hdigits hsteps ihselector ih =>
    have hbracket := endsSteps_bracket (cs ++ rest)
    rw [List.cons_append, List.append_assoc, List.append_assoc, List.cons_append]
    refine takes_lookup (indexFrom?_eq_none (hselector.not_index hroot hdigits _))
      (nameFrom_eq_ok_iff.2 ⟨hroot, rfl, hselector.endsName hbracket.endsName⟩)
      (ihselector hbracket) (ih hrest)

/-- What reading takes spells its steps. -/
private theorem exists_stepsSpell_of_stepsFrom {cs : List Char} :
    ∀ {steps : List Step} {rest : List Char} {hle : rest.length ≤ cs.length},
      stepsFrom cs = .ok (steps, ⟨rest, hle⟩) → ∃ w, cs = w ++ rest ∧ StepsSpell steps w := by
  induction cs using stepsFrom.induct with
  | case1 afterDot ih =>
    intro steps rest hle h
    rw [stepsFrom] at h
    obtain ⟨⟨name, afterName, hname⟩, hread, h⟩ := bind_eq_ok h
    obtain ⟨⟨more, after, hmore⟩, hsteps, h⟩ := bind_eq_ok h
    obtain ⟨hname', rfl, -⟩ := nameFrom_eq_ok_iff.1 ⟨_, hread⟩
    obtain ⟨w, rfl, hw⟩ := ih _ hname hsteps
    cases h
    exact ⟨'.' :: (name.toList ++ w), by simp, .key hname' hw⟩
  | case2 inner digits after hindex hread htoo =>
    intro steps rest hle h
    rw [stepsFrom, hread] at h
    simp only [htoo, if_true] at h
    cases h
  | case3 inner digits after hindex hread hsmall ih =>
    intro steps rest hle h
    rw [stepsFrom, hread] at h
    simp only [hsmall, if_false] at h
    obtain ⟨⟨more, after', hmore⟩, hsteps, h⟩ := bind_eq_ok h
    obtain ⟨hdigits, rfl⟩ := indexFrom?_eq_some_iff.1 ⟨_, hread⟩
    obtain ⟨w, rfl, hw⟩ := ih hsteps
    cases h
    exact ⟨'[' :: (digits ++ ']' :: w), by simp, .index hdigits (Nat.not_lt.1 hsmall) hw⟩
  | case4 inner hnone ihroot ihbracket =>
    intro steps rest hle h
    rw [stepsFrom, hnone] at h
    obtain ⟨⟨root, afterRoot, hroot⟩, hread, h⟩ := bind_eq_ok h
    obtain ⟨⟨selector, afterSelector, hselector⟩, hselect, h⟩ := bind_eq_ok h
    simp only at h
    split at h
    · rename_i afterBracket _ _
      obtain ⟨⟨more, after, hmore⟩, hsteps, h⟩ := bind_eq_ok h
      obtain ⟨hroot', rfl, -⟩ := nameFrom_eq_ok_iff.1 ⟨_, hread⟩
      obtain ⟨w, rfl, hw⟩ := ihroot _ hroot hselect
      obtain ⟨v, rfl, hv⟩ := ihbracket _ hroot _ hselector _ rfl hsteps
      cases h
      refine ⟨'[' :: (root.toList ++ (w ++ ']' :: v)), by simp, .lookup hroot' hw ?_ hv⟩
      -- Digits alone would have been read as an index.
      intro hdigits
      obtain ⟨_, hsome⟩ := indexFrom?_eq_some_iff.2 ⟨hdigits, (List.append_assoc ..).symm⟩
      rw [hnone] at hsome
      cases hsome
    · cases h
  | case5 cs hdot hopen =>
    intro steps rest hle h
    rw [stepsFrom] at h
    · cases h
      exact ⟨[], rfl, .nil⟩
    · exact hdot
    · exact hopen

/-- Reading accepts exactly the spellings of paths. -/
theorem parse_eq_ok_iff {text : String} {p : Path} :
    parse text = .ok p ↔ p.Spells text.toList := by
  constructor
  · intro h
    obtain ⟨⟨root, afterRoot, hlt⟩, hread, h⟩ := bind_eq_ok h
    obtain ⟨⟨steps, after, hle⟩, hsteps, h⟩ := bind_eq_ok h
    obtain ⟨hroot, htext, -⟩ := nameFrom_eq_ok_iff.1 ⟨_, hread⟩
    obtain ⟨w, rfl, hw⟩ := exists_stepsSpell_of_stepsFrom hsteps
    cases after with
    | cons c after => cases h
    | nil =>
      cases h
      exact ⟨hroot, w, by rw [htext, List.append_nil], hw⟩
  · rintro ⟨hroot, rest, htext, hrest⟩
    have hends : EndsSteps [] := by
      rintro c ⟨⟩
    obtain ⟨hlt, hread⟩ := nameFrom_eq_ok_iff.2
      ⟨hroot, htext, by simpa using hrest.endsName hends.endsName⟩
    have htakes := takes_of_stepsSpell hrest hends
    rw [List.append_nil] at htakes
    obtain ⟨hle, hsteps⟩ := htakes
    rw [parse, hread]
    simp only [bind, Except.bind, hsteps]
    rfl

/-! ## Printing -/

/-- Steps that can be written down: their names are names, their indices fit into a machine word,
and no bracket holds a path that looks like an index. -/
inductive AreProper : List Step → Prop where
  | nil : AreProper []
  | key {name : String} {steps : List Step} :
    IsName name → AreProper steps → AreProper (.key name :: steps)
  | index {i : Nat} {steps : List Step} :
    i ≤ maxIndex → AreProper steps → AreProper (.index i :: steps)
  | lookup {root : String} {selector steps : List Step} :
    IsName root → AreProper selector → ¬ (Text.IsDigits root.toList ∧ selector = []) →
      AreProper steps → AreProper (.lookup root selector :: steps)

/-- A path that can be written down. -/
def IsProper (p : Path) : Prop := IsName p.root ∧ AreProper p.steps

/-- Only a name without steps behind it looks like an index. -/
private theorem StepsSpell.isDigits_iff {root : String} {selector : List Step} {inner : List Char}
    (h : StepsSpell selector inner) (hroot : IsName root) :
    Text.IsDigits (root.toList ++ inner) ↔ Text.IsDigits root.toList ∧ selector = [] := by
  constructor
  · rintro ⟨-, hdigits⟩
    obtain ⟨hname, hinner⟩ := List.forall_mem_append.1 hdigits
    refine ⟨⟨hroot.1, hname⟩, ?_⟩
    cases hcs : inner with
    | nil =>
      rw [hcs] at h
      cases h
      rfl
    | cons c cs =>
      have hdigit := hinner c (by simp [hcs])
      rcases h.head? (c := c) (by rw [hcs]; rfl) with rfl | rfl
      · exact absurd hdigit (by decide)
      · exact absurd hdigit (by decide)
  · rintro ⟨hdigits, rfl⟩
    cases h
    rwa [List.append_nil]

/-- The text of steps spells them. -/
theorem AreProper.stepsSpell {steps : List Step} (h : AreProper steps) :
    StepsSpell steps (displaySteps steps).toList := by
  induction h with
  | nil => exact .nil
  | @key name steps hname _ ih =>
    have htext : (displaySteps (.key name :: steps)).toList =
        '.' :: (name.toList ++ (displaySteps steps).toList) := by
      simp [displaySteps, Step.display]
    rw [htext]
    exact .key hname ih
  | @index i steps hmax _ ih =>
    have htext : (displaySteps (.index i :: steps)).toList =
        '[' :: (Nat.toDigits 10 i ++ ']' :: (displaySteps steps).toList) := by
      simp [displaySteps, Step.display]
    have hspell := StepsSpell.index (Text.isDigits_toDigits i)
      (by rwa [Text.decimal_toDigits]) ih
    rwa [Text.decimal_toDigits, ← htext] at hspell
  | @lookup root selector steps hroot _ hdigits _ ihselector ih =>
    have htext : (displaySteps (.lookup root selector :: steps)).toList =
        '[' :: (root.toList ++ ((displaySteps selector).toList ++
          ']' :: (displaySteps steps).toList)) := by
      simp [displaySteps, Step.display]
    rw [htext]
    exact .lookup hroot ihselector (fun h ↦ hdigits ((ihselector.isDigits_iff hroot).1 h)) ih

theorem StepsSpell.areProper {steps : List Step} {cs : List Char} (h : StepsSpell steps cs) :
    AreProper steps := by
  induction h with
  | nil => exact .nil
  | key hname _ ih => exact .key hname ih
  | index _ hmax _ ih => exact .index hmax ih
  | lookup hroot hselector hdigits _ ihselector ih =>
    exact .lookup hroot ihselector (fun h ↦ hdigits ((hselector.isDigits_iff hroot).2 h)) ih

/-- The text of a path spells it. -/
theorem spells_display {p : Path} (h : p.IsProper) : p.Spells p.display.toList := by
  refine ⟨h.1, _, ?_, h.2.stepsSpell⟩
  rw [display, String.toList_append]

theorem isProper_of_spells {p : Path} {cs : List Char} (h : p.Spells cs) : p.IsProper := by
  obtain ⟨hroot, _, _, hsteps⟩ := h
  exact ⟨hroot, hsteps.areProper⟩

/-! ## Leading zeros -/

/-- Whether the text goes on with digits and a closing bracket behind them. -/
def endsIndex (cs : List Char) : Bool :=
  !(cs.takeWhile Char.isDigit).isEmpty && (cs.dropWhile Char.isDigit).head? == some ']'

/-- The text without zeros that lead an index: each stands directly behind an opening bracket or
behind other such zeros, and more digits of the index follow it. `opened` tells whether the text
stands at such a place. -/
def withoutZeros (opened : Bool) : List Char → List Char
  | [] => []
  | c :: cs =>
    if opened && c == '0' && endsIndex cs then withoutZeros true cs
    else c :: withoutZeros (c == '[') cs

/-- Behind anything but an opening bracket nothing is taken away up to the next one. -/
private theorem withoutZeros_append {cs : List Char} (h : '[' ∉ cs) (rest : List Char) :
    withoutZeros false (cs ++ rest) = cs ++ withoutZeros false rest := by
  induction cs with
  | nil => rfl
  | cons c cs ih =>
    rw [List.mem_cons, not_or] at h
    have hbracket : (c == '[') = false := by simpa using Ne.symm h.1
    simp only [List.cons_append, withoutZeros, Bool.false_and, Bool.false_eq_true, if_false,
      hbracket, ih h.2]

/-- Nothing is taken away behind a bracket that holds no index. -/
private theorem withoutZeros_of_not_index {cs : List Char}
    (h : (cs.dropWhile Char.isDigit).head? ≠ some ']') :
    withoutZeros true cs = withoutZeros false cs := by
  cases cs with
  | nil => rfl
  | cons c cs =>
    have hkeep : ¬ (true && c == '0' && endsIndex cs) = true := by
      rintro hzero
      simp only [Bool.true_and, Bool.and_eq_true, beq_iff_eq, endsIndex] at hzero
      obtain ⟨rfl, -, hbracket⟩ := hzero
      exact h (by simpa using hbracket)
    rw [withoutZeros, if_neg hkeep, withoutZeros]
    rfl

/-- Between brackets the digits of the number remain. -/
private theorem withoutZeros_index {digits : List Char} (h : Text.IsDigits digits)
    (rest : List Char) :
    withoutZeros true (digits ++ ']' :: rest) =
      Nat.toDigits 10 (Text.decimal digits) ++ ']' :: withoutZeros false rest := by
  have hopen : ∀ c : Char, c.isDigit = true → c ≠ '[' := by
    rintro c hc rfl
    exact absurd hc (by decide)
  have hclose : withoutZeros false (']' :: rest) = ']' :: withoutZeros false rest := rfl
  obtain ⟨hne, hdigits⟩ := h
  induction digits with
  | nil => exact absurd rfl hne
  | cons c digits ih =>
    obtain ⟨hc, hmore⟩ := List.forall_mem_cons.1 hdigits
    have hkept : c :: withoutZeros (c == '[') (digits ++ ']' :: rest) =
        (c :: digits) ++ ']' :: withoutZeros false rest := by
      have hflag : (c == '[') = false := by simpa using hopen c hc
      rw [hflag, withoutZeros_append fun hmem ↦ hopen '[' (hmore _ hmem) rfl, hclose]
      rfl
    by_cases hzero : c = '0' ∧ digits ≠ []
    · -- A zero in front of further digits goes, and the number stays.
      obtain ⟨rfl, hbehind⟩ := hzero
      have hbracket : ∀ c, (']' :: rest).head? = some c → c.isDigit = false := by
        rintro c ⟨⟩
        decide
      have hends : endsIndex (digits ++ ']' :: rest) = true := by
        simp [endsIndex, Text.takeWhile_run hmore hbracket, Text.dropWhile_run hmore hbracket,
          hbehind]
      have hvalue : Text.decimal ('0' :: digits) = Text.decimal digits := rfl
      rw [List.cons_append, withoutZeros, if_pos (by simp [hends]), ih hbehind hmore, hvalue]
    · have hlast : c = '0' → digits = [] := by simpa using hzero
      have hkeep : ¬ (true && c == '0' && endsIndex (digits ++ ']' :: rest)) = true := by
        simp only [Bool.true_and, Bool.and_eq_true, beq_iff_eq, not_and]
        intro hc
        rw [hlast hc]
        simp [endsIndex]
      have hvalue : Nat.toDigits 10 (Text.decimal (c :: digits)) = c :: digits := by
        by_cases hc : c = '0'
        · rw [hc, hlast hc]
          rfl
        · exact Text.toDigits_decimal hdigits hc
      rw [List.cons_append, withoutZeros, if_neg hkeep, hkept, hvalue]

/-- The text of steps is any of their spellings without leading zeros. -/
private theorem StepsSpell.withoutZeros_eq {steps : List Step} {cs : List Char}
    (h : StepsSpell steps cs) (rest : List Char) :
    withoutZeros false (cs ++ rest) = (displaySteps steps).toList ++ withoutZeros false rest := by
  have hopen : ∀ cs : List Char, withoutZeros false ('[' :: cs) = '[' :: withoutZeros true cs :=
    fun _ ↦ rfl
  have hclose : ∀ cs : List Char, withoutZeros false (']' :: cs) = ']' :: withoutZeros false cs :=
    fun _ ↦ rfl
  have hname : ∀ {name : String}, IsName name → '[' ∉ name.toList := fun h hmem ↦
    absurd (h.2 '[' hmem) (by decide)
  induction h generalizing rest with
  | nil => rfl
  | @key name steps cs hkey _ ih =>
    have hdot : '[' ∉ '.' :: name.toList := by simpa using hname hkey
    rw [← List.cons_append, List.append_assoc, withoutZeros_append hdot, ih]
    simp [displaySteps, Step.display]
  | index hdigits _ _ ih =>
    rw [List.cons_append, List.append_assoc, List.cons_append, hopen, withoutZeros_index hdigits, ih]
    simp [displaySteps, Step.display]
  | lookup hroot hselector hdigits _ ihselector ih =>
    rw [List.cons_append, List.append_assoc, List.append_assoc, List.cons_append, hopen,
      withoutZeros_of_not_index (hselector.not_index hroot hdigits _),
      withoutZeros_append (hname hroot), ihselector, hclose, ih]
    simp [displaySteps, Step.display]

/-- The text of a path is any of its spellings without leading zeros. -/
theorem Spells.display_eq {p : Path} {cs : List Char} (h : p.Spells cs) :
    p.display.toList = withoutZeros false cs := by
  obtain ⟨hroot, rest, rfl, hrest⟩ := h
  have hname : '[' ∉ p.root.toList := fun hmem ↦ absurd (hroot.2 '[' hmem) (by decide)
  have hsteps := hrest.withoutZeros_eq []
  rw [List.append_nil, withoutZeros, List.append_nil] at hsteps
  rw [display, String.toList_append, withoutZeros_append hname, hsteps]

/-- Reading and printing paths undo each other. Reading accepts exactly the spellings of paths. What
it reads is printed as it was spelled, but for leading zeros of indices, and is read again from
there. Every path that can be written down at all is read from its text. -/
theorem parse_undoes_display :
    (∀ (text : String) (p : Path), parse text = .ok p ↔ p.Spells text.toList) ∧
    (∀ (text : String) (p : Path), parse text = .ok p →
      parse p.display = .ok p ∧ p.display.toList = withoutZeros false text.toList) ∧
    ∀ p : Path, p.IsProper → parse p.display = .ok p := by
  refine ⟨fun text p ↦ parse_eq_ok_iff, fun text p h ↦ ?_, fun p h ↦ ?_⟩
  · have hspells := parse_eq_ok_iff.1 h
    exact ⟨parse_eq_ok_iff.2 (spells_display (isProper_of_spells hspells)), hspells.display_eq⟩
  · exact parse_eq_ok_iff.2 (spells_display h)

/-- A bracket that holds an index with leading zeros, and one whose path starts with digits. -/
theorem parse_undoes_display_nested :
    ∃ p : Path, p.IsProper ∧ parse "a.b[007][12[0].x]" = .ok p ∧
      p.display.toList = "a.b[7][12[0].x]".toList ∧ parse p.display = .ok p := by
  let p : Path := ⟨"a", [.key "b", .index 7, .lookup "12" [.index 0, .key "x"]]⟩
  have hname (name : String) (hne : name.toList ≠ [])
      (hchars : name.toList.all Text.isWordChar = true) : IsName name :=
    ⟨hne, List.all_eq_true.1 hchars⟩
  have hzero : Text.IsDigits ['0'] := ⟨by simp, List.all_eq_true.1 rfl⟩
  have hseven : Text.IsDigits ['0', '0', '7'] := ⟨by simp, List.all_eq_true.1 rfl⟩
  have hselector := StepsSpell.index hzero (by decide) (.key (hname "x" (by simp) rfl) .nil)
  have hnot : ¬ Text.IsDigits ("12".toList ++ '[' :: (['0'] ++ ']' :: '.' :: ("x".toList ++ []))) :=
    fun h ↦ absurd (h.2 'x' (by simp)) (by decide)
  have hsteps : StepsSpell p.steps _ := .key (hname "b" (by simp) rfl)
    (.index hseven (by decide) (.lookup (hname "12" (by simp) rfl) hselector hnot .nil))
  have hspells : p.Spells "a.b[007][12[0].x]".toList :=
    ⟨hname "a" (by simp) rfl, _, by decide, hsteps⟩
  have hproper : p.IsProper := isProper_of_spells hspells
  have hparse : parse "a.b[007][12[0].x]" = .ok p := (parse_undoes_display.1 _ p).2 hspells
  refine ⟨p, hproper, hparse, ?_, parse_undoes_display.2.2 p hproper⟩
  rw [(parse_undoes_display.2.1 _ p hparse).2]
  decide

end Path

end Template

end StateGen
