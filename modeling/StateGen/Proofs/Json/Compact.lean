import StateGen.Proofs.Digits
import StateGen.Proofs.Json.Strings

/-!
# Reading compact JSON text

Compact text has no blanks, so a value in it is followed by a comma, by a closing bracket or by
nothing, and each of them ends a number. The reader therefore takes exactly the text of the value.
-/

namespace StateGen.Json

/-- What may follow a value in compact text. -/
def Closes (rest : List Char) : Prop :=
  ∀ c, rest.head? = some c → c = ',' ∨ c = ']' ∨ c = '\x7d'

variable {rest : List Char}

private theorem closes_nil : Closes [] := by
  intro c hc
  cases hc

private theorem closes_cons {c : Char} (h : c = ',' ∨ c = ']' ∨ c = '\x7d') :
    Closes (c :: rest) := by
  intro d hd
  obtain rfl : c = d := by simpa using hd
  exact h

private theorem Closes.not_digit (h : Closes rest) (c : Char) (hc : rest.head? = some c) :
    c.isDigit = false := by
  rcases h c hc with rfl | rfl | rfl <;> rfl

/-! ## Numbers -/

/-- Only the digits of zero start with a zero. -/
private theorem head?_toDigits_ne {n : Nat} (h : 0 < n) :
    (Nat.toDigits 10 n).head? ≠ some '0' := by
  induction n using Nat.strongRecOn with
  | ind n ih =>
    rcases Nat.lt_or_ge n 10 with hlt | hge
    · have hall : ∀ n < 10, 0 < n → n.digitChar ≠ '0' := by decide
      rw [Nat.toDigits_of_lt_base hlt]
      simpa using hall n hlt h
    · have hfront := ih (n / 10) (by omega) (by omega)
      obtain ⟨c, cs, hcons⟩ := List.exists_cons_of_ne_nil
        (Nat.toDigits_ne_nil (n := n / 10) (b := 10))
      rw [Nat.toDigits_of_base_le (by decide) hge, hcons]
      rwa [hcons] at hfront

private theorem digits?_run {ds : List Char} (h : Text.IsDigits ds) (hrest : Closes rest) :
    digits? (ds ++ rest) = some (ds, rest) := by
  rw [digits?, Text.takeWhile_run h.2 hrest.not_digit, Text.dropWhile_run h.2 hrest.not_digit]
  cases ds with
  | nil => exact absurd rfl h.1
  | cons d ds => rfl

private theorem integerPart?_toDigits (n : Nat) (hrest : Closes rest) :
    integerPart? (Nat.toDigits 10 n ++ rest) = some (Nat.toDigits 10 n, rest) := by
  have hdigits := Text.isDigits_toDigits n
  rcases Nat.eq_zero_or_pos n with rfl | hpos
  · rfl
  · have hhead := head?_toDigits_ne hpos
    obtain ⟨c, cs, hcons⟩ := List.exists_cons_of_ne_nil hdigits.1
    rw [hcons] at hdigits hhead ⊢
    rw [List.cons_append, integerPart?]
    · exact digits?_run hdigits hrest
    · intro _ heq
      exact hhead (congrArg some (List.cons.inj heq).1)

private theorem fraction?_closes (hrest : Closes rest) : fraction? rest = some ([], rest) := by
  cases rest with
  | nil => rfl
  | cons c cs =>
    have hpoint : c ≠ '.' := by
      rintro rfl
      exact absurd (hrest '.' rfl) (by decide)
    rw [fraction?]
    intro _ heq
    exact hpoint (List.cons.inj heq).1

private theorem exponent?_closes (hrest : Closes rest) : exponent? rest = some ([], rest) := by
  cases rest with
  | nil => rfl
  | cons c cs =>
    have hletter : (c == 'e' || c == 'E') = false := by
      rcases hrest c rfl with rfl | rfl | rfl <;> rfl
    simp [exponent?, hletter]

private theorem magnitude?_toDigits (n : Nat) (hrest : Closes rest) :
    magnitude? (Nat.toDigits 10 n ++ rest) = some (Nat.toDigits 10 n, rest) := by
  simp [magnitude?, integerPart?_toDigits n hrest, fraction?_closes hrest, exponent?_closes hrest]

/-- The characters of an integer: its digits, behind a sign if it is negative. -/
theorem toList_toString_int (n : Int) : (toString n).toList =
    if n < 0 then '-' :: Nat.toDigits 10 n.natAbs else Nat.toDigits 10 n.natAbs := by
  cases n with
  | ofNat m =>
    have hsign : ¬ Int.ofNat m < 0 := Int.not_lt.2 (Int.natCast_nonneg m)
    rw [if_neg hsign]
    exact Nat.toList_repr
  | negSucc m =>
    have htext : toString (Int.negSucc m) = "-" ++ Nat.repr (m + 1) := rfl
    rw [if_pos (Int.negSucc_lt_zero m), htext, String.toList_append, Nat.toList_repr]
    rfl

/-- In compact text the literal of an integer is read up to its end. -/
private theorem number?_toString (n : Int) (hrest : Closes rest) :
    number? ((toString n).toList ++ rest) = some ((toString n).toList, rest) := by
  rw [toList_toString_int]
  split
  · rw [List.cons_append, number?, magnitude?_toDigits _ hrest]
    rfl
  · obtain ⟨c, cs, hcons⟩ := List.exists_cons_of_ne_nil (Text.isDigits_toDigits n.natAbs).1
    have hdigit : c.isDigit = true := (Text.isDigits_toDigits n.natAbs).2 c (by simp [hcons])
    have hmagnitude := magnitude?_toDigits n.natAbs hrest
    rw [hcons] at hmagnitude ⊢
    rw [List.cons_append, number?]
    · exact hmagnitude
    · intro _ heq
      rw [(List.cons.inj heq).1] at hdigit
      exact absurd hdigit (by decide)

/-! ## Trees -/

/-- A tree whose numbers are integers, as are all numbers that are written. -/
inductive IsIntegral : Json → Prop where
  | null : IsIntegral .null
  | bool (b : Bool) : IsIntegral (.bool b)
  | int (n : Int) : IsIntegral (.ofInt n)
  | str (s : String) : IsIntegral (.str s)
  | arr {items : List Json} (each : ∀ v ∈ items, IsIntegral v) : IsIntegral (.arr items)
  | obj {members : List (String × Json)} (each : ∀ m ∈ members, IsIntegral m.2) :
    IsIntegral (.obj members)

/-- The characters of a tree in compact form. -/
def text (v : Json) : List Char := v.compact.toList

/-- The characters of an object member in compact form. -/
def memberText (m : String × Json) : List Char :=
  '"' :: m.1.toList.flatMap escape ++ '"' :: ':' :: m.2.text

theorem memberText_append (key : String) (v : Json) (rest : List Char) :
    memberText (key, v) ++ rest =
      '"' :: (key.toList.flatMap escape ++ '"' :: ':' :: (v.text ++ rest)) := by
  simp [memberText]

theorem length_text_lt (key : String) (v : Json) :
    v.text.length < (memberText (key, v)).length := by
  simp only [memberText, List.length_append, List.length_cons]
  omega

/-- Texts with commas between them. -/
def commaText (texts : List (List Char)) : List Char := [','].intercalate texts

theorem text_str (s : String) : (Json.str s).text = '"' :: s.toList.flatMap escape ++ ['"'] := by
  rw [text, compact, quote, String.toList_ofList]

theorem text_arr (items : List Json) :
    (Json.arr items).text = '[' :: commaText (items.map text) ++ [']'] := by
  have hitems : (compactItems items).map String.toList = items.map text := by
    induction items with
    | nil => rfl
    | cons v vs ih => rw [compactItems, List.map_cons, ih, List.map_cons, text]
  rw [text, compact, String.toList_append, String.toList_append, String.toList_intercalate, hitems]
  rfl

theorem text_obj (members : List (String × Json)) :
    (Json.obj members).text = '\x7b' :: commaText (members.map memberText) ++ ['\x7d'] := by
  have hmembers : (compactMembers members).map String.toList = members.map memberText := by
    induction members with
    | nil => rfl
    | cons m ms ih =>
      obtain ⟨key, v⟩ := m
      rw [compactMembers, List.map_cons, ih, List.map_cons, memberText]
      simp [quote, text]
  rw [text, compact, String.toList_append, String.toList_append, String.toList_intercalate,
    hmembers]
  rfl

theorem commaText_cons_cons (t u : List Char) (texts : List (List Char)) :
    commaText (t :: u :: texts) = t ++ ',' :: commaText (u :: texts) := by
  simp [commaText, List.intercalate_cons_cons]

/-! ## Reading trees -/

/-- How a value can start in compact text. -/
def StartsValue (c : Char) : Prop := c ∈ ['"', '[', '\x7b', 'n', 't', 'f', '-'] ∨ c.isDigit = true

private theorem StartsValue.skipBlanks {c : Char} (h : StartsValue c) (cs : List Char) :
    skipBlanks (c :: cs) = c :: cs := by
  have hblank : isBlank c = false := by
    rcases h with h | h
    · simp only [List.mem_cons, List.not_mem_nil, or_false] at h
      rcases h with rfl | rfl | rfl | rfl | rfl | rfl | rfl <;> rfl
    · rw [Bool.eq_false_iff]
      intro hblank
      simp only [isBlank, Bool.or_eq_true, beq_iff_eq] at hblank
      rcases hblank with ((rfl | rfl) | rfl) | rfl <;> exact absurd h (by decide)
  rw [Json.skipBlanks, List.dropWhile_cons, hblank]
  rfl

private theorem StartsValue.ne_bracket {c : Char} (h : StartsValue c) : c ≠ ']' := by
  rintro rfl
  exact absurd h (by simp [StartsValue])

/-- A value whose compact text reads as the value, whatever follows it there. -/
structure Legible (v : Json) : Prop where
  starts : ∃ c cs, v.text = c :: cs ∧ StartsValue c
  reads (fuel : Nat) (rest : List Char) (enough : 2 * v.text.length < fuel)
    (closes : Closes rest) :
    ∃ raw, Raw.value? fuel (v.text ++ rest) = some (raw, rest) ∧ raw.toJson? = some v

private theorem legible_null : Legible .null where
  starts := ⟨'n', ['u', 'l', 'l'], rfl, .inl (by decide)⟩
  reads fuel rest enough _ := by
    obtain ⟨fuel, rfl⟩ : ∃ k, fuel = k + 1 := ⟨fuel - 1, by omega⟩
    exact ⟨.null, rfl, rfl⟩

private theorem legible_str (s : String) : Legible (.str s) where
  starts := ⟨_, _, text_str s, .inl (by decide)⟩
  reads fuel rest enough _ := by
    obtain ⟨fuel, rfl⟩ : ∃ k, fuel = k + 1 := ⟨fuel - 1, by omega⟩
    refine ⟨.str (String.ofList (s.toList.flatMap escape)), ?_, ?_⟩
    · rw [text_str, List.append_assoc, List.cons_append, Raw.value?, List.singleton_append,
        stringLiteral?_quoted]
      rfl
    · rw [Raw.toJson?, unescape?_escaped]
      rfl

private theorem legible_bool (b : Bool) : Legible (.bool b) where
  starts := by
    cases b with
    | false => exact ⟨'f', ['a', 'l', 's', 'e'], rfl, .inl (by decide)⟩
    | true => exact ⟨'t', ['r', 'u', 'e'], rfl, .inl (by decide)⟩
  reads fuel rest enough _ := by
    obtain ⟨fuel, rfl⟩ : ∃ k, fuel = k + 1 := ⟨fuel - 1, by omega⟩
    cases b with
    | false => exact ⟨.bool false, rfl, rfl⟩
    | true => exact ⟨.bool true, rfl, rfl⟩

/-- What starts like a number is read as one. -/
private theorem value?_number {c : Char} (hc : c = '-' ∨ c.isDigit = true) (fuel : Nat)
    (cs : List Char) : Raw.value? (fuel + 1) (c :: cs) =
      (number? (c :: cs)).map fun (ds, after) ↦ (.number (String.ofList ds), after) := by
  have hne {d : Char} (hd : d ≠ '-' ∧ d.isDigit = false) : c ≠ d := by
    rintro rfl
    rcases hc with rfl | hc
    · exact hd.1 rfl
    · exact absurd hc (by simp [hd.2])
  rw [Raw.value?]
  all_goals
    intro _ heq
    exact hne (by decide) (List.cons.inj heq).1

private theorem legible_int (n : Int) : Legible (.ofInt n) := by
  have htext : (Json.ofInt n).text = (toString n).toList := rfl
  obtain ⟨c, cs, hcons, hc⟩ : ∃ c cs, (toString n).toList = c :: cs ∧
      (c = '-' ∨ c.isDigit = true) := by
    rw [toList_toString_int]
    split
    · exact ⟨_, _, rfl, .inl rfl⟩
    · have hdigits := Text.isDigits_toDigits n.natAbs
      obtain ⟨c, cs, hcons⟩ := List.exists_cons_of_ne_nil hdigits.1
      exact ⟨c, cs, hcons, .inr (hdigits.2 c (by simp [hcons]))⟩
  refine ⟨⟨c, cs, htext.trans hcons, hc.imp_left fun h ↦ by simp [h]⟩, ?_⟩
  intro fuel rest enough closes
  obtain ⟨fuel, rfl⟩ : ∃ k, fuel = k + 1 := ⟨fuel - 1, by omega⟩
  have hread := number?_toString n closes
  refine ⟨.number (toString n), ?_, rfl⟩
  rw [hcons, List.cons_append] at hread
  rw [htext, hcons, List.cons_append, value?_number hc, hread, ← hcons, Option.map_some]
  dsimp only
  rw [String.ofList_toList]

private theorem Legible.skipBlanks {v : Json} (h : v.Legible) (rest : List Char) :
    Json.skipBlanks (v.text ++ rest) = v.text ++ rest := by
  obtain ⟨c, cs, htext, hc⟩ := h.starts
  rw [htext, List.cons_append, hc.skipBlanks]

section

variable {fuel : Nat} {cs more : List Char} {raw : Raw} {raws : List Raw}

/-- In front of a comma another element is read. -/
private theorem items?_comma
    (hread : Raw.value? fuel (Json.skipBlanks cs) = some (raw, ',' :: more))
    (hreads : Raw.items? fuel more = some (raws, rest)) :
    Raw.items? (fuel + 1) cs = some (raw :: raws, rest) := by
  rw [Raw.items?, hread]
  show (Raw.items? fuel more).bind _ = _
  rw [hreads]
  rfl

/-- The closing bracket ends the elements. -/
private theorem items?_bracket
    (hread : Raw.value? fuel (Json.skipBlanks cs) = some (raw, ']' :: rest)) :
    Raw.items? (fuel + 1) cs = some ([raw], rest) := by
  rw [Raw.items?, hread]
  rfl

/-- Behind an opening bracket that is not closed at once stand elements. -/
private theorem value?_arr {c : Char} (hc : c ≠ ']') (hskip : Json.skipBlanks more = c :: cs)
    (hreads : Raw.items? fuel (c :: cs) = some (raws, rest)) :
    Raw.value? (fuel + 1) ('[' :: more) = some (.arr raws, rest) := by
  rw [Raw.value?, hskip]
  split
  · next heq => exact absurd (List.cons.inj heq).1 hc
  · rw [hreads]
    rfl

end

/-- A list of texts starts with the first one. -/
private theorem commaText_cons (t : List Char) (texts : List (List Char)) :
    ∃ more, commaText (t :: texts) = t ++ more := by
  cases texts with
  | nil => exact ⟨[], by simp [commaText]⟩
  | cons u texts => exact ⟨_, commaText_cons_cons t u texts⟩

/-- Array elements are read one by one up to the closing bracket. -/
private theorem items?_commaText {v : Json} {vs : List Json} (h : ∀ w ∈ v :: vs, Legible w)
    (fuel : Nat) (rest : List Char)
    (enough : 2 * (commaText ((v :: vs).map text)).length + 1 < fuel) :
    ∃ raws, Raw.items? fuel (commaText ((v :: vs).map text) ++ ']' :: rest) = some (raws, rest) ∧
      Raw.itemsToJson? raws = some (v :: vs) := by
  obtain ⟨fuel, rfl⟩ : ∃ k, fuel = k + 1 := ⟨fuel - 1, by omega⟩
  have hv := h v List.mem_cons_self
  induction vs generalizing v fuel with
  | nil =>
    have hone : commaText ([v].map text) = v.text := List.intercalate_singleton
    rw [hone] at enough ⊢
    obtain ⟨raw, hread, hjson⟩ := hv.reads fuel (']' :: rest) (by omega)
      (closes_cons (by decide))
    refine ⟨[raw], items?_bracket ?_, ?_⟩
    · rwa [hv.skipBlanks]
    · rw [Raw.itemsToJson?, hjson]
      rfl
  | cons w ws ih =>
    have htexts : commaText ((v :: w :: ws).map text) =
        v.text ++ ',' :: commaText ((w :: ws).map text) := commaText_cons_cons ..
    rw [htexts, List.length_append, List.length_cons] at enough
    rw [htexts, List.append_assoc, List.cons_append]
    obtain ⟨raw, hread, hjson⟩ := hv.reads fuel (',' :: (commaText ((w :: ws).map text) ++
      ']' :: rest)) (by omega) (closes_cons (by decide))
    obtain ⟨k, rfl⟩ : ∃ k, fuel = k + 1 := ⟨fuel - 1, by omega⟩
    obtain ⟨raws, hreads, hjsons⟩ := ih (fun u hu ↦ h u (List.mem_cons_of_mem v hu)) k (by omega)
      (h w (by simp))
    refine ⟨raw :: raws, items?_comma ?_ hreads, ?_⟩
    · rwa [hv.skipBlanks]
    · rw [Raw.itemsToJson?, hjson, hjsons]
      rfl

private theorem legible_arr {items : List Json} (h : ∀ v ∈ items, Legible v) :
    Legible (.arr items) where
  starts := ⟨_, _, text_arr items, .inl (by decide)⟩
  reads fuel rest enough closes := by
    obtain ⟨fuel, rfl⟩ : ∃ k, fuel = k + 1 := ⟨fuel - 1, by omega⟩
    rw [text_arr, List.length_append, List.length_cons] at enough
    rw [text_arr, List.append_assoc, List.cons_append, List.singleton_append]
    cases items with
    | nil => exact ⟨.arr [], rfl, rfl⟩
    | cons v vs =>
      obtain ⟨raws, hreads, hjsons⟩ := items?_commaText h fuel rest (by omega)
      obtain ⟨c, cs, hstart, hc⟩ := (h v List.mem_cons_self).starts
      obtain ⟨more, hmore⟩ := commaText_cons v.text (vs.map text)
      have htext : commaText ((v :: vs).map text) ++ ']' :: rest =
          c :: (cs ++ more ++ ']' :: rest) := by
        rw [List.map_cons, hmore, hstart]
        rfl
      rw [htext] at hreads ⊢
      refine ⟨.arr raws, value?_arr hc.ne_bracket (hc.skipBlanks _) hreads, ?_⟩
      rw [Raw.toJson?, hjsons]
      rfl

section

variable {fuel : Nat} {behind more : List Char} {raw : Raw} {raws : List (String × Raw)}

/-- In front of a comma another member is read. -/
private theorem members?_comma (key : String)
    (hread : Raw.value? fuel (Json.skipBlanks behind) = some (raw, ',' :: more))
    (hreads : Raw.members? fuel more = some (raws, rest)) :
    Raw.members? (fuel + 1) ('"' :: (key.toList.flatMap escape ++ '"' :: ':' :: behind)) =
      some ((String.ofList (key.toList.flatMap escape), raw) :: raws, rest) := by
  rw [Raw.members?]
  show (stringLiteral? _).bind _ = _
  rw [stringLiteral?_quoted]
  show (Raw.value? fuel (Json.skipBlanks behind)).bind _ = _
  rw [hread]
  show (Raw.members? fuel more).bind _ = _
  rw [hreads]
  rfl

/-- The closing brace ends the members. -/
private theorem members?_brace (key : String)
    (hread : Raw.value? fuel (Json.skipBlanks behind) = some (raw, '\x7d' :: rest)) :
    Raw.members? (fuel + 1) ('"' :: (key.toList.flatMap escape ++ '"' :: ':' :: behind)) =
      some ([(String.ofList (key.toList.flatMap escape), raw)], rest) := by
  rw [Raw.members?]
  show (stringLiteral? _).bind _ = _
  rw [stringLiteral?_quoted]
  show (Raw.value? fuel (Json.skipBlanks behind)).bind _ = _
  rw [hread]
  rfl

/-- Behind an opening brace in front of a key stand members. -/
private theorem value?_obj (hreads : Raw.members? fuel ('"' :: more) = some (raws, rest)) :
    Raw.value? (fuel + 1) ('\x7b' :: '"' :: more) = some (.obj raws, rest) := by
  rw [Raw.value?]
  show (Raw.members? fuel ('"' :: more)).map _ = _
  rw [hreads]
  rfl

end

/-- Object members are read one by one up to the closing brace. -/
private theorem members?_commaText {m : String × Json} {ms : List (String × Json)}
    (h : ∀ n ∈ m :: ms, Legible n.2) (fuel : Nat) (rest : List Char)
    (enough : 2 * (commaText ((m :: ms).map memberText)).length + 1 < fuel) :
    ∃ raws, Raw.members? fuel (commaText ((m :: ms).map memberText) ++ '\x7d' :: rest) =
        some (raws, rest) ∧ Raw.membersToJson? raws = some (m :: ms) := by
  obtain ⟨fuel, rfl⟩ : ∃ k, fuel = k + 1 := ⟨fuel - 1, by omega⟩
  obtain ⟨key, v⟩ := m
  have hv : Legible v := h (key, v) List.mem_cons_self
  have hlength := length_text_lt key v
  induction ms generalizing key v fuel with
  | nil =>
    have hone : commaText ([(key, v)].map memberText) = memberText (key, v) :=
      List.intercalate_singleton
    rw [hone] at enough
    rw [hone, memberText_append]
    obtain ⟨raw, hread, hjson⟩ := hv.reads fuel ('\x7d' :: rest) (by omega)
      (closes_cons (by decide))
    refine ⟨[(String.ofList (key.toList.flatMap escape), raw)], members?_brace key ?_, ?_⟩
    · rwa [hv.skipBlanks]
    · rw [Raw.membersToJson?, unescape?_escaped, hjson]
      rfl
  | cons n ms ih =>
    obtain ⟨nextKey, w⟩ := n
    have htexts : commaText (((key, v) :: (nextKey, w) :: ms).map memberText) =
        memberText (key, v) ++ ',' :: commaText (((nextKey, w) :: ms).map memberText) :=
      commaText_cons_cons ..
    rw [htexts, List.length_append, List.length_cons] at enough
    rw [htexts, List.append_assoc, List.cons_append, memberText_append]
    obtain ⟨raw, hread, hjson⟩ := hv.reads fuel
      (',' :: (commaText (((nextKey, w) :: ms).map memberText) ++ '\x7d' :: rest)) (by omega)
      (closes_cons (by decide))
    obtain ⟨k, rfl⟩ : ∃ k, fuel = k + 1 := ⟨fuel - 1, by omega⟩
    obtain ⟨raws, hreads, hjsons⟩ := ih k nextKey w
      (fun u hu ↦ h u (List.mem_cons_of_mem _ hu)) (by omega) (h (nextKey, w) (by simp))
      (length_text_lt nextKey w)
    refine ⟨(String.ofList (key.toList.flatMap escape), raw) :: raws,
      members?_comma key ?_ hreads, ?_⟩
    · rwa [hv.skipBlanks]
    · rw [Raw.membersToJson?, unescape?_escaped, hjson, hjsons]
      rfl

private theorem legible_obj {members : List (String × Json)} (h : ∀ m ∈ members, Legible m.2) :
    Legible (.obj members) where
  starts := ⟨_, _, text_obj members, .inl (by decide)⟩
  reads fuel rest enough closes := by
    obtain ⟨fuel, rfl⟩ : ∃ k, fuel = k + 1 := ⟨fuel - 1, by omega⟩
    rw [text_obj, List.length_append, List.length_cons] at enough
    rw [text_obj, List.append_assoc, List.cons_append, List.singleton_append]
    cases members with
    | nil => exact ⟨.obj [], rfl, rfl⟩
    | cons m ms =>
      obtain ⟨raws, hreads, hjsons⟩ := members?_commaText h fuel rest (by omega)
      obtain ⟨more, hmore⟩ := commaText_cons (memberText m) (ms.map memberText)
      rw [List.map_cons, hmore, memberText] at hreads ⊢
      refine ⟨.obj raws, value?_obj hreads, ?_⟩
      rw [Raw.toJson?, hjsons]
      rfl

/-- Trees whose numbers are integers are legible. -/
theorem IsIntegral.legible {v : Json} (h : v.IsIntegral) : v.Legible := by
  induction h with
  | null => exact legible_null
  | bool b => exact legible_bool b
  | int n => exact legible_int n
  | str s => exact legible_str s
  | arr _ ih => exact legible_arr ih
  | obj _ ih => exact legible_obj ih

/-- The compact text of a tree reads as the tree. -/
theorem parse?_compact {v : Json} (h : v.IsIntegral) : parse? v.compact = some v := by
  obtain ⟨raw, hread, hjson⟩ := h.legible.reads (2 * v.text.length + 2) [] (by omega) closes_nil
  have hskip := h.legible.skipBlanks []
  rw [List.append_nil] at hread hskip
  have hraw : Raw.parse? v.compact = some raw := by
    show (Raw.value? (2 * v.text.length + 2) (skipBlanks v.text)).bind _ = _
    rw [hskip, hread]
    rfl
  rw [parse?, hraw]
  exact hjson

end StateGen.Json
