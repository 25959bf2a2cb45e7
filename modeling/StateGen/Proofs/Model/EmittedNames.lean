import Mathlib.Data.List.Nodup
import StateGen.Proofs.Model.Publish

/-!
# The names that the generated code defines

Functions, macros and tables of the generated code are named by options, alone or with a suffix.
Every one of these names is a C identifier, but nothing keeps the values of two options apart, or
the value of an option from a word of C. What can go wrong is said in `OptionsApart`: the suffixes
rule out every other clash, and where no name was chosen by an option there is none.
-/

namespace StateGen

open Declaration

namespace Model

/-- The names that the generated code defines differ from each other and from those that it binds
already. -/
structure NamesApart (m : Model) : Prop where
  nodup : m.emittedNames.Nodup
  free : ∀ name ∈ m.emittedNames, Config.isReserved name = false

/-- The options that name the parts of the generated code do not get in each other's way. -/
structure OptionsApart (m : Model) : Prop where
  functions_nodup : (Config.functionKeys.map m.option).Nodup
  functions_free : ∀ key ∈ Config.functionKeys, Config.isReserved (m.option key) = false
  function_ne_helper : ∀ key ∈ Config.functionKeys, ∀ suffix ∈ helperSuffixes,
    m.option key ≠ m.option "fsm_struct" ++ "_" ++ suffix
  function_ne_table : ∀ key ∈ Config.functionKeys, ∀ tag ∈ ["state_enum", "event_enum"],
    m.option key ≠ m.option tag ++ "_names"
  tables_ne : m.option "state_enum" ≠ m.option "event_enum"

/-! ## Names with a suffix -/

/-- What follows the value of an option in the names that it is a part of. -/
def emittedSuffixes : List String := helperSuffixes.map ("_" ++ ·) ++ ["_names"]

/-- Names with different suffixes differ. -/
private theorem suffix_eq_of_append_eq {a b s t : String} (hs : s ∈ emittedSuffixes)
    (ht : t ∈ emittedSuffixes) (h : a ++ s = b ++ t) : s = t := by
  have hchars : a.toList ++ s.toList = b.toList ++ t.toList := by
    rw [← String.toList_append, h, String.toList_append]
  have hends : ∀ s ∈ emittedSuffixes, ∀ t ∈ emittedSuffixes,
      s.toList <:+ t.toList ∨ t.toList <:+ s.toList → s = t := by decide +kernel
  apply hends s hs t ht
  exact List.suffix_or_suffix_of_suffix ⟨_, hchars⟩ ⟨_, rfl⟩

/-- No reserved name ends like a name with a suffix. -/
private theorem isReserved_append {a s : String} (hs : s ∈ emittedSuffixes) :
    Config.isReserved (a ++ s) = false := by
  have hends : ∀ name ∈ Config.reservedNames, ∀ s ∈ emittedSuffixes,
      ¬ s.toList <:+ name.toList := by decide +kernel
  rw [Config.isReserved, Bool.eq_false_iff]
  intro hmem
  apply hends (a ++ s) (List.contains_iff_mem.1 hmem) s hs
  rw [String.toList_append]
  exact List.suffix_append ..

private theorem isIdentifier_append {a s : String} (ha : Text.isIdentifier a)
    (hs : s ∈ emittedSuffixes) : Text.isIdentifier (a ++ s) := by
  have hword : ∀ s ∈ emittedSuffixes, s.toList.all Text.isWordChar := by decide +kernel
  unfold Text.isIdentifier at ha ⊢
  rw [String.toList_append]
  cases h : a.toList with
  | nil =>
    rw [h] at ha
    cases ha
  | cons c cs =>
    rw [h] at ha
    simp only [Bool.and_eq_true] at ha
    simp only [List.cons_append, List.all_append, Bool.and_eq_true]
    exact ⟨ha.1, ha.2, hword s hs⟩

/-- The names of the helpers and the tables. -/
private def suffixedNames (m : Model) : List String :=
  helperSuffixes.map (m.option "fsm_struct" ++ "_" ++ ·)
    ++ [m.option "state_enum" ++ "_names", m.option "event_enum" ++ "_names"]

private theorem emittedNames_eq (m : Model) :
    m.emittedNames = Config.functionKeys.map m.option ++ m.suffixedNames := by
  rw [emittedNames, suffixedNames, List.append_assoc]

private theorem mem_suffixedNames_iff {m : Model} {name : String} :
    name ∈ m.suffixedNames ↔
      (∃ suffix ∈ helperSuffixes, name = m.option "fsm_struct" ++ "_" ++ suffix) ∨
        ∃ tag ∈ ["state_enum", "event_enum"], name = m.option tag ++ "_names" := by
  simp [suffixedNames, eq_comm]

/-- A helper or a table is named by an option for a tag, with a suffix. -/
private theorem exists_of_mem_suffixedNames {m : Model} {name : String}
    (h : name ∈ m.suffixedNames) :
    ∃ tag ∈ Config.tagKeys, ∃ s ∈ emittedSuffixes, name = m.option tag ++ s := by
  rcases mem_suffixedNames_iff.1 h with ⟨suffix, hsuffix, rfl⟩ | ⟨tag, htag, rfl⟩
  · refine ⟨"fsm_struct", by decide, "_" ++ suffix, ?_, String.append_assoc ..⟩
    exact List.mem_append_left _ (List.mem_map_of_mem hsuffix)
  · refine ⟨tag, ?_, "_names", List.mem_append_right _ List.mem_cons_self, rfl⟩
    exact List.mem_append_left ["fsm_struct"] htag

/-- Helpers and tables are told apart by their suffixes, and the tables by their tags. -/
private theorem nodup_suffixedNames_iff {m : Model} :
    m.suffixedNames.Nodup ↔ m.option "state_enum" ≠ m.option "event_enum" := by
  have hhelpers : (helperSuffixes.map (m.option "fsm_struct" ++ "_" ++ ·)).Nodup :=
    List.Nodup.map (fun s t hst ↦ (String.append_right_inj _).1 hst) (by decide)
  have hdisjoint (tag : String) {suffix : String} (hsuffix : suffix ∈ helperSuffixes) :
      m.option "fsm_struct" ++ "_" ++ suffix ≠ m.option tag ++ "_names" := by
    intro heq
    rw [String.append_assoc] at heq
    have hsame := suffix_eq_of_append_eq
      (List.mem_append_left _ (List.mem_map_of_mem hsuffix)) (by decide) heq
    have hnone : ∀ suffix ∈ helperSuffixes, "_" ++ suffix ≠ "_names" := by decide
    exact hnone suffix hsuffix hsame
  have htables : [m.option "state_enum" ++ "_names", m.option "event_enum" ++ "_names"].Nodup ↔
      m.option "state_enum" ≠ m.option "event_enum" := by
    simp [String.append_left_inj]
  rw [suffixedNames, List.nodup_append, htables]
  refine ⟨fun h ↦ h.2.1, fun h ↦ ⟨hhelpers, h, fun a ha b hb ↦ ?_⟩⟩
  obtain ⟨suffix, hsuffix, rfl⟩ := List.mem_map.1 ha
  rcases List.mem_cons.1 hb with rfl | hb
  · exact hdisjoint "state_enum" hsuffix
  · obtain rfl := List.mem_singleton.1 hb
    exact hdisjoint "event_enum" hsuffix

/-- The names of the generated code clash if and only if the values of options do. -/
theorem namesApart_iff (m : Model) : m.NamesApart ↔ m.OptionsApart := by
  have hnodup : m.emittedNames.Nodup ↔
      (Config.functionKeys.map m.option).Nodup ∧
        m.option "state_enum" ≠ m.option "event_enum" ∧
        ∀ key ∈ Config.functionKeys, m.option key ∉ m.suffixedNames := by
    rw [emittedNames_eq, List.nodup_append, nodup_suffixedNames_iff, List.forall_mem_map]
    simp only [ne_eq, forall_eq', imp_not_comm]
  have hfree : (∀ name ∈ m.emittedNames, Config.isReserved name = false) ↔
      ∀ key ∈ Config.functionKeys, Config.isReserved (m.option key) = false := by
    rw [emittedNames_eq, List.forall_mem_append, List.forall_mem_map]
    refine and_iff_left fun name hname ↦ ?_
    obtain ⟨tag, -, s, hs, rfl⟩ := exists_of_mem_suffixedNames hname
    exact isReserved_append hs
  constructor
  · rintro ⟨hnames, hreserved⟩
    obtain ⟨hfunctions, htables, hsuffixed⟩ := hnodup.1 hnames
    exact
      { functions_nodup := hfunctions
        functions_free := hfree.1 hreserved
        function_ne_helper := fun key hkey suffix hsuffix heq ↦
          hsuffixed key hkey (mem_suffixedNames_iff.2 (.inl ⟨suffix, hsuffix, heq⟩))
        function_ne_table := fun key hkey tag htag heq ↦
          hsuffixed key hkey (mem_suffixedNames_iff.2 (.inr ⟨tag, htag, heq⟩))
        tables_ne := htables }
  · intro h
    refine ⟨hnodup.2 ⟨h.functions_nodup, h.tables_ne, fun key hkey hmem ↦ ?_⟩,
      hfree.2 h.functions_free⟩
    rcases mem_suffixedNames_iff.1 hmem with ⟨suffix, hsuffix, heq⟩ | ⟨tag, htag, heq⟩
    · exact h.function_ne_helper key hkey suffix hsuffix heq
    · exact h.function_ne_table key hkey tag htag heq

/-! ## The values of options -/

section

variable {inputPath : String} {ds : List Declaration} {key : String}

private theorem mem_keys_of_mem_identifierKeys (h : key ∈ Config.identifierKeys) :
    key ∈ Config.keys := by
  have hkeys : ∀ key ∈ Config.identifierKeys, key ∈ Config.keys := by decide
  exact hkeys key h

/-- Whatever names a part of the generated code was checked, or is a default. -/
private theorem isIdentifier_option (hc : Consistent ds) (h : key ∈ Config.identifierKeys) :
    Text.isIdentifier ((declaredBy inputPath ds).option key) := by
  have hkey := mem_keys_of_mem_identifierKeys h
  rw [option_declaredBy hkey]
  exact (Config.isValid_identifier_iff h).1 (hc.isValid_optionOf hkey)

private theorem isIdentifier_emittedNames (hc : Consistent ds) {name : String}
    (h : name ∈ (declaredBy inputPath ds).emittedNames) : Text.isIdentifier name := by
  rw [emittedNames_eq, List.mem_append] at h
  rcases h with h | h
  · obtain ⟨key, hkey, rfl⟩ := List.mem_map.1 h
    exact isIdentifier_option hc (List.mem_of_mem_filter hkey)
  · obtain ⟨tag, htag, s, hs, rfl⟩ := exists_of_mem_suffixedNames h
    have htags : ∀ tag ∈ Config.tagKeys, tag ∈ Config.identifierKeys := by decide
    exact isIdentifier_append (isIdentifier_option hc (htags tag htag)) hs

/-- The defaults do not clash. -/
private theorem namesApart_initial : (initial "").NamesApart :=
  ⟨by decide +kernel, by decide +kernel⟩

private theorem namesApart_of_no_option
    (h : ∀ d ∈ ds, ∀ key value, d.kind = .config key value → key ∉ Config.identifierKeys) :
    (declaredBy inputPath ds).NamesApart := by
  have hoption : ∀ key ∈ Config.identifierKeys,
      (declaredBy inputPath ds).option key = (initial "").option key := by
    intro key hkey
    have hlast : lastOption ds key = none := by
      rw [lastOption, List.getLast?_eq_none_iff, List.filterMap_eq_nil_iff]
      intro d hd
      cases hkind : d.kind with
      | config k value =>
        have hne : k ≠ key := by
          rintro rfl
          exact h d hd k value hkind hkey
        simp [hne]
      | _ => rfl
    rw [initial_eq_declaredBy, option_declaredBy (mem_keys_of_mem_identifierKeys hkey),
      option_declaredBy (mem_keys_of_mem_identifierKeys hkey), optionOf, optionOf, hlast]
    rfl
  have hnames : (declaredBy inputPath ds).emittedNames = (initial "").emittedNames := by
    have hfunctions : Config.functionKeys.map (declaredBy inputPath ds).option =
        Config.functionKeys.map (initial "").option :=
      List.map_congr_left fun key hkey ↦ hoption key (List.mem_of_mem_filter hkey)
    rw [emittedNames, emittedNames, hfunctions, hoption _ (by decide), hoption _ (by decide),
      hoption _ (by decide)]
  obtain ⟨hnodup, hfree⟩ := namesApart_initial
  exact ⟨hnames ▸ hnodup, hnames ▸ hfree⟩

end

/-- Whatever was declared, the generated code defines C identifiers only. They clash, with each
other or with a reserved name, exactly if the values of options do, and so never where no option
names a part of the generated code. -/
theorem emittedNames_clash_iff (inputPath : String) (ds : List Declaration) :
    let m := (initial inputPath).applyEach ds
    (∀ name ∈ m.emittedNames, Text.isIdentifier name) ∧ (m.NamesApart ↔ m.OptionsApart) ∧
      ((∀ d ∈ ds, ∀ key value, d.kind = .config key value → key ∉ Config.identifierKeys) →
        m.NamesApart) := by
  intro m
  obtain ⟨accepted, hsub, hc, hm⟩ : ∃ accepted, accepted.Sublist ds ∧ Consistent accepted ∧
      m = declaredBy inputPath accepted := by
    simp only [m, initial_eq_declaredBy]
    exact applyEach_declaredBy ds consistent_nil
  clear_value m
  subst hm
  refine ⟨fun name hname ↦ isIdentifier_emittedNames hc hname, namesApart_iff _, fun h ↦ ?_⟩
  exact namesApart_of_no_option fun d hd ↦ h d (hsub.subset hd)

/-- A lamp whose last function has a name of its own. -/
private def lamp (free : String) : List Declaration :=
  [⟨.config "free_func" free, .none⟩, ⟨.state "off", .none⟩, ⟨.state "on", .none⟩,
    ⟨.transition "off" none "on", .none⟩, ⟨.initial "off", .none⟩]

/-- Machines are accepted although names of the generated code clash: two functions can have one
name, and a function can be called `int`. -/
theorem not_namesApart_of_finalize :
    (¬ ∀ inputPath ds ns, ((initial inputPath).applyEach ds).finalize = .ok ns →
        ((initial inputPath).applyEach ds).emittedNames.Nodup) ∧
      ¬ ∀ inputPath ds ns, ((initial inputPath).applyEach ds).finalize = .ok ns →
        ∀ name ∈ ((initial inputPath).applyEach ds).emittedNames,
          Config.isReserved name = false := by
  constructor
  · intro h
    have hcheck : ((initial "lamp.fsm").applyEach (lamp "fsm_init")).check = .ok () := by
      decide +kernel
    have hnodup := h _ _ _ (finalize_eq_ok_iff.2 ⟨hcheck, rfl⟩)
    revert hnodup
    decide +kernel
  · intro h
    have hcheck : ((initial "lamp.fsm").applyEach (lamp "int")).check = .ok () := by
      decide +kernel
    have hfree := h _ _ _ (finalize_eq_ok_iff.2 ⟨hcheck, rfl⟩) "int" (by decide +kernel)
    cases hfree

end Model

end StateGen
