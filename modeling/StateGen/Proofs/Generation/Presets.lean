import StateGen.Proofs.Namespace

/-!
# What presets change

The output path presets the name and the guard of the header, ahead of everything that a description
declares. Setting options changes options alone, a later setting wins, and options keep their order.
So two output paths lead to namespaces that differ at most in these two values, and a description
that sets one of them itself decides it.
-/

namespace StateGen

open Declaration

namespace Model

variable {inputPath : String} {preset ds : List Declaration}

/-- Setting options first changes nothing but the options. -/
theorem declaredBy_append (h : OnlyOptions preset) :
    declaredBy inputPath (preset ++ ds) =
      { declaredBy inputPath ds with
        options := (declaredBy inputPath (preset ++ ds)).options } := by
  have hstates : stateNames (preset ++ ds) = stateNames ds := h.filterMap_append fun _ _ ↦ rfl
  have hevents : eventNames (preset ++ ds) = eventNames ds := h.filterMap_append fun _ _ ↦ rfl
  have hinitial : initialNames (preset ++ ds) = initialNames ds := h.filterMap_append fun _ _ ↦ rfl
  have hlinks (source : String) : linksFrom (preset ++ ds) source = linksFrom ds source :=
    h.filterMap_append fun _ _ ↦ rfl
  have hguards (target : HookTarget) : guardsOn (preset ++ ds) target = guardsOn ds target :=
    h.filterMap_append fun _ _ ↦ rfl
  have hcallbacks (target : HookTarget) :
      callbacksOn (preset ++ ds) target = callbacksOn ds target :=
    h.filterMap_append fun _ _ ↦ rfl
  have hguardUses : guardUses (preset ++ ds) = guardUses ds := h.filterMap_append fun _ _ ↦ rfl
  have hcallbackUses : callbackUses (preset ++ ds) = callbackUses ds :=
    h.filterMap_append fun _ _ ↦ rfl
  have hedges : edgesDeclaredBy (preset ++ ds) = edgesDeclaredBy ds := by
    funext source
    simp only [edgesDeclaredBy, hstates, hlinks, hguards]
  have hstyle : styleDeclaredBy (preset ++ ds) = styleDeclaredBy ds := by
    simp only [styleDeclaredBy, hevents, h.hasLink_append]
  simp only [declaredBy, hstates, hevents, hinitial, hguards, hcallbacks, hguardUses,
    hcallbackUses, hedges, hstyle]

/-- What a namespace holds behind the options. -/
def entriesBehindOptions (m : Model) : List (String × Value) :=
  [("input_path", .str m.inputPath)] ++ (Status.all.map fun s ↦ (s.namespaceKey, .int s.code))
    ++ m.tableEntries ++ m.derivedEntries

/-- A namespace begins with the options, in the order of their defaults. -/
theorem root_publish_declaredBy (inputPath : String) (ds : List Declaration) :
    (declaredBy inputPath ds).publish.root =
      .map ⟨Config.defaults.map (fun o ↦ (o.1, .str ((lastOption ds o.1).getD o.2)))
        ++ (declaredBy inputPath ds).entriesBehindOptions⟩ := by
  have hoptions : (declaredBy inputPath ds).options.entries =
      Config.defaults.map fun o ↦ (o.1, (lastOption ds o.1).getD o.2) := rfl
  simp only [publish, configEntries, entriesBehindOptions, hoptions, List.map_map,
    Function.comp_def, List.append_assoc]

/-- The only option that reaches anything else is the order of the callbacks. -/
theorem entriesBehindOptions_append (h : OnlyOptions preset)
    (horder : lastOption preset "callback_order" = none) :
    (declaredBy inputPath (preset ++ ds)).entriesBehindOptions =
      (declaredBy inputPath ds).entriesBehindOptions := by
  have hkey : "callback_order" ∈ Config.keys := by decide
  have hcallbackOrder : (declaredBy inputPath (preset ++ ds)).callbackOrder =
      (declaredBy inputPath ds).callbackOrder := by
    simp only [callbackOrder, option_declaredBy hkey, optionOf, lastOption_append, horder,
      Option.or_none]
  rw [declaredBy_append h] at hcallbackOrder ⊢
  simp only [entriesBehindOptions, derivedEntries, hcallbackOrder]
  rfl

end Model

/-! ## Agreement of namespaces -/

namespace Namespace

variable {keys : List String} {ns ns' ns'' : Namespace}

/-- Two namespaces have the same keys in the same order, and hold the same under all but some of
them. -/
def AgreeBut (keys : List String) (ns ns' : Namespace) : Prop :=
  ∃ fields fields' : OrderedMap Value, ns.root = .map fields ∧ ns'.root = .map fields' ∧
    fields.keys = fields'.keys ∧
    fields.entries.filter (·.1 ∉ keys) = fields'.entries.filter (·.1 ∉ keys)

theorem AgreeBut.symm (h : AgreeBut keys ns ns') : AgreeBut keys ns' ns := by
  obtain ⟨fields, fields', hroot, hroot', hkeys, hentries⟩ := h
  exact ⟨fields', fields, hroot', hroot, hkeys.symm, hentries.symm⟩

theorem AgreeBut.trans (h : AgreeBut keys ns ns') (h' : AgreeBut keys ns' ns'') :
    AgreeBut keys ns ns'' := by
  obtain ⟨fields, fields', hroot, hroot', hkeys, hentries⟩ := h
  obtain ⟨_, fields'', hmiddle, hroot'', hkeys', hentries'⟩ := h'
  rw [hroot'] at hmiddle
  cases hmiddle
  exact ⟨fields, fields'', hroot, hroot'', hkeys.trans hkeys', hentries.trans hentries'⟩

end Namespace

variable {inputPath : String} {preset ds : List Declaration} {keys : List String}

/-- Options that are set ahead of declarations reach the namespace under their own keys only. -/
theorem Model.agreeBut_append (h : OnlyOptions preset)
    (hpreset : ∀ key ∉ keys, lastOption preset key = none) (horder : "callback_order" ∉ keys) :
    Namespace.AgreeBut keys (declaredBy inputPath (preset ++ ds)).publish
      (declaredBy inputPath ds).publish := by
  have hroot := root_publish_declaredBy inputPath (preset ++ ds)
  rw [entriesBehindOptions_append h (hpreset _ horder)] at hroot
  refine ⟨_, _, hroot, root_publish_declaredBy inputPath ds, ?_, ?_⟩
  · simp only [OrderedMap.keys, List.map_append, List.map_map, Function.comp_def]
  · simp only [List.filter_append, List.filter_map, Function.comp_def]
    congr 1
    apply List.map_congr_left
    intro o ho
    have hkey : o.1 ∉ keys := by simpa using (List.mem_filter.1 ho).2
    rw [lastOption_append, hpreset o.1 hkey, Option.or_none]

/-! ## Header options -/

namespace Generation

/-- The options that depend on the output path. -/
def headerKeys : List String := ["header_name", "header_guard"]

variable {file : SourceFile} {o : Options} {ns : Namespace} {key value : String}

theorem Options.lastOption_presetDeclarations (h : key ∉ headerKeys) :
    lastOption o.presetDeclarations key = none := by
  simp only [headerKeys, List.mem_cons, List.not_mem_nil, or_false, not_or] at h
  unfold presetDeclarations
  split
  · rfl
  · simp [lastOption, Ne.symm h.1, Ne.symm h.2]

/-- The namespace of a description with presets is that of its declarations behind the presets. -/
theorem eq_publish_of_toExcept (h : (analysisFor file o).toExcept = .ok ns) :
    ns = (Model.declaredBy file.name
      (o.presetDeclarations ++ file.description.declarations)).publish := by
  obtain ⟨-, hbuild⟩ := result_analyze_eq_some_iff.1 (Analysis.toExcept_eq_ok_iff.1 h)
  exact (Model.eq_publish_of_build hbuild).2.2

/-- A namespace with presets agrees with that of the description alone. -/
theorem agreeBut_of_toExcept (h : (analysisFor file o).toExcept = .ok ns) :
    Namespace.AgreeBut headerKeys ns
      (Model.declaredBy file.name file.description.declarations).publish := by
  rw [eq_publish_of_toExcept h]
  exact Model.agreeBut_append (Options.onlyOptions_presetDeclarations o)
    (fun _ hkey ↦ Options.lastOption_presetDeclarations hkey) (by decide)

/-- What a description sets last stands in its namespace. -/
theorem get?_of_toExcept (h : (analysisFor file o).toExcept = .ok ns) (hkey : key ∈ Config.keys)
    (hset : (file.description.settings.filter (·.1 = key)).getLast? = some (key, value)) :
    ns.root.get? key = some (.str value) := by
  have hlast : lastOption file.description.declarations key = some value := by
    rw [lastOption, Description.settings_declarations, List.getLast?_map, hset, Option.map_some]
  rw [eq_publish_of_toExcept h, Model.publishes_declaredBy.option key hkey, optionOf,
    lastOption_append, hlast, Option.some_or, Option.getD_some]

/-! ## Guards -/

private theorem isAlphanum_toUpper {c : Char} (h : c.isAlphanum) : c.toUpper.isAlphanum := by
  delta Char.toUpper
  split
  · next hlower =>
    -- A small letter becomes a capital letter.
    have hupper : 'A'.val ≤ c.val + ('A'.val - 'a'.val) ∧
        c.val + ('A'.val - 'a'.val) ≤ 'Z'.val := by
      simp only [UInt32.le_iff_toNat_le, UInt32.toNat_add] at hlower ⊢
      have ha : 'a'.val.toNat = 97 := rfl
      have hz : 'z'.val.toNat = 122 := rfl
      have hA : 'A'.val.toNat = 65 := rfl
      have hZ : 'Z'.val.toNat = 90 := rfl
      have hshift : ('A'.val - 'a'.val).toNat = 4294967264 := rfl
      omega
    show ((decide (_ ∧ _) || _) || _) = true
    rw [decide_eq_true hupper, Bool.true_or, Bool.true_or]
  · exact h

/-- The guard of a header is an identifier, whatever the header is called. -/
theorem isIdentifier_headerGuard (name : String) : Text.isIdentifier (headerGuard name) := by
  refine Text.isIdentifier_iff.2 ⟨'_', _, String.toList_ofList, .inr rfl, ?_⟩
  intro c hc
  obtain ⟨letter, -, rfl⟩ := List.mem_map.1 hc
  split
  · next hletter => exact .inl (isAlphanum_toUpper hletter)
  · exact .inr rfl

theorem optionValue_headerGuard (name : String) :
    Model.optionValue "header_guard" (headerGuard name) = .ok (headerGuard name) := by
  have hvalid : Config.isValid "header_guard" (headerGuard name) :=
    (Config.isValid_identifier_iff (by decide)).2 (isIdentifier_headerGuard name)
  have hkey : Config.isKey "header_guard" := by decide
  rw [Model.optionValue, hkey, hvalid]
  rfl

/-! ## Two choices of outputs -/

/-- The outputs that are chosen reach a namespace through the name and the guard of the header only,
and not even there if the description sets them itself. A guard that is made from the name of a
header is always accepted. -/
theorem outputs_reach_header_only :
    (∀ (file : SourceFile) (o o' : Options) (ns ns' : Namespace),
      (analysisFor file o).toExcept = .ok ns → (analysisFor file o').toExcept = .ok ns' →
        Namespace.AgreeBut headerKeys ns ns' ∧
        ∀ key ∈ headerKeys, ∀ value,
          (file.description.settings.filter (·.1 = key)).getLast? = some (key, value) →
          ns.root.get? key = some (.str value) ∧ ns'.root.get? key = some (.str value)) ∧
      ∀ name, Model.optionValue "header_guard" (headerGuard name) = .ok (headerGuard name) := by
  refine ⟨fun file o o' ns ns' h h' ↦ ⟨?_, fun key hkey value hset ↦ ?_⟩, optionValue_headerGuard⟩
  · exact (agreeBut_of_toExcept h).trans (agreeBut_of_toExcept h').symm
  · have hknown : ∀ key ∈ headerKeys, key ∈ Config.keys := by decide
    exact ⟨get?_of_toExcept h (hknown key hkey) hset, get?_of_toExcept h' (hknown key hkey) hset⟩

/-- A lever that names its header. -/
private def lever : SourceFile where
  name := "lever.fsm"
  text := "option header-name \"api.h\"; state up initial { next-state down; } state down;"

private def leverItems : Description.Derivation :=
  [.option ⟨1, 1, 1, 6⟩ ⟨"header-name", ⟨1, 8, 1, 18⟩⟩ (.string "api.h" ⟨1, 20, 1, 26⟩)
      ⟨1, 27, 1, 27⟩,
    .state ⟨1, 29, 1, 33⟩ ⟨⟨"up", ⟨1, 35, 1, 36⟩⟩, by decide⟩ (some ⟨1, 38, 1, 44⟩)
      (.block ⟨1, 46, 1, 46⟩
        [.nextState ⟨1, 48, 1, 57⟩ ⟨⟨⟨"down", ⟨1, 59, 1, 62⟩⟩, by decide⟩, []⟩
          (.semicolon ⟨1, 63, 1, 63⟩)]
        ⟨1, 65, 1, 65⟩),
    .state ⟨1, 67, 1, 71⟩ ⟨⟨"down", ⟨1, 73, 1, 76⟩⟩, by decide⟩ none (.semicolon ⟨1, 77, 1, 77⟩)]

private theorem lex_lever :
    Token.lex lever = (leverItems.tokens ++ [⟨.eof, ⟨1, 78, 1, 78⟩⟩], .empty) := by
  decide +kernel

/-- The declarations of the lever behind those that are preset. -/
private def leverDeclarations (o : Options) : List Declaration :=
  o.presetDeclarations ++ (leverItems.description ⟨.eof, ⟨1, 78, 1, 78⟩⟩).declarations

private theorem exists_toExcept_lever (o : Options) (guard : String)
    (h : (Model.build lever.name (leverDeclarations o)).toOption.bind
      (·.root.get? "header_guard") = some (.str guard)) :
    ∃ ns, (analysisFor lever o).toExcept = .ok ns ∧
      ns.root.get? "header_guard" = some (.str guard) := by
  obtain ⟨hreadable, hdescription⟩ := SourceFile.isReadable_of_derivation lex_lever (by decide) rfl
  rw [leverDeclarations, ← hdescription] at h
  cases hbuild : Model.build lever.name
      (o.presetDeclarations ++ lever.description.declarations) with
  | error e =>
    rw [hbuild] at h
    cases h
  | ok ns =>
    rw [hbuild] at h
    exact ⟨ns, Analysis.toExcept_eq_ok_iff.2 (result_analyze_eq_some_iff.2 ⟨hreadable, hbuild⟩), h⟩

/-- Two choices of outputs lead to different guards, but both namespaces have the name of the header
that the lever gives. -/
theorem outputs_reach_header_only_lever :
    ∃ ns ns', (analysisFor lever { output := some "gear.c" }).toExcept = .ok ns ∧
      (analysisFor lever {}).toExcept = .ok ns' ∧
      Namespace.AgreeBut headerKeys ns ns' ∧
      ns.root.get? "header_name" = some (.str "api.h") ∧
      ns'.root.get? "header_name" = some (.str "api.h") ∧
      ns.root.get? "header_guard" = some (.str "_GEAR_H") ∧
      ns'.root.get? "header_guard" = some (.str "_FSM_H") := by
  obtain ⟨-, hdescription⟩ := SourceFile.isReadable_of_derivation lex_lever (by decide) rfl
  obtain ⟨ns, hns, hguard⟩ :=
    exists_toExcept_lever { output := some "gear.c" } "_GEAR_H" (by decide +kernel)
  obtain ⟨ns', hns', hguard'⟩ := exists_toExcept_lever {} "_FSM_H" (by decide +kernel)
  obtain ⟨hagree, hset⟩ := outputs_reach_header_only.1 lever _ _ ns ns' hns hns'
  have hlast : (lever.description.settings.filter (·.1 = "header_name")).getLast? =
      some ("header_name", "api.h") := by
    rw [hdescription]
    decide +kernel
  obtain ⟨hname, hname'⟩ := hset "header_name" (by decide) "api.h" hlast
  exact ⟨ns, ns', hns, hns', hagree, hname, hname', hguard, hguard'⟩

end Generation

end StateGen
