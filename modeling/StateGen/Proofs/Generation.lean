import StateGen.Generation.Report
import StateGen.Proofs.Analysis

/-!
# When a run succeeds

A run stops at the first step that fails. Only an analysis without a namespace is blamed on the
description, and every other failure becomes one diagnostic, so that a report counts an error
exactly if the run failed. A run that succeeds has rendered its plan, artifact by artifact.
-/

namespace StateGen.Generation

variable {α β : Type}

/-! ## Steps of a run -/

namespace Generate

/-- Whatever was recorded before, the step yields a value of one kind or stops with an error of
another. -/
def Ensures (g : Generate α) (yields : α → Prop) (stops : Error → Prop) : Prop :=
  ∀ log,
    match g log with
    | .ok a _ => yields a
    | .error e _ => stops e

variable {g : Generate α} {f : α → Generate β} {yields : α → Prop} {yields' : β → Prop}
  {stops : Error → Prop}

theorem ensures_pure {a : α} (h : yields a) : Ensures (pure a) yields stops := fun _ ↦ h

theorem ensures_throw {e : Error} (h : stops e) : Ensures (throw e) yields stops := fun _ ↦ h

theorem ensures_modify (change : Array Log.Record → Array Log.Record) :
    Ensures (modify change) (fun _ ↦ True) stops := fun _ ↦ trivial

theorem Ensures.bind (hg : Ensures g yields stops)
    (hf : ∀ a, yields a → Ensures (f a) yields' stops) : Ensures (g >>= f) yields' stops := by
  intro log
  have hfirst := hg log
  simp only [Bind.bind, EStateM.bind]
  cases hrun : g log with
  | ok a log' =>
    rw [hrun] at hfirst
    exact hf a hfirst log'
  | error e log' =>
    rw [hrun] at hfirst
    exact hfirst

theorem ensures_ofExcept {ε : Type} {cause : ε → Error} {r : Except ε α}
    (hok : ∀ a, r = .ok a → yields a) (herror : ∀ e, r = .error e → stops (cause e)) :
    Ensures (ofExcept cause r) yields stops := by
  cases r with
  | ok a => exact ensures_pure (hok a rfl)
  | error e => exact ensures_throw (herror e rfl)

/-- A step whose result is known yields that result. -/
theorem ensures_ofExcept_ok {ε : Type} {cause : ε → Error} {r : Except ε α} {a : α}
    (h : r = .ok a) : Ensures (ofExcept cause r) (· = a) stops := by
  rw [h]
  exact ensures_pure rfl

theorem Ensures.imp {stops' : Error → Prop} (hg : Ensures g yields stops)
    (h : ∀ e, stops e → stops' e) : Ensures g yields stops' := by
  intro log
  have hlog := hg log
  cases hrun : g log with
  | ok a log' => simpa only [hrun] using hlog
  | error e log' =>
    rw [hrun] at hlog
    exact h e hlog

/-- The result of a step is what it ensures. -/
theorem Ensures.run (h : Ensures g yields stops) :
    (∀ a, g.run.1 = .ok a → yields a) ∧ ∀ e, g.run.1 = .error e → stops e := by
  have hstart := h #[]
  unfold Generate.run
  cases hrun : g #[] with
  | ok a log =>
    rw [hrun] at hstart
    exact ⟨fun b hb ↦ (Except.ok.inj hb) ▸ hstart, fun e he ↦ nomatch he⟩
  | error e log =>
    rw [hrun] at hstart
    exact ⟨fun b hb ↦ (nomatch hb), fun e' he ↦ (Except.error.inj he) ▸ hstart⟩

end Generate

open Generate

/-! ## Rendering -/

/-- The failure is not that of a description. -/
def Error.IsTechnical (e : Error) : Prop := ∀ ds, e ≠ .description ds

theorem ensures_parseTemplate (name text : String) :
    Ensures (parseTemplate name text) (fun _ ↦ True) Error.IsTechnical := by
  unfold parseTemplate
  refine (ensures_ofExcept (fun _ _ ↦ trivial) fun e _ ds ↦ nofun).bind fun template _ ↦ ?_
  exact (ensures_modify _).bind fun _ _ ↦ ensures_pure trivial

theorem ensures_loadFile (read : Reader) (path : String) :
    Ensures (loadFile read path) (fun _ ↦ True) Error.IsTechnical := by
  unfold loadFile
  refine (ensures_ofExcept (fun _ _ ↦ trivial) fun e _ ds ↦ nofun).bind fun text _ ↦ ?_
  exact (ensures_modify _).bind fun _ _ ↦ ensures_parseTemplate path text

theorem ensures_loadBuiltin (name : String) :
    Ensures (loadBuiltin name) (fun _ ↦ True) Error.IsTechnical := by
  unfold loadBuiltin
  split
  · exact ensures_parseTemplate name _
  · exact ensures_throw nofun

theorem ensures_load (read : Reader) (o : Options) (kind : OutputKind) :
    Ensures (o.load read kind) (fun _ ↦ True) Error.IsTechnical := by
  unfold Options.load
  split
  · exact ensures_loadFile read _
  · unfold TemplateSource.load
    split
    · exact ensures_loadBuiltin _
    · exact ensures_loadFile read _
  · exact ensures_throw nofun

theorem ensures_render (t : SourcedTemplate) (root : Value) :
    Ensures (t.render root) (fun _ ↦ True) Error.IsTechnical := by
  unfold SourcedTemplate.render
  refine (ensures_modify _).bind fun _ _ ↦ ?_
  exact ensures_ofExcept (fun _ _ ↦ trivial) fun e _ ds ↦ nofun

theorem ensures_renderArtifact (read : Reader) (ns : Namespace) (o : Options) (kind : OutputKind)
    (path : String) :
    Ensures (renderArtifact read ns o kind path) (fun a ↦ (a.kind, a.path) = (kind, path))
      Error.IsTechnical := by
  unfold renderArtifact
  refine (ensures_load read o kind).bind fun template _ ↦ ?_
  refine (ensures_render template ns.root).bind fun bytes _ ↦ ?_
  exact (ensures_modify _).bind fun _ _ ↦ ensures_pure rfl

/-- One artifact is rendered for every planned output, in the order of the plan. -/
theorem ensures_renderAll (read : Reader) (ns : Namespace) (o : Options)
    (plan : List (OutputKind × String)) :
    Ensures (renderAll read ns o plan)
      (fun artifacts ↦ artifacts.map (fun a ↦ (a.kind, a.path)) = plan) Error.IsTechnical := by
  induction plan with
  | nil => exact ensures_pure rfl
  | cons output rest ih =>
    refine (ensures_renderArtifact read ns o output.1 output.2).bind fun artifact hartifact ↦ ?_
    refine ih.bind fun artifacts hartifacts ↦ ensures_pure ?_
    rw [List.map_cons, hartifact, hartifacts]

/-! ## The whole run -/

/-- What a run that succeeds has made of an analysis and a plan. -/
def Generated.Follows (g : Generated) (a : Analysis)
    (plan : Except OptionsError (List (OutputKind × String))) : Prop :=
  a.result = some g.published ∧ g.diagnostics = a.diagnostics ∧
    plan = .ok (g.artifacts.map fun a ↦ (a.kind, a.path))

/-- A failure blames the description only if its analysis yields no namespace, and hands on what the
analysis found. -/
def Error.Blames (e : Error) (a : Analysis) : Prop :=
  ∀ ds, e = .description ds → a.result = none ∧ ds = a.diagnostics

theorem ensures_generate (read : Reader) (file : SourceFile) (o : Options) :
    Ensures (generate read file o) (·.Follows (analysisFor file o) o.plan)
      (·.Blames (analysisFor file o)) := by
  have hblames : ∀ e : Error, e.IsTechnical → e.Blames (analysisFor file o) :=
    fun e he ds hds ↦ absurd hds (he ds)
  unfold generate
  have hplanned : Ensures (ofExcept .options o.plan) (o.plan = .ok ·)
      (·.Blames (analysisFor file o)) :=
    ensures_ofExcept (fun plan hplan ↦ hplan) fun e _ ↦ hblames (.options e) fun ds ↦ nofun
  refine hplanned.bind fun plan hplan ↦ (ensures_modify _).bind fun _ _ ↦ ?_
  split
  · next hnone =>
    refine ensures_throw fun ds hds ↦ ⟨hnone, ?_⟩
    injection hds with hds
    exact hds.symm
  · next ns hns =>
    refine (ensures_modify _).bind fun _ _ ↦ ?_
    refine ((ensures_renderAll read ns o plan).imp hblames).bind fun artifacts hartifacts ↦ ?_
    exact ensures_pure ⟨hns, rfl, hartifacts ▸ hplan⟩

/-- A failure that is not that of a description becomes one error. -/
theorem Error.IsTechnical.toDiagnostics {e : Error} (h : e.IsTechnical) (file : String) :
    ∃ d, e.toDiagnostics file = Diagnostics.empty.pushError d := by
  cases e with
  | description ds => exact absurd rfl (h ds)
  | template | templateRead | write | options => exact ⟨_, rfl⟩

/-- The failure of a run counts an error, and stores one. -/
theorem Error.Blames.toDiagnostics {e : Error} {a : Analysis} (h : e.Blames a) (ha : a.IsHonest)
    (file : String) :
    (e.toDiagnostics file).totalErrors ≠ 0 ∧ (e.toDiagnostics file).errors ≠ [] := by
  by_cases htechnical : e.IsTechnical
  · obtain ⟨d, hd⟩ := htechnical.toDiagnostics file
    rw [hd]
    exact ⟨Nat.one_ne_zero, List.cons_ne_nil d []⟩
  · obtain ⟨ds, hds⟩ : ∃ ds, e = .description ds := by
      simpa [IsTechnical] using htechnical
    obtain ⟨hnone, hsame⟩ := h ds hds
    have htotal : a.diagnostics.totalErrors ≠ 0 := by
      rw [Ne, ← ha.isSome_result_iff, hnone]
      simp
    rw [hds, Error.toDiagnostics, hsame]
    exact ⟨htotal, ha.stored.errors_ne_nil htotal⟩

/-! ## Reports -/

/-- A report of a run with a plan: it tells success exactly if it counts no error, shows an error
and no artifacts otherwise, and lists the planned outputs. -/
structure Report.IsHonest (r : Report)
    (plan : Except OptionsError (List (OutputKind × String))) : Prop where
  success_iff : r.success = true ↔ r.errors.totalErrors = 0
  of_failure : r.success = false → r.artifacts = [] ∧ r.errors.errors ≠ []
  of_success : r.success = true →
    plan = .ok (r.artifacts.map fun summary ↦ (summary.kind, summary.path))

theorem Generated.Follows.isHonest {g : Generated} {a : Analysis}
    {plan : Except OptionsError (List (OutputKind × String))} (h : g.Follows a plan)
    (ha : a.IsHonest) : (Report.ofGenerated g).IsHonest plan := by
  obtain ⟨hns, hdiagnostics, hplan⟩ := h
  have hzero : g.diagnostics.totalErrors = 0 := by
    rw [hdiagnostics, ← ha.isSome_result_iff]
    exact Option.isSome_of_eq_some hns
  refine ⟨iff_of_true rfl hzero, nofun, fun _ ↦ ?_⟩
  rw [hplan, Report.ofGenerated, List.map_map]
  rfl

theorem Error.Blames.isHonest {e : Error} {a : Analysis} (h : e.Blames a) (ha : a.IsHonest)
    (file : String) (plan : Except OptionsError (List (OutputKind × String))) :
    (Report.ofError file e).IsHonest plan := by
  obtain ⟨htotal, hstored⟩ := h.toDiagnostics ha file
  exact ⟨iff_of_false nofun htotal, fun _ ↦ ⟨rfl, hstored⟩, nofun⟩

/-- A report tells success exactly if it counts no error. A run that fails is reported with at least
one stored error and without artifacts, and one that succeeds with the artifacts of its plan. The
description has a namespace exactly if checking counts no error, which is if neither its text, nor
the order of its tokens, nor a declaration, nor the machine as a whole is objected to. -/
theorem report_success_iff (read : Reader) (file : SourceFile) (o : Options) :
    let result := (generate read file o).run.1
    let report := Report.ofResult file.name result
    (report.success = true ↔ report.errors.totalErrors = 0) ∧
      (report.success = false → report.artifacts = [] ∧ report.errors.errors ≠ []) ∧
      (∀ ds, result = .error (.description ds) → (Error.description ds).code? ≠ none) ∧
      (report.success = true →
        o.plan = .ok (report.artifacts.map fun summary ↦ (summary.kind, summary.path))) ∧
      ((∃ ns, (analysisFor file {}).toExcept = .ok ns) ↔ (check file).totalErrors = 0) ∧
      ((check file).totalErrors = 0 ↔
        (Token.lex file).2.totalErrors = 0 ∧
          (Description.ofTokens file (Token.lex file).1).2.totalErrors = 0 ∧
          ∃ m, Model.applyAll file.description.declarations (.initial file.name) = .ok () m ∧
            m.check = .ok ()) := by
  intro result report
  have hanalysis := isHonest_analyze file o.presetDeclarations
  obtain ⟨hok, herror⟩ := (ensures_generate read file o).run
  have hreport : report.IsHonest o.plan := by
    simp only [report]
    cases hresult : result with
    | ok g => exact (hok g hresult).isHonest hanalysis
    | error e => exact (herror e hresult).isHonest hanalysis file.name o.plan
  refine ⟨hreport.success_iff, hreport.of_failure, fun ds hds ↦ ?_, hreport.of_success,
    (isHonest_analyze file []).exists_toExcept_eq_ok_iff, totalErrors_check_eq_zero_iff file⟩
  have hstored := ((herror _ hds).toDiagnostics hanalysis file.name).2
  rw [Error.code?, Diagnostics.first?, Ne, Option.map_eq_none_iff, List.head?_eq_none_iff]
  exact hstored

/-- A description of a lift that is up or down. -/
private def lift : SourceFile := ⟨"lift.fsm", "state up initial; state down;"⟩

private def liftItems : Description.Derivation :=
  [.state ⟨1, 1, 1, 5⟩ ⟨⟨"up", ⟨1, 7, 1, 8⟩⟩, by decide⟩ (some ⟨1, 10, 1, 16⟩)
      (.semicolon ⟨1, 17, 1, 17⟩),
    .state ⟨1, 19, 1, 23⟩ ⟨⟨"down", ⟨1, 25, 1, 28⟩⟩, by decide⟩ none (.semicolon ⟨1, 29, 1, 29⟩)]

private theorem lex_lift :
    Token.lex lift = (liftItems.tokens ++ [⟨.eof, ⟨1, 30, 1, 30⟩⟩], .empty) := by
  decide +kernel

/-- A run that renders the empty template to a file of the lift. -/
private def blank : Options := { outputs := .manual "blank.m", output := some "lift.txt" }

/-- The description of the lift has a namespace, and an empty template renders. -/
private theorem ensures_generate_lift :
    Ensures (generate (fun _ ↦ .ok []) lift blank) (fun _ ↦ True) fun _ ↦ False := by
  obtain ⟨hreadable, hdescription⟩ :=
    SourceFile.isReadable_of_derivation lex_lift (by decide) rfl
  obtain ⟨ns, hns⟩ : ∃ ns, Model.build lift.name lift.description.declarations = .ok ns := by
    rw [hdescription]
    exact ⟨_, rfl⟩
  have hresult : (analysisFor lift blank).result = some ns :=
    result_analyze_eq_some_iff.2 ⟨hreadable, hns⟩
  have htext : (.ok [] >>= textOfBytes) = .ok "" := by
    simp [textOfBytes, Utf8.decode?, Utf8.decodePieces, bind, Except.bind, pure]
  have htemplate : Template.parse "blank.m" "" = .ok ⟨"blank.m", []⟩ := by cbv
  have hload : Ensures (blank.load (fun _ ↦ .ok []) .manual) (· = ⟨⟨"blank.m", []⟩, ""⟩)
      fun _ ↦ False := by
    refine (ensures_ofExcept_ok htext).bind ?_
    rintro _ rfl
    refine (ensures_modify _).bind fun _ _ ↦ (ensures_ofExcept_ok htemplate).bind ?_
    rintro _ rfl
    exact (ensures_modify _).bind fun _ _ ↦ ensures_pure rfl
  have hartifact : Ensures (renderArtifact (fun _ ↦ .ok []) ns blank .manual "lift.txt")
      (fun _ ↦ True) fun _ ↦ False := by
    refine hload.bind ?_
    rintro _ rfl log
    trivial
  have hrender : Ensures (renderAll (fun _ ↦ .ok []) ns blank [(.manual, "lift.txt")])
      (fun _ ↦ True) fun _ ↦ False :=
    hartifact.bind fun artifact _ ↦ ensures_pure trivial
  simp only [generate, hresult]
  have hplan : blank.plan = .ok [(.manual, "lift.txt")] := rfl
  refine (ensures_ofExcept_ok hplan).bind ?_
  rintro _ rfl
  refine (ensures_modify _).bind fun _ _ ↦ (ensures_modify _).bind fun _ _ ↦ ?_
  exact hrender.bind fun _ _ ↦ ensures_pure trivial

/-- A run on the lift with the empty template succeeds, and one without a path for its output fails
with an error and without artifacts. -/
theorem report_success_iff_lift :
    let report := fun o : Options ↦
      Report.ofResult lift.name (generate (fun _ ↦ .ok []) lift o).run.1
    (report blank).success = true ∧ (report blank).errors.totalErrors = 0 ∧
      (report blank).artifacts.map (fun summary ↦ (summary.kind, summary.path)) =
        [(.manual, "lift.txt")] ∧
      (report { blank with output := none }).success = false ∧
      (report { blank with output := none }).artifacts = [] ∧
      (report { blank with output := none }).errors.errors ≠ [] := by
  intro report
  obtain ⟨hiff, -, -, hplanned, -⟩ := report_success_iff (fun _ ↦ .ok []) lift blank
  obtain ⟨-, hfailure, -⟩ :=
    report_success_iff (fun _ ↦ .ok []) lift { blank with output := none }
  have hsuccess : (report blank).success = true := by
    simp only [report]
    cases hrun : (generate (fun _ ↦ .ok []) lift blank).run.1 with
    | ok g => rfl
    | error e => exact (ensures_generate_lift.run.2 e hrun).elim
  exact ⟨hsuccess, hiff.1 hsuccess, (Except.ok.inj (hplanned hsuccess)).symm, rfl, hfailure rfl⟩

end StateGen.Generation
