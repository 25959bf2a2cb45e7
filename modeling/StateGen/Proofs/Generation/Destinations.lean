import Mathlib.Data.List.Nodup
import StateGen.Generation.Options
import StateGen.Proofs.Artifact.Success

/-!
# Where planned artifacts go

A plan has one output, or a C source and a header whose paths have everything but the extension in
common. So planned artifacts never get into each other's way, whatever the caller chooses as the
output path, and a run that writes them has written these files and no others.
-/

namespace StateGen.Generation

open FileSystem

variable {o : Options} {plan : List (OutputKind × String)} {artifacts : List Artifact}
  {stem : String}

/-! ## Plans -/

theorem append_of_stripSuffix? {suffix text rest : List Char}
    (h : stripSuffix? suffix text = some rest) : rest ++ suffix = text := by
  rw [stripSuffix?] at h
  split at h
  · next hsuffix =>
    obtain ⟨front, rfl⟩ := List.isSuffixOf_iff_suffix.1 hsuffix
    cases h
    rw [List.length_append, Nat.add_sub_cancel, List.take_left]
  · cases h

/-- A companion header is called like the source. -/
theorem exists_stem_of_companionHeader {header : String} (h : o.companionHeader = some header) :
    ∃ stem : String, o.output = some (stem ++ ".c") ∧ header = stem ++ ".h" := by
  rw [Options.companionHeader] at h
  split at h
  · cases h
  · next out hout =>
    split at h
    · cases h
    · next stem hstem =>
      split at h
      · cases h
        refine ⟨String.ofList stem, ?_, by rw [String.ofList_append]⟩
        rw [hout, ← String.ofList_toList (s := out), ← append_of_stripSuffix? hstem,
          String.ofList_append]
      · cases h

/-- The header of a source is called like the source. -/
theorem exists_stem_of_headerPath {header : String} (h : o.headerPath = .ok header) :
    ∃ stem : String, o.single .source = (.source, stem ++ ".c") ∧ header = stem ++ ".h" := by
  rw [Options.headerPath] at h
  split at h
  · next hout =>
    cases h
    exact ⟨"fsm", by rw [Options.single, hout]; rfl, rfl⟩
  · next out companion hout =>
    split at h
    · cases h
    split at h
    · next hcompanion =>
      cases h
      obtain ⟨stem, hstem, rfl⟩ := exists_stem_of_companionHeader hcompanion
      exact ⟨stem, by rw [Options.single, hstem]; rfl, rfl⟩
    · cases h

/-- A plan has one output, or a C source and a header that is called like it. -/
theorem plan_cases (h : o.plan = .ok plan) :
    (∃ output, plan = [output]) ∨
      ∃ stem : String, plan = [(.source, stem ++ ".c"), (.header, stem ++ ".h")] := by
  rw [Options.plan] at h
  cases houtputs : o.outputs with
  | sourceAndHeader =>
    rw [houtputs] at h
    cases hheader : o.headerPath with
    | error e =>
      rw [hheader] at h
      cases h
    | ok header =>
      rw [hheader] at h
      cases h
      obtain ⟨stem, hsource, rfl⟩ := exists_stem_of_headerPath hheader
      exact .inr ⟨stem, by rw [hsource]⟩
  | manual template =>
    rw [houtputs] at h
    cases hout : o.output with
    | none =>
      rw [hout] at h
      cases h
    | some path =>
      rw [hout] at h
      cases h
      exact .inl ⟨_, rfl⟩
  | source | header | graphviz =>
    rw [houtputs] at h
    cases h
    exact .inl ⟨_, rfl⟩

/-! ## Artifacts of a plan -/

/-- Artifacts with the destinations of a plan. -/
theorem artifacts_cases (h : o.plan = .ok plan)
    (hpaths : artifacts.map Artifact.path = plan.map Prod.snd) :
    (∃ a, artifacts = [a]) ∨
      ∃ (stem : String) (a b : Artifact), artifacts = [a, b] ∧ a.path = stem ++ ".c" ∧
        b.path = stem ++ ".h" := by
  rcases plan_cases h with ⟨output, rfl⟩ | ⟨stem, rfl⟩
  · obtain ⟨a, rfl, -⟩ := List.map_eq_singleton_iff.1 hpaths
    exact .inl ⟨a, rfl⟩
  · obtain ⟨a, rest, rfl, ha, hrest⟩ := List.map_eq_cons_iff.1 hpaths
    obtain ⟨b, rfl, hb⟩ := List.map_eq_singleton_iff.1 hrest
    exact .inr ⟨stem, a, b, rfl, ha, hb⟩

theorem ne_append_of_ne_empty {path suffix : String} (h : suffix ≠ "") : path ≠ path ++ suffix := by
  intro heq
  have hempty : path ++ "" = path ++ suffix := by rw [String.append_empty, ← heq]
  exact h ((String.append_right_inj path).1 hempty).symm

theorem stagingPath_of_path_eq {a : Artifact} {suffix : String} (h : a.path = stem ++ suffix) :
    a.stagingPath = stem ++ (suffix ++ ".cfsm-tmp") := by
  rw [Artifact.stagingPath, h, String.append_assoc]

/-- A source and its header go and wait at different paths. -/
theorem nodup_paths_pair {a b : Artifact} (ha : a.path = stem ++ ".c")
    (hb : b.path = stem ++ ".h") :
    [a.path, b.path, a.stagingPath, b.stagingPath].Nodup := by
  have hpaths : [a.path, b.path, a.stagingPath, b.stagingPath] =
      [".c", ".h", ".c" ++ ".cfsm-tmp", ".h" ++ ".cfsm-tmp"].map (stem ++ ·) := by
    simp only [ha, hb, stagingPath_of_path_eq ha, stagingPath_of_path_eq hb, List.map_cons,
      List.map_nil]
  rw [hpaths]
  exact List.Nodup.map (fun _ _ ↦ (String.append_right_inj stem).1) (by decide)

/-- A source and its header do not touch the same location. -/
theorem apart_pair {a b : Artifact} {fs : FileSystem} (ha : a.path = stem ++ ".c")
    (hb : b.path = stem ++ ".h") : Artifact.Apart fs [a, b] := by
  simp only [Artifact.Apart, List.pairwise_pair, Artifact.Touches, ha, hb,
    stagingPath_of_path_eq ha, stagingPath_of_path_eq hb, not_or]
  rintro l (hl | hl)
  all_goals
    exact ⟨place?_append_ne (by decide) (by decide) (by decide) hl,
      place?_append_ne (by decide) (by decide) (by decide) hl⟩

/-- A path with an extension is not standard output. -/
theorem append_ne_stdout {suffix : String} (h : 2 ≤ suffix.length) :
    stem ++ suffix ≠ Artifact.stdout := by
  intro heq
  have hlength := congrArg String.length heq
  rw [String.length_append] at hlength
  have hone : Artifact.stdout.length = 1 := rfl
  omega

/-- The artifacts of a plan do not touch the same location. -/
theorem apart_of_plan (h : o.plan = .ok plan)
    (hpaths : artifacts.map Artifact.path = plan.map Prod.snd) (fs : FileSystem) :
    Artifact.Apart fs artifacts := by
  rcases artifacts_cases h hpaths with ⟨a, rfl⟩ | ⟨stem, a, b, rfl, ha, hb⟩
  · exact List.pairwise_singleton _ a
  · exact apart_pair ha hb

/-- The artifacts of a plan go and wait at different paths. -/
theorem nodup_paths_of_plan (h : o.plan = .ok plan)
    (hpaths : artifacts.map Artifact.path = plan.map Prod.snd) :
    (artifacts.map Artifact.path ++ artifacts.map Artifact.stagingPath).Nodup := by
  rcases artifacts_cases h hpaths with ⟨a, rfl⟩ | ⟨stem, a, b, rfl, ha, hb⟩
  · have hne : a.path ≠ a.stagingPath := ne_append_of_ne_empty (by decide)
    simpa using hne
  · exact nodup_paths_pair ha hb

/-- Only a plan with one output goes to standard output. -/
theorem plan_eq_singleton_of_stdout (h : o.plan = .ok plan)
    (hstdout : Artifact.stdout ∈ plan.map Prod.snd) : ∃ kind, plan = [(kind, Artifact.stdout)] := by
  rcases plan_cases h with ⟨output, rfl⟩ | ⟨stem, rfl⟩
  · obtain ⟨kind, path⟩ := output
    rw [List.map_singleton, List.mem_singleton] at hstdout
    exact ⟨kind, by rw [hstdout]⟩
  · simp only [List.map_cons, List.map_nil, List.mem_cons, List.not_mem_nil, or_false] at hstdout
    rcases hstdout with heq | heq
    · exact absurd heq.symm (append_ne_stdout (by decide))
    · exact absurd heq.symm (append_ne_stdout (by decide))

/-! ## Written files -/

/-- The artifacts of a plan go and wait at different paths, and standard output is planned alone or
not at all. Once they are written, every file stands at its destination, none is left where it
waited, and every other path leads to what it led to before. Nothing waits for standard output, so
writing there leaves every path alone. -/
theorem planned_files_land (o : Options) (plan : List (OutputKind × String))
    (hplan : o.plan = .ok plan) :
    (Artifact.stdout ∈ plan.map Prod.snd → ∃ kind, plan = [(kind, Artifact.stdout)]) ∧
      ∀ artifacts : List Artifact, artifacts.map Artifact.path = plan.map Prod.snd →
        (artifacts.map Artifact.path ++ artifacts.map Artifact.stagingPath).Nodup ∧
          ∀ start fs : FileSystem,
            (Artifact.writeAll artifacts : StateM FileSystem _) start = (.ok (), fs) →
              (∀ a ∈ artifacts, a.isStdout = false →
                fs.entryAt? a.path = some (.file a.bytes) ∧ fs.entryAt? a.stagingPath = none) ∧
              ∀ other, (∀ a ∈ artifacts, a.isStdout = false →
                  ¬ start.SamePlace other a.path ∧ ¬ start.SamePlace other a.stagingPath) →
                fs.entryAt? other = start.entryAt? other := by
  refine ⟨plan_eq_singleton_of_stdout hplan, fun artifacts hpaths ↦
    ⟨nodup_paths_of_plan hplan hpaths, fun start fs hrun ↦ ?_⟩⟩
  have hfile (a : Artifact) :
      a ∈ artifacts.filter (!·.isStdout) ↔ a ∈ artifacts ∧ a.isStdout = false := by
    rw [List.mem_filter, Bool.not_eq_true']
  have hapart := (apart_of_plan hplan hpaths start).filter (!·.isStdout)
  obtain ⟨hlanded, hother⟩ := (Artifact.underway_writeFiles hapart hrun).entryAt?
  constructor
  · intro a ha hstdout
    exact hlanded a ((hfile a).2 ⟨ha, hstdout⟩)
  · intro other hdifferent
    apply hother
    intro a ha
    obtain ⟨hmem, hstdout⟩ := (hfile a).1 ha
    exact hdifferent a hmem hstdout

/-- An interrupted run has left a file where the source is to wait, far from the working
directory. -/
private def interrupted : FileSystem where
  entries := [(["tmp"], .directory), (["tmp", "door.c.cfsm-tmp"], .file [1]),
    (["tmp", "door.h"], .file [2]), (["work", "notes.txt"], .file [3])]
  workingDirectory := ["work"]

private def doorFiles : List Artifact :=
  [⟨.source, "/tmp/door.c", [4]⟩, ⟨.header, "/tmp/door.h", [5]⟩]

/-- What the interrupted run left does not get in the way, and other files stay. -/
theorem planned_files_land_interrupted :
    ∃ fs, (Artifact.writeAll doorFiles : StateM FileSystem _) interrupted = (.ok (), fs) ∧
      fs.entryAt? "/tmp/door.c" = some (.file [4]) ∧
      fs.entryAt? "/tmp/door.h" = some (.file [5]) ∧
      fs.entryAt? "/tmp/door.c.cfsm-tmp" = none ∧
      fs.entryAt? "notes.txt" = some (.file [3]) := by
  have hresult : ((Artifact.writeAll doorFiles : StateM FileSystem _) interrupted).1 = .ok () := by
    decide +kernel
  generalize hrun : (Artifact.writeAll doorFiles : StateM FileSystem _) interrupted = outcome at *
  obtain ⟨result, fs⟩ := outcome
  subst hresult
  obtain ⟨-, hplanned⟩ := planned_files_land
    { outputs := .sourceAndHeader, output := some "/tmp/door.c" }
    [(.source, "/tmp/door.c"), (.header, "/tmp/door.h")] (by decide +kernel)
  obtain ⟨-, hwritten⟩ := hplanned doorFiles rfl
  obtain ⟨hlanded, hother⟩ := hwritten interrupted fs hrun
  have hsource := hlanded ⟨.source, "/tmp/door.c", [4]⟩ (by simp [doorFiles]) (by decide)
  have hheader := hlanded ⟨.header, "/tmp/door.h", [5]⟩ (by simp [doorFiles]) (by decide)
  have hstaging : Artifact.stagingPath ⟨.source, "/tmp/door.c", [4]⟩ = "/tmp/door.c.cfsm-tmp" := by
    decide +kernel
  have hnotes : interrupted.entryAt? "notes.txt" = some (.file [3]) := by decide +kernel
  rw [hstaging] at hsource
  refine ⟨fs, rfl, hsource.1, hheader.1, hsource.2, ?_⟩
  rw [hother "notes.txt" (by decide +kernel), hnotes]

end StateGen.Generation
