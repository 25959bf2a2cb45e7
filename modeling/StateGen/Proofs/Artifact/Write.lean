import Mathlib.Data.List.Basic
import StateGen.Artifact.Write
import StateGen.Proofs.FileSystem

/-!
# What writing artifacts leaves behind

Artifacts are written in two phases: all of them to where they wait, and then each to its
destination. A failure of the first phase is undone. The second phase cannot be undone: if a
destination cannot take its file, the artifacts in front of it are in place already, and stay there.
-/

namespace StateGen.Artifact

open FileSystem

variable {fs fs' start : FileSystem} {a b : Artifact} {artifacts moved waiting : List Artifact}
  {l d s : Location}

/-! ## Where artifacts wait -/

/-- An artifact waits in the directory that it goes to. -/
theorem directory_stagingPath (fs : FileSystem) (a : Artifact) :
    fs.directory a.stagingPath = fs.directory a.path :=
  directory_append (by decide)

theorem baseName_stagingPath (a : Artifact) :
    baseName a.stagingPath = baseName a.path ++ ".cfsm-tmp" :=
  baseName_append (by decide)

theorem isPlain_stagingPath (a : Artifact) : IsPlain a.stagingPath := by
  have hlength : 9 ≤ (baseName a.stagingPath).length := by
    rw [baseName_stagingPath, String.length_append]
    exact Nat.le_add_left 9 _
  constructor
  all_goals
    intro h
    rw [h] at hlength
    exact absurd hlength (by decide)

/-- An artifact does not wait at its destination. -/
theorem place?_stagingPath_ne (h : fs.place? a.path = some d) :
    fs.place? a.stagingPath ≠ some d := by
  intro hwait
  obtain ⟨-, -, -, here, hwalk, rfl⟩ := place?_eq_some_iff.1 h
  obtain ⟨-, -, -, here', hwalk', heq⟩ := place?_eq_some_iff.1 hwait
  rw [directory_stagingPath, hwalk] at hwalk'
  cases hwalk'
  have hbase : baseName a.path = baseName a.stagingPath := by simpa using heq
  have hlength := congrArg String.length hbase
  rw [baseName_stagingPath, String.length_append] at hlength
  have hsuffix : ".cfsm-tmp".length = 9 := rfl
  omega

/-- A destination is looked up if where the artifact waits is, which has a longer path. -/
private theorem isAdmissible_of_stagingPath
    (hname : (baseName a.path).utf8ByteSize ≤ maxNameLength) (h : IsAdmissible a.stagingPath) :
    IsAdmissible a.path := by
  have hlist : a.stagingPath.toList = a.path.toList ++ ".cfsm-tmp".toList :=
    String.toList_append
  constructor
  · intro hnul
    exact h.no_nul (hlist ▸ List.mem_append_left _ hnul)
  · have hshort := h.short
    rw [stagingPath, String.utf8ByteSize_append] at hshort
    omega
  · exact hname

/-- Where an artifact waits tells where it goes: an artifact that waits where another one does has
the same destination. -/
theorem place?_eq_of_stagingPath (hd : fs.place? a.path = some d)
    (ha : fs.place? a.stagingPath = some s) (hb : fs.place? b.stagingPath = some s) :
    fs.place? b.path = some d := by
  obtain ⟨hplain, hadmissible, hlookup, here, hwalk, rfl⟩ := place?_eq_some_iff.1 hd
  obtain ⟨-, -, -, here', hwalk', rfl⟩ := place?_eq_some_iff.1 ha
  obtain ⟨-, hadmissible', -, here'', hwalk'', heq⟩ := place?_eq_some_iff.1 hb
  rw [directory_stagingPath, hwalk] at hwalk'
  cases hwalk'
  rw [directory_stagingPath] at hwalk''
  simp only [baseName_stagingPath, List.append_singleton_inj, String.append_left_inj] at heq
  obtain ⟨rfl, hbase⟩ := heq
  have hname := hadmissible.short_name
  obtain ⟨hempty, hdot, hdots⟩ := hplain
  rw [hbase] at hname hempty hdot hdots hlookup ⊢
  exact place?_eq_some_iff.2 ⟨⟨hempty, hdot, hdots⟩,
    isAdmissible_of_stagingPath hname hadmissible', hlookup, here, hwalk'', rfl⟩

/-! ## Artifacts side by side -/

/-- Artifacts that do not get into each other's way: they have different destinations, none of which
is where another one waits, and no file stands where one of them is to wait. -/
structure SideBySide (fs : FileSystem) (artifacts : List Artifact) : Prop where
  destinations : artifacts.Pairwise fun a b ↦
    ∀ l, fs.place? a.path = some l → fs.place? b.path ≠ some l
  waiting : ∀ a ∈ artifacts, ∀ b ∈ artifacts, a ≠ b →
    ∀ l, fs.place? a.path = some l → fs.place? b.stagingPath ≠ some l
  free : ∀ a ∈ artifacts, ∀ l, fs.place? a.stagingPath = some l → fs.lookup l = none

theorem SideBySide.left {before rest : List Artifact} (h : SideBySide fs (before ++ rest)) :
    SideBySide fs before where
  destinations := (List.pairwise_append.1 h.destinations).1
  waiting := fun a ha b hb ↦
    h.waiting a (List.mem_append_left rest ha) b (List.mem_append_left rest hb)
  free := fun a ha ↦ h.free a (List.mem_append_left rest ha)

/-- No artifact waits at a destination. -/
theorem SideBySide.place?_stagingPath_ne (h : SideBySide fs artifacts) (ha : a ∈ artifacts)
    (hb : b ∈ artifacts) (hd : fs.place? a.path = some l) : fs.place? b.stagingPath ≠ some l := by
  by_cases hab : a = b
  · rw [← hab]
    exact Artifact.place?_stagingPath_ne hd
  · exact h.waiting a ha b hb hab l hd

/-- An artifact has another destination than those before it. -/
theorem SideBySide.place?_ne {before rest : List Artifact}
    (h : SideBySide fs (before ++ a :: rest)) (hb : b ∈ before) (hd : fs.place? b.path = some d) :
    fs.place? a.path ≠ some d :=
  (List.pairwise_append.1 h.destinations).2.2 b hb a List.mem_cons_self d hd

/-- What stands at a location once some artifacts are in place. -/
def settled (fs : FileSystem) (moved : List Artifact) (l : Location) : Option FileSystem.Entry :=
  match moved.find? fun a ↦ fs.place? a.path == some l with
  | some a => some (.file a.bytes)
  | none => fs.lookup l

theorem settled_of_ne (h : ∀ a ∈ moved, fs.place? a.path ≠ some l) :
    settled fs moved l = fs.lookup l := by
  have hfind : (moved.find? fun a ↦ fs.place? a.path == some l) = none := by
    simpa using h
  rw [settled, hfind]

theorem settled_snoc_of_ne (h : fs.place? a.path ≠ some l) :
    settled fs (moved ++ [a]) l = settled fs moved l := by
  have hfind : ([a].find? fun a ↦ fs.place? a.path == some l) = none := by
    simpa using h
  rw [settled, settled, List.find?_append, hfind, Option.or_none]

theorem settled_snoc_self (ha : fs.place? a.path = some l)
    (h : ∀ b ∈ moved, fs.place? b.path ≠ some l) :
    settled fs (moved ++ [a]) l = some (.file a.bytes) := by
  have hfind : (moved.find? fun a ↦ fs.place? a.path == some l) = none := by
    simpa using h
  have hself : ([a].find? fun a ↦ fs.place? a.path == some l) = some a := by
    simp [ha]
  rw [settled, List.find?_append, hfind, hself, Option.none_or]

/-- Artifacts in place stand at their destinations. -/
theorem settled_of_mem (h : SideBySide fs moved) (hb : b ∈ moved)
    (hd : fs.place? b.path = some d) : settled fs moved d = some (.file b.bytes) := by
  obtain ⟨before, after, rfl⟩ := List.append_of_mem hb
  have hfind : (before.find? fun a ↦ fs.place? a.path == some d) = none := by
    simpa using fun a ha had ↦ h.place?_ne ha had hd
  rw [settled, List.find?_append, hfind, Option.none_or, List.find?_cons_of_pos (by simp [hd])]

/-- While writing is under way: some artifacts are in place, others wait, and everything else is as
it was at the start. -/
structure Midway (start : FileSystem) (moved waiting : List Artifact) (fs : FileSystem) :
    Prop where
  directories : SameDirectories start fs
  placed : ∀ a ∈ waiting, ∃ s, start.place? a.stagingPath = some s
  /-- Only artifacts that have a destination need to wait undisturbed. -/
  waits : ∀ a ∈ waiting, ∀ d s, start.place? a.path = some d →
    start.place? a.stagingPath = some s → fs.lookup s = some (.file a.bytes)
  elsewhere : ∀ l, (∀ a ∈ waiting, start.place? a.stagingPath ≠ some l) →
    fs.lookup l = settled start moved l

/-- Nothing but what stands where matters. -/
theorem Midway.congr (h : Midway start moved waiting fs) (hsame : SameDirectories fs fs')
    (hlookup : ∀ l, fs'.lookup l = fs.lookup l) : Midway start moved waiting fs' where
  directories := h.directories.trans hsame
  placed := h.placed
  waits := fun a ha d s hd hs ↦ by rw [hlookup, h.waits a ha d s hd hs]
  elsewhere := fun l hl ↦ by rw [hlookup, h.elsewhere l hl]

/-! ## Taking artifacts away -/

theorem removeAll_apply (paths : List String) (fs : FileSystem) :
    (removeAll paths : StateM FileSystem Unit) fs = ((), paths.foldl removed fs) := by
  induction paths generalizing fs with
  | nil => rfl
  | cons path paths ih => exact ih (fs.removed path)

theorem workingDirectory_discard (paths : List String) (fs : FileSystem) :
    (paths.foldl removed fs).workingDirectory = fs.workingDirectory := by
  induction paths generalizing fs with
  | nil => rfl
  | cons path paths ih => rw [List.foldl_cons, ih, workingDirectory_removed]

/-- Taking away artifacts that wait clears where they wait, and nothing else. -/
theorem lookup_discard (waiting : List Artifact) (fs : FileSystem) (l : Location) :
    ((waiting.map stagingPath).foldl removed fs).lookup l =
      if ∃ a ∈ waiting, fs.place? a.stagingPath = some l then none else fs.lookup l := by
  induction waiting generalizing fs with
  | nil => simp
  | cons a waiting ih =>
    have hplain := isPlain_stagingPath a
    have hplaces (path : String) : (fs.removed a.stagingPath).place? path = fs.place? path :=
      place?_congr (sameDirectories_removed hplain) path
    rw [List.map_cons, List.foldl_cons, ih, lookup_removed hplain]
    simp only [hplaces, List.mem_cons, exists_eq_or_imp]
    by_cases hself : fs.place? a.stagingPath = some l
    · simp [hself]
    · simp [hself]

/-- Once what waits is taken away, only the artifacts in place are new. -/
theorem Midway.lookup_discard (h : Midway start moved waiting fs)
    (hside : SideBySide start (moved ++ waiting)) (l : Location) :
    ((waiting.map stagingPath).foldl removed fs).lookup l = settled start moved l := by
  rw [Artifact.lookup_discard]
  simp only [place?_congr h.directories]
  by_cases hwait : ∃ a ∈ waiting, start.place? a.stagingPath = some l
  · obtain ⟨a, ha, hl⟩ := hwait
    have hmem : a ∈ moved ++ waiting := List.mem_append_right moved ha
    have hsettled : settled start moved l = start.lookup l := by
      apply settled_of_ne
      intro b hb hd
      exact hside.place?_stagingPath_ne (List.mem_append_left waiting hb) hmem hd hl
    rw [if_pos ⟨a, ha, hl⟩, hsettled, hside.free a hmem l hl]
  · rw [if_neg hwait]
    apply h.elsewhere
    intro a ha hl
    exact hwait ⟨a, ha, hl⟩

/-! ## One artifact -/

/-- One more artifact is put where it waits. -/
theorem Midway.stage {rest : List Artifact} (h : Midway start [] waiting fs)
    (hside : SideBySide start (waiting ++ a :: rest)) (hs : start.place? a.stagingPath = some s) :
    Midway start [] (waiting ++ [a]) (fs.put s (.file a.bytes)) := by
  have hs' : fs.place? a.stagingPath = some s := by rw [place?_congr h.directories, hs]
  have hlookup (l : Location) : (fs.put s (.file a.bytes)).lookup l =
      if l = s then some (.file a.bytes) else fs.lookup l :=
    lookup_put (isAbove_of_lookup (lookup_place?_ne hs')) _ l
  constructor
  case directories =>
    exact h.directories.trans (sameDirectories_put (lookup_place?_ne hs') a.bytes)
  case placed =>
    intro b hb
    rcases List.mem_append.1 hb with hb | hb
    · exact h.placed b hb
    · rw [List.mem_singleton.1 hb]
      exact ⟨s, hs⟩
  case waits =>
    intro b hb d' s' hd' hs''
    rcases List.mem_append.1 hb with hb | hb
    · -- If both waited at the same place, they would have the same destination.
      have hne : s' ≠ s := by
        rintro rfl
        exact hside.place?_ne hb hd' (place?_eq_of_stagingPath hd' hs'' hs)
      rw [hlookup, if_neg hne]
      exact h.waits b hb d' s' hd' hs''
    · rw [List.mem_singleton.1 hb] at hs'' ⊢
      have hsame : s' = s := Option.some.inj (hs''.symm.trans hs)
      rw [hlookup, if_pos hsame]
  case elsewhere =>
    intro l hl
    have hne : l ≠ s := by
      rintro rfl
      exact hl a (List.mem_append_right waiting List.mem_cons_self) hs
    rw [hlookup, if_neg hne]
    exact h.elsewhere l fun b hb ↦ hl b (List.mem_append_left [a] hb)

/-- The first artifact that waits is moved to its destination. -/
theorem Midway.move (h : Midway start moved (a :: waiting) fs)
    (hside : SideBySide start (moved ++ a :: waiting)) (hs : start.place? a.stagingPath = some s)
    (hd : start.place? a.path = some d) :
    Midway start (moved ++ [a]) waiting ((fs.erase s).put d (.file a.bytes)) := by
  have ha : a ∈ moved ++ a :: waiting := List.mem_append_right moved List.mem_cons_self
  have hs' : fs.place? a.stagingPath = some s := by rw [place?_congr h.directories, hs]
  have hd' : fs.place? a.path = some d := by rw [place?_congr h.directories, hd]
  have hlookup := lookup_moved hs' hd' a.bytes
  constructor
  case directories => exact h.directories.trans (sameDirectories_moved hs' hd' a.bytes)
  case placed => exact fun b hb ↦ h.placed b (List.mem_cons_of_mem a hb)
  case waits =>
    intro b hb db sb hdb hsb
    have hb' : b ∈ moved ++ a :: waiting :=
      List.mem_append_right moved (List.mem_cons_of_mem a hb)
    have hdestination : sb ≠ d := by
      rintro rfl
      exact hside.place?_stagingPath_ne ha hb' hd hsb
    have hplace : sb ≠ s := by
      rintro rfl
      have hlater := (List.pairwise_cons.1 (List.pairwise_append.1 hside.destinations).2.1).1 b hb
      exact hlater d hd (place?_eq_of_stagingPath hd hs hsb)
    rw [hlookup, if_neg hdestination, if_neg hplace]
    exact h.waits b (List.mem_cons_of_mem a hb) db sb hdb hsb
  case elsewhere =>
    intro l hl
    rw [hlookup]
    by_cases hld : l = d
    · subst hld
      rw [if_pos rfl, settled_snoc_self hd fun b hb hbd ↦ hside.place?_ne hb hbd hd]
    · have hda : start.place? a.path ≠ some l := by
        rw [hd]
        simpa using Ne.symm hld
      rw [if_neg hld, settled_snoc_of_ne hda]
      by_cases hls : l = s
      · subst hls
        have hsettled : settled start moved l = start.lookup l := by
          apply settled_of_ne
          intro b hb hbl
          exact hside.place?_stagingPath_ne (List.mem_append_left _ hb) ha hbl hs
        rw [if_pos rfl, hsettled, hside.free a ha l hs]
      · rw [if_neg hls]
        apply h.elsewhere
        intro b hb hsb
        rcases List.mem_cons.1 hb with rfl | hb
        · exact hls (Option.some.inj (hsb.symm.trans hs))
        · exact hl b hb hsb

/-! ## The phases -/

theorem stageAll_cons (done : List String) (a : Artifact) (rest : List Artifact)
    (fs : FileSystem) :
    (stageAll done (a :: rest) : StateM FileSystem _) fs =
      match fs.create a.stagingPath a.bytes with
      | .ok fs' => (stageAll (done ++ [a.stagingPath]) rest : StateM FileSystem _) fs'
      | .error cause =>
        (.error ⟨a.path, cause, done.length + 1⟩,
          done.foldl removed (fs.removed a.stagingPath)) := by
  have hcreate : (MonadFiles.create a.stagingPath a.bytes : StateM FileSystem _) fs =
      run (·.create a.stagingPath a.bytes) fs := rfl
  simp only [stageAll, bind, StateT.bind, hcreate, run]
  cases fs.create a.stagingPath a.bytes with
  | ok fs' => rfl
  | error cause =>
    show (_, ((removeAll done : StateM FileSystem Unit) (fs.removed a.stagingPath)).2) = _
    rw [removeAll_apply]

theorem moveAll_cons (count : Nat) (a : Artifact) (rest : List Artifact) (fs : FileSystem) :
    (moveAll count (a :: rest) : StateM FileSystem _) fs =
      match fs.rename a.stagingPath a.path with
      | .ok fs' => (moveAll count rest : StateM FileSystem _) fs'
      | .error cause =>
        (.error ⟨a.path, cause, count⟩, ((a :: rest).map stagingPath).foldl removed fs) := by
  have hrename : (MonadFiles.rename a.stagingPath a.path : StateM FileSystem _) fs =
      run (·.rename a.stagingPath a.path) fs := rfl
  simp only [moveAll, bind, StateT.bind, hrename, run]
  cases fs.rename a.stagingPath a.path with
  | ok fs' => rfl
  | error cause =>
    show (_, ((removeAll ((a :: rest).map stagingPath) : StateM FileSystem Unit) fs).2) = _
    rw [removeAll_apply]

/-- What writing comes to. -/
inductive Outcome (start : FileSystem) (artifacts : List Artifact) :
    Except WriteFailure Unit × FileSystem → Prop where
  /-- Every artifact is in place. -/
  | complete {fs : FileSystem} (placed : ∀ a ∈ artifacts, ∃ d, start.place? a.path = some d)
      (settled : ∀ l, fs.lookup l = settled start artifacts l) :
      Outcome start artifacts (.ok (), fs)
  /-- An artifact could not be put where it waits, and nothing is changed. -/
  | refused {fs : FileSystem} {a : Artifact} {e : WriteFailure} (mem : a ∈ artifacts)
      (path_eq : e.path = a.path) (unplaced : start.place? a.stagingPath = none)
      (workingDirectory_eq : fs.workingDirectory = start.workingDirectory)
      (unchanged : ∀ l, fs.lookup l = start.lookup l) : Outcome start artifacts (.error e, fs)
  /-- All artifacts were put where they wait. Those in front of one that could not be moved are in
  place. -/
  | brokenOff {fs : FileSystem} {moved rest : List Artifact} {a : Artifact} {e : WriteFailure}
      (split : artifacts = moved ++ a :: rest) (path_eq : e.path = a.path)
      (staged : ∀ b ∈ artifacts, ∃ s, start.place? b.stagingPath = some s)
      (placed : ∀ b ∈ moved, ∃ d, start.place? b.path = some d)
      (unplaced : start.place? a.path = none)
      (workingDirectory_eq : fs.workingDirectory = start.workingDirectory)
      (settled : ∀ l, fs.lookup l = settled start moved l) : Outcome start artifacts (.error e, fs)

/-- Moving what waits. -/
theorem outcome_moveAll (hside : SideBySide start artifacts)
    (hstaged : ∀ b ∈ artifacts, ∃ s, start.place? b.stagingPath = some s) (count : Nat)
    (hsplit : artifacts = moved ++ waiting)
    (hplaced : ∀ b ∈ moved, ∃ d, start.place? b.path = some d)
    (h : Midway start moved waiting fs) :
    Outcome start artifacts ((moveAll count waiting : StateM FileSystem _) fs) := by
  induction waiting generalizing moved fs with
  | nil =>
    rw [List.append_nil] at hsplit
    subst hsplit
    exact .complete hplaced fun l ↦ h.elsewhere l nofun
  | cons a rest ih =>
    have hside' : SideBySide start (moved ++ a :: rest) := hsplit ▸ hside
    obtain ⟨s, hs⟩ := h.placed a List.mem_cons_self
    have hs' : fs.place? a.stagingPath = some s := by rw [place?_congr h.directories, hs]
    rw [moveAll_cons]
    cases hd : start.place? a.path with
    | none =>
      have hd' : fs.place? a.path = none := by rw [place?_congr h.directories, hd]
      obtain ⟨cause, hcause⟩ := rename_of_place?_eq_none hs' hd'
      rw [hcause]
      refine .brokenOff hsplit rfl hstaged hplaced hd ?_ (h.lookup_discard hside')
      rw [workingDirectory_discard, h.directories.workingDirectory_eq]
    | some d =>
      have hd' : fs.place? a.path = some d := by rw [place?_congr h.directories, hd]
      have hfile := h.waits a List.mem_cons_self d s hd hs
      rw [rename_of_place? hs' hfile hd']
      refine ih (by simp [hsplit]) ?_ (h.move hside' hs hd)
      intro b hb
      rcases List.mem_append.1 hb with hb | hb
      · exact hplaced b hb
      · rw [List.mem_singleton.1 hb]
        exact ⟨d, hd⟩

/-- Putting artifacts where they wait. -/
theorem stageAll_cases (waiting : List Artifact) {rest : List Artifact}
    (hside : SideBySide start (waiting ++ rest))
    (h : Midway start [] waiting fs) :
    (∃ fs', (stageAll (waiting.map stagingPath) rest : StateM FileSystem _) fs = (.ok (), fs') ∧
        Midway start [] (waiting ++ rest) fs') ∨
      ∃ a ∈ rest, ∃ e fs', (stageAll (waiting.map stagingPath) rest : StateM FileSystem _) fs =
        (.error e, fs') ∧ e.path = a.path ∧ start.place? a.stagingPath = none ∧
        fs'.workingDirectory = start.workingDirectory ∧ ∀ l, fs'.lookup l = start.lookup l := by
  induction rest generalizing waiting fs with
  | nil =>
    rw [List.append_nil]
    exact .inl ⟨fs, rfl, h⟩
  | cons a rest ih =>
    rw [stageAll_cons]
    cases hs : start.place? a.stagingPath with
    | none =>
      have hs' : fs.place? a.stagingPath = none := by rw [place?_congr h.directories, hs]
      obtain ⟨cause, hcause⟩ := create_of_place?_eq_none hs' a.bytes
      have hsame (l : Location) : (fs.removed a.stagingPath).lookup l = fs.lookup l := by
        rw [lookup_removed (isPlain_stagingPath a), hs', if_neg nofun]
      have hside' : SideBySide start waiting := hside.left
      have hremoved := h.congr (sameDirectories_removed (isPlain_stagingPath a)) hsame
      rw [hcause]
      refine .inr ⟨a, List.mem_cons_self, _, _, rfl, rfl, hs, ?_, hremoved.lookup_discard hside'⟩
      rw [workingDirectory_discard, hremoved.directories.workingDirectory_eq]
    | some s =>
      have hs' : fs.place? a.stagingPath = some s := by rw [place?_congr h.directories, hs]
      have hsplit : waiting ++ a :: rest = waiting ++ [a] ++ rest := by simp
      have hnext := h.stage hside hs
      rw [create_of_place? hs' a.bytes]
      rw [hsplit] at hside ⊢
      have hrest := ih (waiting ++ [a]) hside hnext
      rw [List.map_append, List.map_singleton] at hrest
      rcases hrest with hok | ⟨b, hb, hrefused⟩
      · exact .inl hok
      · exact .inr ⟨b, List.mem_cons_of_mem a hb, hrefused⟩

/-- Writing artifacts that do not get into each other's way has one of the three outcomes. -/
theorem outcome_writeAll (hfiles : ∀ a ∈ artifacts, a.isStdout = false)
    (hside : SideBySide start artifacts) :
    Outcome start artifacts ((writeAll artifacts : StateM FileSystem _) start) := by
  have hall : artifacts.filter (!·.isStdout) = artifacts := by
    rw [List.filter_eq_self]
    intro a ha
    rw [hfiles a ha]
    rfl
  have hstart : Midway start [] [] start :=
    ⟨.refl start, by simp, by simp, fun _ _ ↦ rfl⟩
  rw [writeAll, hall, writeFiles]
  simp only [bind, StateT.bind]
  obtain ⟨fs, hrun, hmidway⟩ | ⟨a, ha, e, fs, hrun, hpath, hs, hbase, hsame⟩ :=
    stageAll_cases [] hside hstart
  · rw [List.map_nil] at hrun
    rw [hrun]
    exact outcome_moveAll hside hmidway.placed _ rfl (by simp) hmidway
  · rw [List.map_nil] at hrun
    rw [hrun]
    exact .refused ha hpath hs hbase hsame

/-! ## Failures -/

/-- If writing fails, none of the artifacts waits any more. Either an artifact could not be put where
it waits, and nothing is changed, or all could, and the artifacts in front of one whose destination
cannot take a file are in place and nothing else is changed. So nothing is changed if all
destinations but the first can take a file. Relative paths start where they started before. -/
theorem writeAll_failure (start : FileSystem) (artifacts : List Artifact)
    (hfiles : ∀ a ∈ artifacts, a.isStdout = false) (hside : SideBySide start artifacts)
    (e : WriteFailure) (fs : FileSystem)
    (h : (writeAll artifacts : StateM FileSystem _) start = (.error e, fs)) :
    fs.workingDirectory = start.workingDirectory ∧
      ((∃ a ∈ artifacts, e.path = a.path ∧ start.place? a.stagingPath = none) ∧
          (∀ l, fs.lookup l = start.lookup l) ∨
        (∀ a ∈ artifacts, ∃ s, start.place? a.stagingPath = some s) ∧
          ∃ moved a rest, artifacts = moved ++ a :: rest ∧ e.path = a.path ∧
            start.place? a.path = none ∧
            (∀ b ∈ moved, ∃ d, start.place? b.path = some d ∧
              fs.lookup d = some (.file b.bytes)) ∧
            ∀ l, (∀ b ∈ moved, start.place? b.path ≠ some l) → fs.lookup l = start.lookup l) ∧
      (∀ a ∈ artifacts, ∀ s, start.place? a.stagingPath = some s → fs.lookup s = none) ∧
      ((∀ a ∈ artifacts.tail, ∃ d, start.place? a.path = some d) →
        ∀ l, fs.lookup l = start.lookup l) := by
  have houtcome := outcome_writeAll hfiles hside
  rw [h] at houtcome
  cases houtcome with
  | @refused _ a _ mem path_eq unplaced workingDirectory_eq unchanged =>
    refine ⟨workingDirectory_eq, .inl ⟨⟨a, mem, path_eq, unplaced⟩, unchanged⟩, fun b hb s hs ↦ ?_,
      fun _ ↦ unchanged⟩
    rw [unchanged, hside.free b hb s hs]
  | @brokenOff _ moved rest a _ split path_eq staged placed unplaced workingDirectory_eq settled =>
    have hmoved : SideBySide start moved := (split ▸ hside : SideBySide start (moved ++ _)).left
    have hmem : ∀ b ∈ moved, b ∈ artifacts := fun b hb ↦ split ▸ List.mem_append_left _ hb
    refine ⟨workingDirectory_eq, .inr ⟨staged, moved, a, rest, split, path_eq, unplaced,
      fun b hb ↦ ?_, fun l hl ↦ ?_⟩, fun b hb s hs ↦ ?_, fun htail l ↦ ?_⟩
    · obtain ⟨d, hd⟩ := placed b hb
      exact ⟨d, hd, by rw [settled, settled_of_mem hmoved hb hd]⟩
    · rw [settled, settled_of_ne hl]
    · rw [settled, settled_of_ne fun c hc hd ↦
        hside.place?_stagingPath_ne (hmem c hc) hb hd hs, hside.free b hb s hs]
    · -- The artifact that could not be moved is the first one, so none is in place.
      cases moved with
      | nil => rw [settled, settled_of_ne (by simp)]
      | cons first moved =>
        obtain ⟨d, hd⟩ := htail a (by simp [split])
        rw [unplaced] at hd
        cases hd

/-- A file stands where the first of two artifacts goes, and a directory where the second one
does. -/
private def blocked : FileSystem where
  entries := [(["work", "a.c"], .file [111, 108, 100]), (["work", "d"], .directory)]
  workingDirectory := ["work"]

private def source : Artifact := ⟨.source, "a.c", [110, 101, 119]⟩

private def header : Artifact := ⟨.header, "d", [121]⟩

private theorem place?_blocked :
    blocked.place? source.path = some ["work", "a.c"] ∧ blocked.place? header.path = none ∧
      blocked.place? source.stagingPath = some ["work", "a.c.cfsm-tmp"] ∧
      blocked.place? header.stagingPath = some ["work", "d.cfsm-tmp"] := by
  decide +kernel

private theorem sideBySide_blocked : SideBySide blocked [source, header] := by
  obtain ⟨hsource, hheader, hsource', hheader'⟩ := place?_blocked
  constructor
  · simp [hheader]
  · simp [hsource, hheader, hheader']
  · have hfree : blocked.lookup ["work", "a.c.cfsm-tmp"] = none ∧
        blocked.lookup ["work", "d.cfsm-tmp"] = none := by decide
    simpa [hsource', hheader'] using hfree

/-- Writing both fails when the first one is in place. -/
private theorem writeAll_blocked :
    ∃ fs, (writeAll [source, header] : StateM FileSystem _) blocked =
        (.error ⟨"d", .isDirectory, 2⟩, fs) ∧
      fs.lookup ["work", "a.c"] = some (.file source.bytes) := by
  have hrun : ((writeAll [source, header] : StateM FileSystem _) blocked).1 =
      .error ⟨"d", .isDirectory, 2⟩ := by decide +kernel
  have hnew : ((writeAll [source, header] : StateM FileSystem _) blocked).2.lookup
      ["work", "a.c"] = some (.file source.bytes) := by decide +kernel
  generalize (writeAll [source, header] : StateM FileSystem _) blocked = run at hrun hnew ⊢
  exact ⟨run.2, Prod.ext hrun rfl, hnew⟩

/-- Only the first of two artifacts has a directory to go to, far from the working directory. -/
private def halfway : FileSystem where
  entries := [(["tmp"], .directory)]
  workingDirectory := ["work"]

private def landed : Artifact := ⟨.source, "/tmp/partial.c", [105, 110, 116]⟩

private def stranded : Artifact := ⟨.header, "/nonexistent/dir/partial.h", []⟩

private theorem place?_halfway :
    halfway.place? landed.path = some ["tmp", "partial.c"] ∧
      halfway.place? stranded.path = none ∧
      halfway.place? landed.stagingPath = some ["tmp", "partial.c.cfsm-tmp"] ∧
      halfway.place? stranded.stagingPath = none := by
  decide +kernel

private theorem sideBySide_halfway : SideBySide halfway [landed, stranded] := by
  obtain ⟨hlanded, hstranded, hlanded', hstranded'⟩ := place?_halfway
  constructor
  · simp [hstranded]
  · simp [hlanded, hstranded, hstranded']
  · have hfree : halfway.lookup ["tmp", "partial.c.cfsm-tmp"] = none := by decide
    simpa [hlanded', hstranded'] using hfree

/-- Writing both fails before the first one is in place. -/
private theorem writeAll_halfway :
    ∃ fs, (writeAll [landed, stranded] : StateM FileSystem _) halfway =
      (.error ⟨"/nonexistent/dir/partial.h", .notFound, 2⟩, fs) := by
  have hrun : ((writeAll [landed, stranded] : StateM FileSystem _) halfway).1 =
      .error ⟨"/nonexistent/dir/partial.h", .notFound, 2⟩ := by decide +kernel
  generalize (writeAll [landed, stranded] : StateM FileSystem _) halfway = run at hrun ⊢
  exact ⟨run.2, Prod.ext hrun rfl⟩

/-- Either phase can fail. If the second one does, the artifact that is in place stays there. If the
first one does, the artifact that was waiting is taken away. -/
theorem writeAll_failure_in_either_phase :
    (∃ fs, (writeAll [source, header] : StateM FileSystem _) blocked =
          (.error ⟨"d", .isDirectory, 2⟩, fs) ∧
        fs.lookup ["work", "a.c"] = some (.file source.bytes) ∧
        fs.lookup ["work", "a.c.cfsm-tmp"] = none ∧ fs.lookup ["work", "d.cfsm-tmp"] = none) ∧
      ∃ fs, (writeAll [landed, stranded] : StateM FileSystem _) halfway =
          (.error ⟨"/nonexistent/dir/partial.h", .notFound, 2⟩, fs) ∧
        fs.workingDirectory = ["work"] ∧ ∀ l, fs.lookup l = halfway.lookup l := by
  constructor
  · obtain ⟨-, -, hsource, hheader⟩ := place?_blocked
    obtain ⟨fs, hrun, hnew⟩ := writeAll_blocked
    obtain ⟨-, -, hgone, -⟩ :=
      writeAll_failure blocked [source, header] (by decide) sideBySide_blocked _ fs hrun
    exact ⟨fs, hrun, hnew, hgone source (by simp) _ hsource, hgone header (by simp) _ hheader⟩
  · obtain ⟨-, -, -, hstranded⟩ := place?_halfway
    obtain ⟨fs, hrun⟩ := writeAll_halfway
    obtain ⟨hbase, hphase, -, -⟩ :=
      writeAll_failure halfway [landed, stranded] (by decide) sideBySide_halfway _ fs hrun
    rcases hphase with ⟨-, hsame⟩ | ⟨hstaged, -⟩
    · exact ⟨fs, hrun, hbase, hsame⟩
    · obtain ⟨s, hs⟩ := hstaged stranded (by simp)
      rw [hstranded] at hs
      cases hs

/-- A failure does not leave every file as it was. -/
theorem not_writeAll_all_or_nothing :
    ¬ ∀ (start : FileSystem) (artifacts : List Artifact),
      (∀ a ∈ artifacts, a.isStdout = false) → (artifacts.map path).Nodup →
      (∀ a ∈ artifacts, ∀ b ∈ artifacts, a.path ≠ b.stagingPath) →
      SideBySide start artifacts →
      ∀ e fs, (writeAll artifacts : StateM FileSystem _) start = (.error e, fs) →
        ∀ l, fs.lookup l = start.lookup l := by
  intro h
  obtain ⟨fs, hrun, hnew⟩ := writeAll_blocked
  have hsame := h blocked [source, header] (by decide) (by decide) (by decide) sideBySide_blocked
    _ fs hrun ["work", "a.c"]
  rw [hnew] at hsame
  exact absurd hsame (by decide)

end StateGen.Artifact
