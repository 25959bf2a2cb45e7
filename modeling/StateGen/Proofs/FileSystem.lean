import StateGen.FileSystem

/-!
# What operations on files do

A path is placed where creating a file under it would put that file. Where a path is placed depends
on the directories alone, the working directory among them, and no operation on files changes those.
So what an operation does can be said location by location: creating fills a place, removing clears
it, and moving does both.
-/

namespace StateGen.FileSystem

variable {fs fs' : FileSystem} {path : String} {here loc : Location} {bytes : List UInt8}

/-! ## Locations -/

private theorem lookup_filter_ne (entries : List (Location × Entry)) (loc l : Location) :
    (entries.filter (·.1 ≠ loc)).lookup l = if l = loc then none else entries.lookup l := by
  induction entries with
  | nil => simp
  | cons e entries ih =>
    obtain ⟨place, entry⟩ := e
    rw [List.filter_cons]
    by_cases hplace : place = loc
    · rw [if_neg (by simpa using hplace), ih]
      by_cases hl : l = loc
      · simp [hl]
      · have hne : l ≠ place := by rwa [hplace]
        simp [hl, List.lookup_cons, beq_false_of_ne hne]
    · rw [if_pos (by simpa using hplace), List.lookup_cons, List.lookup_cons, ih]
      by_cases hl : l = place
      · have hne : l ≠ loc := by rwa [hl]
        simp [hl, hplace]
      · simp [beq_false_of_ne hl]

@[simp]
theorem isAbove_put (fs : FileSystem) (loc : Location) (entry : Entry) (l : Location) :
    (fs.put loc entry).isAbove l = fs.isAbove l := rfl

@[simp]
theorem isAbove_erase (fs : FileSystem) (loc l : Location) :
    (fs.erase loc).isAbove l = fs.isAbove l := rfl

theorem lookup_put (h : fs.isAbove loc = false) (entry : Entry) (l : Location) :
    (fs.put loc entry).lookup l = if l = loc then some entry else fs.lookup l := by
  by_cases hl : l = loc
  · subst hl
    rw [lookup, isAbove_put, if_neg (by simp [h]), put]
    simp
  · rw [lookup, isAbove_put, lookup]
    simp only [put, List.lookup_cons, beq_false_of_ne hl, lookup_filter_ne, if_neg hl]

theorem lookup_erase (h : fs.isAbove loc = false) (l : Location) :
    (fs.erase loc).lookup l = if l = loc then none else fs.lookup l := by
  by_cases hl : l = loc
  · rw [if_pos hl, hl, lookup, if_neg (by simp [h]), erase, lookup_filter_ne, if_pos rfl]
  · rw [lookup, isAbove_erase, lookup]
    simp only [erase, lookup_filter_ne, if_neg hl]

/-- What is no directory is not on the way to the working directory. -/
theorem isAbove_of_lookup (h : fs.lookup loc ≠ some .directory) : fs.isAbove loc = false := by
  cases habove : fs.isAbove loc with
  | false => rfl
  | true => exact absurd (by simp [lookup, habove]) h

/-! ## Names in a path -/

/-- The parts of a path between its slashes. -/
private def parts (path : String) : List (List Char) := path.toList.splitOnP (· == '/')

/-- The names in front of the last slash. -/
def dirNames (path : String) : List String :=
  ((parts path).dropLast.filter (!·.isEmpty)).map String.ofList

/-- What stands behind the last slash. -/
def baseName (path : String) : String := String.ofList ((parts path).getLast?.getD [])

private theorem splitOnP_of_not_mem {cs : List Char} (h : '/' ∉ cs) :
    cs.splitOnP (· == '/') = [cs] := by
  apply List.splitOnP_eq_singleton
  intro c hc
  rw [beq_eq_false_iff_ne]
  rintro rfl
  exact h hc

/-- A path is cut at its last slash, and what is appended goes behind it. -/
private theorem exists_parts (path : String) :
    ∃ init base, parts path = init ++ [base] ∧
      (base = [] ↔ path = "" ∨ path.toList.getLast? = some '/') ∧
      ∀ suffix : String, '/' ∉ suffix.toList →
        parts (path ++ suffix) = init ++ [base ++ suffix.toList] := by
  by_cases hslash : '/' ∈ path.toList
  · obtain ⟨after, before, hreverse, hafter⟩ :=
      List.eq_append_cons_of_mem (List.mem_reverse.2 hslash)
    have hpath : path.toList = before.reverse ++ '/' :: after.reverse := by
      rw [← List.reverse_reverse path.toList, hreverse]
      simp
    have hparts (suffix : List Char) (h : '/' ∉ suffix) :
        (path.toList ++ suffix).splitOnP (· == '/') =
          before.reverse.splitOnP (· == '/') ++ [after.reverse ++ suffix] := by
      have hbase : '/' ∉ after.reverse ++ suffix := by simp [hafter, h]
      rw [hpath, List.append_assoc, List.cons_append, List.splitOnP_append_cons _ _ rfl,
        splitOnP_of_not_mem hbase]
    refine ⟨before.reverse.splitOnP (· == '/'), after.reverse, ?_, ?_, fun suffix h ↦ ?_⟩
    · simpa [parts] using hparts [] (by simp)
    · have hne : path ≠ "" := by
        rintro rfl
        simp at hslash
      rw [List.getLast?_eq_head?_reverse, hreverse]
      cases hafter' : after with
      | nil => simp
      | cons c cs =>
        have hc : c ≠ '/' := by
          rintro rfl
          simp [hafter'] at hafter
        simp [hne, hc]
    · rw [parts, String.toList_append]
      exact hparts suffix.toList h
  · refine ⟨[], path.toList, splitOnP_of_not_mem hslash, ?_, fun suffix h ↦ ?_⟩
    · have hlast : path.toList.getLast? ≠ some '/' :=
        fun hlast ↦ hslash (List.mem_of_getLast? hlast)
      simp [hlast]
    · rw [parts, String.toList_append]
      exact splitOnP_of_not_mem (by simp [hslash, h])

theorem names_eq (path : String) :
    names path = dirNames path ++ if baseName path = "" then [] else [baseName path] := by
  obtain ⟨init, base, hparts, -, -⟩ := exists_parts path
  have hnames : names path = ((parts path).filter (!·.isEmpty)).map String.ofList := rfl
  rw [hnames, dirNames, baseName, hparts]
  cases base <;> simp

theorem dirNames_append {suffix : String} (h : '/' ∉ suffix.toList) :
    dirNames (path ++ suffix) = dirNames path := by
  obtain ⟨init, base, hparts, -, happend⟩ := exists_parts path
  rw [dirNames, dirNames, hparts, happend suffix h, List.dropLast_concat, List.dropLast_concat]

theorem baseName_append {suffix : String} (h : '/' ∉ suffix.toList) :
    baseName (path ++ suffix) = baseName path ++ suffix := by
  obtain ⟨init, base, hparts, -, happend⟩ := exists_parts path
  rw [baseName, baseName, hparts, happend suffix h]
  simp [String.ofList_append]

/-- What is appended to a path leaves its start alone. -/
theorem isAbsolute_append {suffix : String} (h : '/' ∉ suffix.toList) :
    isAbsolute (path ++ suffix) = isAbsolute path := by
  have hsuffix : suffix.toList.head? ≠ some '/' := fun hhead ↦ h (List.mem_of_head? hhead)
  rw [isAbsolute, isAbsolute, String.toList_append, List.head?_append]
  cases path.toList.head? with
  | none => simpa using hsuffix
  | some c => rfl

/-- A path without a last name is empty or ends with a slash. -/
theorem baseName_eq_empty_iff :
    baseName path = "" ↔ path = "" ∨ path.toList.getLast? = some '/' := by
  obtain ⟨init, base, hparts, hbase, -⟩ := exists_parts path
  rw [← hbase, baseName, hparts]
  simp

/-! ## Directories -/

/-- Two file systems have their directories at the same locations, and the same working directory
among them. -/
structure SameDirectories (fs fs' : FileSystem) : Prop where
  workingDirectory_eq : fs'.workingDirectory = fs.workingDirectory
  lookup_iff (l : Location) : fs.lookup l = some .directory ↔ fs'.lookup l = some .directory

theorem SameDirectories.refl (fs : FileSystem) : SameDirectories fs fs := ⟨rfl, fun _ ↦ Iff.rfl⟩

theorem SameDirectories.trans {fs'' : FileSystem} (h : SameDirectories fs fs')
    (h' : SameDirectories fs' fs'') : SameDirectories fs fs'' where
  workingDirectory_eq := h'.workingDirectory_eq.trans h.workingDirectory_eq
  lookup_iff l := (h.lookup_iff l).trans (h'.lookup_iff l)

/-- Paths start at the same locations. -/
theorem SameDirectories.base_eq (h : SameDirectories fs fs') (path : String) :
    fs'.base path = fs.base path := by
  rw [base, base, h.workingDirectory_eq]

theorem sameDirectories_put (h : fs.lookup loc ≠ some .directory) (bytes : List UInt8) :
    SameDirectories fs (fs.put loc (.file bytes)) := by
  refine ⟨rfl, fun l ↦ ?_⟩
  rw [lookup_put (isAbove_of_lookup h)]
  by_cases hl : l = loc
  · simp [hl, h]
  · rw [if_neg hl]

theorem sameDirectories_erase (h : fs.lookup loc ≠ some .directory) :
    SameDirectories fs (fs.erase loc) := by
  refine ⟨rfl, fun l ↦ ?_⟩
  rw [lookup_erase (isAbove_of_lookup h)]
  by_cases hl : l = loc
  · simp [hl, h]
  · rw [if_neg hl]

theorem walk_cons_eq_ok_iff {name : String} {rest : List String} :
    fs.walk here (name :: rest) = .ok loc ↔
      name.utf8ByteSize ≤ maxNameLength ∧ fs.lookup (step here name) = some .directory ∧
        fs.walk (step here name) rest = .ok loc := by
  rw [walk]
  split
  · next hlong =>
    refine iff_of_false nofun fun h ↦ ?_
    omega
  · next hshort =>
    split
    · next hnone => simp [hnone]
    · next hfile => simp [hfile]
    · next hdirectory =>
      rw [and_iff_right (by omega), and_iff_right hdirectory]

/-- Where names lead depends on the directories. -/
theorem walk_eq_ok_congr (h : SameDirectories fs fs') {names : List String} :
    fs.walk here names = .ok loc ↔ fs'.walk here names = .ok loc := by
  induction names generalizing here with
  | nil => rw [walk, walk]
  | cons name rest ih => rw [walk_cons_eq_ok_iff, walk_cons_eq_ok_iff, h.lookup_iff, ih]

/-- Where the names in front of the last slash of a path lead. -/
def directory (fs : FileSystem) (path : String) : Except FileError Location :=
  fs.walk (fs.base path) (dirNames path)

theorem directory_append {suffix : String} (h : '/' ∉ suffix.toList) :
    fs.directory (path ++ suffix) = fs.directory path := by
  rw [directory, directory, base, base, isAbsolute_append h, dirNames_append h]

theorem directory_eq_ok_congr (h : SameDirectories fs fs') :
    fs.directory path = .ok loc ↔ fs'.directory path = .ok loc := by
  rw [directory, directory, h.base_eq, walk_eq_ok_congr h]

/-! ## Places -/

/-- A path that ends with the name of something in a directory. -/
structure IsPlain (path : String) : Prop where
  ne_empty : baseName path ≠ ""
  ne_dot : baseName path ≠ "."
  ne_dots : baseName path ≠ ".."

/-- A path that the system looks up. -/
structure IsAdmissible (path : String) : Prop where
  no_nul : '\x00' ∉ path.toList
  short : path.utf8ByteSize ≤ maxPathLength
  short_name : (baseName path).utf8ByteSize ≤ maxNameLength

/-- A plain path leads to a name in a directory, if its directories are there. -/
theorem target_eq_ok_iff (hplain : IsPlain path) {t : Target} :
    fs.target path = .ok t ↔
      IsAdmissible path ∧ ∃ here, fs.directory path = .ok here ∧
        t = ⟨here ++ [baseName path], false, false⟩ := by
  have hnames : names path = dirNames path ++ [baseName path] := by
    rw [names_eq, if_neg hplain.ne_empty]
  have hslash : path.toList.getLast? ≠ some '/' :=
    fun h ↦ hplain.ne_empty (baseName_eq_empty_iff.2 (.inr h))
  have hstep (here : Location) : step here (baseName path) = here ++ [baseName path] := by
    simp [step, hplain.ne_dot, hplain.ne_dots]
  rw [target]
  by_cases hnul : '\x00' ∈ path.toList
  · rw [if_pos (by simpa using hnul)]
    exact iff_of_false nofun fun h ↦ h.1.no_nul hnul
  by_cases hlong : maxPathLength < path.utf8ByteSize
  · rw [if_neg (by simpa using hnul), if_pos hlong]
    exact iff_of_false nofun fun h ↦ Nat.not_lt.2 h.1.short hlong
  rw [if_neg (by simpa using hnul), if_neg hlong, hnames, List.getLast?_concat,
    List.dropLast_concat]
  have hdirectory : fs.walk (fs.base path) (dirNames path) = fs.directory path := rfl
  simp only [bind, Except.bind, hstep, hplain.ne_dot, hplain.ne_dots, hslash, hdirectory]
  cases hwalk : fs.directory path with
  | error e => exact iff_of_false nofun fun ⟨_, here, hhere, _⟩ ↦ nomatch hhere
  | ok here =>
    dsimp only
    by_cases hname : maxNameLength < (baseName path).utf8ByteSize
    · rw [if_pos hname]
      exact iff_of_false nofun fun h ↦ Nat.not_lt.2 h.1.short_name hname
    · rw [if_neg hname]
      constructor
      · intro h
        cases h
        exact ⟨⟨hnul, Nat.not_lt.1 hlong, Nat.not_lt.1 hname⟩, here, rfl, rfl⟩
      · rintro ⟨-, _, hhere, rfl⟩
        cases hhere
        rfl

/-- A path that names what it leads to, and has no slash behind the name, is plain. -/
theorem isPlain_of_target {t : Target} (h : fs.target path = .ok t) (hname : t.isNameless = false)
    (hslash : t.hasSlash = false) : IsPlain path := by
  rw [target] at h
  split at h
  · cases h
  split at h
  · cases h
  split at h
  · -- Without names the path leads to the root, which has no name either.
    split at h
    · cases h
      cases hname
    · cases h
  · next last hlast =>
    simp only [bind, Except.bind] at h
    cases hwalk : fs.walk (fs.base path) (names path).dropLast with
    | error e =>
      rw [hwalk] at h
      cases h
    | ok here =>
      rw [hwalk] at h
      dsimp only at h
      split at h
      · cases h
      · cases h
        simp only [Bool.or_eq_false_iff, decide_eq_false_iff_not] at hname hslash
        have hbase : baseName path ≠ "" := by
          intro hempty
          rcases baseName_eq_empty_iff.1 hempty with rfl | hend
          · cases hlast
          · exact hslash hend
        rw [names_eq, if_neg hbase, List.getLast?_concat] at hlast
        cases hlast
        exact ⟨hbase, hname.1, hname.2⟩

/-- Where creating a file under a path puts it, if that succeeds. -/
def place? (fs : FileSystem) (path : String) : Option Location :=
  match fs.target path with
  | .ok t =>
    if t.isNameless || t.hasSlash || fs.lookup t.location = some .directory then none
    else some t.location
  | .error _ => none

theorem place?_eq_some_iff :
    fs.place? path = some loc ↔
      IsPlain path ∧ IsAdmissible path ∧ fs.lookup loc ≠ some .directory ∧
        ∃ here, fs.directory path = .ok here ∧ loc = here ++ [baseName path] := by
  constructor
  · intro h
    rw [place?] at h
    cases ht : fs.target path with
    | error e =>
      rw [ht] at h
      cases h
    | ok t =>
      rw [ht] at h
      dsimp only at h
      split at h
      · cases h
      · next hcond =>
        cases h
        simp only [Bool.or_eq_true, not_or, Bool.not_eq_true, decide_eq_true_eq] at hcond
        have hplain := isPlain_of_target ht hcond.1.1 hcond.1.2
        obtain ⟨hadmissible, here, hwalk, rfl⟩ := (target_eq_ok_iff hplain).1 ht
        exact ⟨hplain, hadmissible, hcond.2, here, hwalk, rfl⟩
  · rintro ⟨hplain, hadmissible, hlookup, here, hwalk, rfl⟩
    rw [place?, (target_eq_ok_iff hplain).2 ⟨hadmissible, here, hwalk, rfl⟩]
    simp [hlookup]

/-- Absolute and relative paths meet, and nothing leads above the root. -/
example : ∀ path ∈ ["a.c", "/tmp/work/a.c", "../../../../tmp/./work//a.c", "/../tmp/work/a.c"],
    ({} : FileSystem).place? path = some ["tmp", "work", "a.c"] := by decide +kernel

/-- Paths with the same beginning and different endings have different places. -/
theorem place?_append_ne {suffix suffix' : String} (h : '/' ∉ suffix.toList)
    (h' : '/' ∉ suffix'.toList) (hne : suffix ≠ suffix')
    (hplace : fs.place? (path ++ suffix) = some loc) : fs.place? (path ++ suffix') ≠ some loc := by
  intro hplace'
  obtain ⟨-, -, -, here, -, rfl⟩ := place?_eq_some_iff.1 hplace
  obtain ⟨-, -, -, here', -, heq⟩ := place?_eq_some_iff.1 hplace'
  rw [baseName_append h, baseName_append h', List.append_singleton_inj] at heq
  exact hne ((String.append_right_inj _).1 heq.2)

theorem lookup_place?_ne (h : fs.place? path = some loc) : fs.lookup loc ≠ some .directory :=
  (place?_eq_some_iff.1 h).2.2.1

theorem target_of_place? (h : fs.place? path = some loc) :
    fs.target path = .ok ⟨loc, false, false⟩ := by
  obtain ⟨hplain, hadmissible, -, here, hwalk, rfl⟩ := place?_eq_some_iff.1 h
  exact (target_eq_ok_iff hplain).2 ⟨hadmissible, here, hwalk, rfl⟩

/-- A plain path that has no place leads nowhere, or to a directory. -/
theorem lookup_target_of_place?_eq_none (hplain : IsPlain path) (h : fs.place? path = none)
    {t : Target} (ht : fs.target path = .ok t) : fs.lookup t.location = some .directory := by
  obtain ⟨hadmissible, here, hwalk, rfl⟩ := (target_eq_ok_iff hplain).1 ht
  refine Classical.byContradiction fun hlookup ↦ ?_
  rw [place?_eq_some_iff.2 ⟨hplain, hadmissible, hlookup, here, hwalk, rfl⟩] at h
  cases h

/-- Where a path is placed depends on the directories. -/
theorem place?_congr (h : SameDirectories fs fs') (path : String) :
    fs'.place? path = fs.place? path := by
  apply Option.ext
  intro loc
  rw [place?_eq_some_iff, place?_eq_some_iff, Ne, Ne, h.lookup_iff loc]
  simp only [directory_eq_ok_congr h]

/-! ## Operations -/

/-- Creating a file fills the place of its path. -/
theorem create_of_place? (h : fs.place? path = some loc) (bytes : List UInt8) :
    fs.create path bytes = .ok (fs.put loc (.file bytes)) := by
  simp only [create, target_of_place? h, bind, Except.bind, lookup_place?_ne h]
  rfl

theorem create_of_place?_eq_none (h : fs.place? path = none) (bytes : List UInt8) :
    ∃ e, fs.create path bytes = .error e := by
  rw [place?] at h
  simp only [create, bind, Except.bind]
  cases ht : fs.target path with
  | error e => exact ⟨e, rfl⟩
  | ok t =>
    rw [ht] at h
    dsimp only at h ⊢
    split at h
    · next hcond =>
      rw [if_pos hcond]
      exact ⟨.isDirectory, rfl⟩
    · cases h

/-- The file system after an attempt to remove a file. -/
def removed (fs : FileSystem) (path : String) : FileSystem := (run (·.remove path) fs).2

/-- Only a file that a path leads to, without a slash behind its name, is removed. -/
theorem removed_eq (fs : FileSystem) (path : String) :
    fs.removed path =
      match fs.target path with
      | .ok t =>
        match fs.lookup t.location with
        | some (.file _) => if t.hasSlash then fs else fs.erase t.location
        | _ => fs
      | .error _ => fs := by
  unfold removed run remove
  dsimp only
  cases fs.target path with
  | error e => rfl
  | ok t =>
    simp only [bind, Except.bind]
    cases fs.lookup t.location with
    | none => rfl
    | some entry =>
      cases entry with
      | directory => rfl
      | file bytes => cases t.hasSlash <;> rfl

theorem workingDirectory_removed (fs : FileSystem) (path : String) :
    (fs.removed path).workingDirectory = fs.workingDirectory := by
  rw [removed_eq]
  split
  · split
    · split <;> rfl
    · rfl
  · rfl

/-- An attempt to remove a file clears the place of its path, and does nothing else. -/
theorem lookup_removed (hplain : IsPlain path) (l : Location) :
    (fs.removed path).lookup l = if fs.place? path = some l then none else fs.lookup l := by
  rw [removed_eq]
  cases hplace : fs.place? path with
  | none =>
    cases ht : fs.target path with
    | error e => rfl
    | ok t => simp [lookup_target_of_place?_eq_none hplain hplace ht]
  | some loc =>
    have hne := lookup_place?_ne hplace
    rw [target_of_place? hplace]
    cases hlookup : fs.lookup loc with
    | none =>
      by_cases hl : loc = l
      · simp [← hl, hlookup]
      · simp [hl, hlookup]
    | some entry =>
      cases entry with
      | directory => exact absurd hlookup hne
      | file bytes => simp [hlookup, lookup_erase (isAbove_of_lookup hne), eq_comm]

theorem sameDirectories_removed (hplain : IsPlain path) :
    SameDirectories fs (fs.removed path) := by
  refine ⟨workingDirectory_removed fs path, fun l ↦ ?_⟩
  rw [lookup_removed hplain]
  by_cases hl : fs.place? path = some l
  · simp [hl, lookup_place?_ne hl]
  · rw [if_neg hl]

/-- A file is moved from the place of one path to that of another. -/
theorem rename_of_place? {source destination : String} {s d : Location}
    (hs : fs.place? source = some s) (hfile : fs.lookup s = some (.file bytes))
    (hd : fs.place? destination = some d) :
    fs.rename source destination = .ok ((fs.erase s).put d (.file bytes)) := by
  simp only [rename, target_of_place? hs, target_of_place? hd, bind, Except.bind, hfile,
    lookup_place?_ne hd]
  rfl

/-- Moving a file fills one place and clears another one. -/
theorem lookup_moved {source destination : String} {s d : Location}
    (hs : fs.place? source = some s) (hd : fs.place? destination = some d) (bytes : List UInt8)
    (l : Location) :
    ((fs.erase s).put d (.file bytes)).lookup l =
      if l = d then some (.file bytes) else if l = s then none else fs.lookup l := by
  have hfree : (fs.erase s).isAbove d = false := by
    rw [isAbove_erase, isAbove_of_lookup (lookup_place?_ne hd)]
  rw [lookup_put hfree, lookup_erase (isAbove_of_lookup (lookup_place?_ne hs))]

theorem sameDirectories_moved {source destination : String} {s d : Location}
    (hs : fs.place? source = some s) (hd : fs.place? destination = some d) (bytes : List UInt8) :
    SameDirectories fs ((fs.erase s).put d (.file bytes)) := by
  have herase : SameDirectories fs (fs.erase s) := sameDirectories_erase (lookup_place?_ne hs)
  refine herase.trans (sameDirectories_put ?_ bytes)
  rw [Ne, ← herase.lookup_iff d]
  exact lookup_place?_ne hd

/-- Nothing is moved to a path without a place. -/
theorem rename_of_place?_eq_none {source destination : String} {s : Location}
    (hs : fs.place? source = some s) (hd : fs.place? destination = none) :
    ∃ e, fs.rename source destination = .error e := by
  rw [place?] at hd
  simp only [rename, target_of_place? hs, bind, Except.bind]
  cases ht : fs.target destination with
  | error e => exact ⟨e, rfl⟩
  | ok t =>
    rw [ht] at hd
    cases hname : t.isNameless with
    | true => exact ⟨.busy, by simp only [hname]; rfl⟩
    | false =>
      simp only [hname, Bool.false_or, Bool.false_eq_true, if_false]
      split
      · exact ⟨.notFound, rfl⟩
      · exact ⟨.isDirectory, rfl⟩
      · cases hslash : t.hasSlash with
        | true => exact ⟨.notDirectory, rfl⟩
        | false =>
          have hdirectory : fs.lookup t.location = some .directory := by
            simpa [hname, hslash] using hd
          rw [if_neg (by simp), if_pos hdirectory]
          exact ⟨.isDirectory, rfl⟩

/-! ## What stands under a path -/

/-- What stands where a path leads. -/
def entryAt? (fs : FileSystem) (path : String) : Option Entry :=
  match fs.target path with
  | .ok t => fs.lookup t.location
  | .error _ => none

/-- Two paths lead to one location. -/
def SamePlace (fs : FileSystem) (path path' : String) : Prop :=
  ∃ t t', fs.target path = .ok t ∧ fs.target path' = .ok t' ∧ t.location = t'.location

instance (fs : FileSystem) (path path' : String) : Decidable (fs.SamePlace path path') :=
  match h : fs.target path, h' : fs.target path' with
  | .ok t, .ok t' => decidable_of_iff (t.location = t'.location) (by simp [SamePlace, h, h'])
  | .error _, _ => .isFalse (by simp [SamePlace, h])
  | _, .error _ => .isFalse (by simp [SamePlace, h'])

/-- Where a path leads depends on the directories. -/
theorem target_eq_ok_congr (h : SameDirectories fs fs') {t : Target} :
    fs.target path = .ok t ↔ fs'.target path = .ok t := by
  unfold target
  split
  · rfl
  split
  · rfl
  split
  · rfl
  · simp only [bind, Except.bind, h.base_eq]
    cases hwalk : fs.walk (fs.base path) (names path).dropLast with
    | ok here => rw [(walk_eq_ok_congr h).1 hwalk]
    | error e =>
      cases hwalk' : fs'.walk (fs.base path) (names path).dropLast with
      | ok here =>
        rw [(walk_eq_ok_congr h).2 hwalk'] at hwalk
        cases hwalk
      | error e' => exact iff_of_false nofun nofun

theorem entryAt?_of_place? (h : fs.place? path = some loc) : fs.entryAt? path = fs.lookup loc := by
  rw [entryAt?, target_of_place? h]

/-- What stands under a path changes only with what stands at its location. -/
theorem entryAt?_congr (h : SameDirectories fs fs')
    (hlookup : ∀ t, fs.target path = .ok t → fs'.lookup t.location = fs.lookup t.location) :
    fs'.entryAt? path = fs.entryAt? path := by
  unfold entryAt?
  cases ht : fs.target path with
  | ok t =>
    rw [(target_eq_ok_congr h).1 ht]
    exact hlookup t ht
  | error e =>
    cases ht' : fs'.target path with
    | ok t =>
      rw [(target_eq_ok_congr h).2 ht'] at ht
      cases ht
    | error e' => rfl

end StateGen.FileSystem
