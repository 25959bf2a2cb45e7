import StateGen.Proofs.Artifact.Write

/-!
# What writing artifacts achieves

If writing succeeds, every artifact is at its destination, none waits any more, and everything else
is as it was. Files that an earlier run left where artifacts wait are overwritten and moved away
with them. All this needs of the artifacts is that no two of them touch the same location.
-/

namespace StateGen.Artifact

open FileSystem

variable {start fs fs' : FileSystem} {a b : Artifact} {artifacts moved waiting rest : List Artifact}
  {l d s : Location}

/-! ## Locations that are written -/

/-- Writing the artifact changes what stands at the location: it goes there, or waits there. -/
def Touches (a : Artifact) (fs : FileSystem) (l : Location) : Prop :=
  fs.place? a.path = some l ∨ fs.place? a.stagingPath = some l

/-- No two artifacts touch the same location. -/
def Apart (fs : FileSystem) (artifacts : List Artifact) : Prop :=
  artifacts.Pairwise fun a b ↦ ∀ l, a.Touches fs l → ¬ b.Touches fs l

/-- While writing goes well: some artifacts are in place, others wait, and what no artifact touches
is as it was at the start. -/
structure Underway (start : FileSystem) (moved waiting : List Artifact) (fs : FileSystem) :
    Prop where
  directories : SameDirectories start fs
  landed : ∀ a ∈ moved, ∃ d, start.place? a.path = some d ∧ fs.lookup d = some (.file a.bytes)
  vacated : ∀ a ∈ moved, ∃ s, start.place? a.stagingPath = some s ∧ fs.lookup s = none
  waits : ∀ a ∈ waiting, ∃ s, start.place? a.stagingPath = some s ∧
    fs.lookup s = some (.file a.bytes)
  untouched : ∀ l, (∀ a ∈ moved ++ waiting, ¬ a.Touches start l) → fs.lookup l = start.lookup l

/-! ## One artifact -/

/-- One more artifact is put where it waits. -/
theorem Underway.stage (h : Underway start [] waiting fs) (hapart : Apart start (waiting ++ [a]))
    (hs : start.place? a.stagingPath = some s) :
    Underway start [] (waiting ++ [a]) (fs.put s (.file a.bytes)) := by
  have hs' : fs.place? a.stagingPath = some s := by rw [place?_congr h.directories, hs]
  have hlookup (l : Location) : (fs.put s (.file a.bytes)).lookup l =
      if l = s then some (.file a.bytes) else fs.lookup l :=
    lookup_put (isAbove_of_lookup (lookup_place?_ne hs')) _ l
  constructor
  case directories =>
    exact h.directories.trans (sameDirectories_put (lookup_place?_ne hs') a.bytes)
  case landed => simp
  case vacated => simp
  case waits =>
    intro b hb
    rcases List.mem_append.1 hb with hb | hb
    · obtain ⟨sb, hsb, hfile⟩ := h.waits b hb
      have hne : sb ≠ s := by
        rintro rfl
        exact (List.pairwise_append.1 hapart).2.2 b hb a List.mem_cons_self sb (.inr hsb) (.inr hs)
      exact ⟨sb, hsb, by rw [hlookup, if_neg hne, hfile]⟩
    · rw [List.mem_singleton.1 hb]
      exact ⟨s, hs, by rw [hlookup, if_pos rfl]⟩
  case untouched =>
    intro l hl
    have hne : l ≠ s := by
      rintro rfl
      exact hl a (by simp) (.inr hs)
    rw [hlookup, if_neg hne]
    exact h.untouched l fun b hb ↦ hl b (List.mem_append_left [a] hb)

/-- The first artifact that waits is moved to its destination. -/
theorem Underway.move (h : Underway start moved (a :: waiting) fs)
    (hapart : Apart start (moved ++ a :: waiting)) (hs : start.place? a.stagingPath = some s)
    (hd : start.place? a.path = some d) :
    Underway start (moved ++ [a]) waiting ((fs.erase s).put d (.file a.bytes)) := by
  have hs' : fs.place? a.stagingPath = some s := by rw [place?_congr h.directories, hs]
  have hd' : fs.place? a.path = some d := by rw [place?_congr h.directories, hd]
  have hlookup := lookup_moved hs' hd' a.bytes
  obtain ⟨-, hwaiting, hmoved⟩ := List.pairwise_append.1 hapart
  have hself : s ≠ d := by
    rintro rfl
    exact place?_stagingPath_ne hd hs
  -- What other artifacts touch is neither where this one goes nor where it waited.
  have hbefore {b : Artifact} (hb : b ∈ moved) {l : Location} (hl : b.Touches start l) :
      l ≠ d ∧ l ≠ s := by
    have hnot := hmoved b hb a List.mem_cons_self l hl
    exact ⟨fun hld ↦ hnot (.inl (hld ▸ hd)), fun hls ↦ hnot (.inr (hls ▸ hs))⟩
  have hbehind {b : Artifact} (hb : b ∈ waiting) {l : Location} (hl : b.Touches start l) :
      l ≠ d ∧ l ≠ s := by
    have hnot : ¬ a.Touches start l := fun ha ↦ (List.pairwise_cons.1 hwaiting).1 b hb l ha hl
    exact ⟨fun hld ↦ hnot (.inl (hld ▸ hd)), fun hls ↦ hnot (.inr (hls ▸ hs))⟩
  constructor
  case directories => exact h.directories.trans (sameDirectories_moved hs' hd' a.bytes)
  case landed =>
    intro b hb
    rcases List.mem_append.1 hb with hb | hb
    · obtain ⟨db, hdb, hfile⟩ := h.landed b hb
      obtain ⟨hne, hne'⟩ := hbefore hb (.inl hdb)
      exact ⟨db, hdb, by rw [hlookup, if_neg hne, if_neg hne', hfile]⟩
    · rw [List.mem_singleton.1 hb]
      exact ⟨d, hd, by rw [hlookup, if_pos rfl]⟩
  case vacated =>
    intro b hb
    rcases List.mem_append.1 hb with hb | hb
    · obtain ⟨sb, hsb, hnone⟩ := h.vacated b hb
      obtain ⟨hne, hne'⟩ := hbefore hb (.inr hsb)
      exact ⟨sb, hsb, by rw [hlookup, if_neg hne, if_neg hne', hnone]⟩
    · rw [List.mem_singleton.1 hb]
      exact ⟨s, hs, by rw [hlookup, if_neg hself, if_pos rfl]⟩
  case waits =>
    intro b hb
    obtain ⟨sb, hsb, hfile⟩ := h.waits b (List.mem_cons_of_mem a hb)
    obtain ⟨hne, hne'⟩ := hbehind hb (.inr hsb)
    exact ⟨sb, hsb, by rw [hlookup, if_neg hne, if_neg hne', hfile]⟩
  case untouched =>
    intro l hl
    have ha : ¬ a.Touches start l := hl a (by simp)
    have hne : l ≠ d := fun hld ↦ ha (.inl (hld ▸ hd))
    have hne' : l ≠ s := fun hls ↦ ha (.inr (hls ▸ hs))
    rw [hlookup, if_neg hne, if_neg hne']
    exact h.untouched l fun b hb ↦ hl b (by simpa [or_assoc] using hb)

/-! ## The phases -/

/-- Putting artifacts where they wait. -/
theorem underway_stageAll {done : List String} (h : Underway start [] waiting fs)
    (hapart : Apart start (waiting ++ rest))
    (hrun : (stageAll done rest : StateM FileSystem _) fs = (.ok (), fs')) :
    Underway start [] (waiting ++ rest) fs' := by
  induction rest generalizing done waiting fs with
  | nil =>
    cases hrun
    rwa [List.append_nil]
  | cons a rest ih =>
    have hsplit : waiting ++ a :: rest = waiting ++ [a] ++ rest := by simp
    rw [stageAll_cons] at hrun
    rw [hsplit] at hapart ⊢
    cases hs : start.place? a.stagingPath with
    | none =>
      have hs' : fs.place? a.stagingPath = none := by rw [place?_congr h.directories, hs]
      obtain ⟨cause, hcause⟩ := create_of_place?_eq_none hs' a.bytes
      rw [hcause] at hrun
      cases hrun
    | some s =>
      have hs' : fs.place? a.stagingPath = some s := by rw [place?_congr h.directories, hs]
      rw [create_of_place? hs' a.bytes] at hrun
      exact ih (h.stage (List.pairwise_append.1 hapart).1 hs) hapart hrun

/-- Moving what waits. -/
theorem underway_moveAll {count : Nat} (h : Underway start moved waiting fs)
    (hapart : Apart start (moved ++ waiting))
    (hrun : (moveAll count waiting : StateM FileSystem _) fs = (.ok (), fs')) :
    Underway start (moved ++ waiting) [] fs' := by
  induction waiting generalizing moved fs with
  | nil =>
    cases hrun
    rwa [List.append_nil]
  | cons a waiting ih =>
    have hsplit : moved ++ a :: waiting = moved ++ [a] ++ waiting := by simp
    obtain ⟨s, hs, hfile⟩ := h.waits a List.mem_cons_self
    have hs' : fs.place? a.stagingPath = some s := by rw [place?_congr h.directories, hs]
    rw [moveAll_cons] at hrun
    cases hd : start.place? a.path with
    | none =>
      have hd' : fs.place? a.path = none := by rw [place?_congr h.directories, hd]
      obtain ⟨cause, hcause⟩ := rename_of_place?_eq_none hs' hd'
      rw [hcause] at hrun
      cases hrun
    | some d =>
      have hd' : fs.place? a.path = some d := by rw [place?_congr h.directories, hd]
      have hnext := h.move hapart hs hd
      rw [rename_of_place? hs' hfile hd'] at hrun
      rw [hsplit] at hapart ⊢
      exact ih hnext hapart hrun

/-- Artifacts that are apart are all in place once they are written. -/
theorem underway_writeFiles (hapart : Apart start artifacts)
    (hrun : (writeFiles artifacts : StateM FileSystem _) start = (.ok (), fs)) :
    Underway start artifacts [] fs := by
  have hstart : Underway start [] [] start :=
    ⟨.refl start, by simp, by simp, by simp, fun _ _ ↦ rfl⟩
  simp only [writeFiles, bind, StateT.bind] at hrun
  cases hstage : (stageAll [] artifacts : StateM FileSystem _) start with
  | mk result middle =>
    rw [hstage] at hrun
    cases result with
    | error e => cases hrun
    | ok _ => exact underway_moveAll (underway_stageAll hstart hapart hstage) hapart hrun

/-! ## Paths -/

/-- What the paths of written artifacts lead to, and what every other path leads to. -/
theorem Underway.entryAt? (h : Underway start artifacts [] fs) :
    (∀ a ∈ artifacts, fs.entryAt? a.path = some (.file a.bytes) ∧
      fs.entryAt? a.stagingPath = none) ∧
    ∀ other, (∀ a ∈ artifacts, ¬ start.SamePlace other a.path ∧
        ¬ start.SamePlace other a.stagingPath) →
      fs.entryAt? other = start.entryAt? other := by
  refine ⟨fun a ha ↦ ⟨?_, ?_⟩, fun other hother ↦ ?_⟩
  · obtain ⟨d, hd, hfile⟩ := h.landed a ha
    have hd' : fs.place? a.path = some d := by rw [place?_congr h.directories, hd]
    rw [entryAt?_of_place? hd', hfile]
  · obtain ⟨s, hs, hnone⟩ := h.vacated a ha
    have hs' : fs.place? a.stagingPath = some s := by rw [place?_congr h.directories, hs]
    rw [entryAt?_of_place? hs', hnone]
  · refine entryAt?_congr h.directories fun t ht ↦ h.untouched t.location fun a ha htouch ↦ ?_
    rw [List.append_nil] at ha
    rcases htouch with hd | hs
    · exact (hother a ha).1 ⟨t, _, ht, target_of_place? hd, rfl⟩
    · exact (hother a ha).2 ⟨t, _, ht, target_of_place? hs, rfl⟩

end StateGen.Artifact
