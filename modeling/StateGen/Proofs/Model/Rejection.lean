import StateGen.Proofs.Model.Acceptance

/-!
# Rejected declarations leave no trace

A rejected declaration leaves the whole model as it was, so a run that goes on after rejections ends
where a run of the accepted declarations alone ends. Each declaration of a run is judged by the
model as it is when its turn comes.
-/

namespace StateGen.Model

open Declaration

/-- Whether a declaration is accepted. -/
def accepts (m : Model) (d : Declaration) : Bool :=
  match apply d m with
  | .ok _ _ => true
  | .error _ _ => false

/-- The declarations that are accepted in a run over all of them. -/
def accepted (m : Model) : List Declaration → List Declaration
  | [] => []
  | d :: ds =>
    if m.accepts d then d :: accepted (m.afterApply d) ds else accepted (m.afterApply d) ds

/-- An accepted declaration takes the model to the next one of the run. -/
theorem apply_of_accepts {m : Model} {d : Declaration} (h : m.accepts d) :
    apply d m = .ok () (m.afterApply d) := by
  unfold accepts at h
  unfold afterApply
  cases hd : apply d m with
  | ok _ m' => rfl
  | error e m' =>
    rw [hd] at h
    cases h

/-- The run goes on from the same model behind a rejected declaration. -/
theorem afterApply_of_not_accepts {m : Model} {d : Declaration} (h : ¬ m.accepts d) :
    m.afterApply d = m := by
  unfold accepts at h
  unfold afterApply
  cases hd : apply d m with
  | ok _ m' =>
    rw [hd] at h
    exact absurd rfl h
  | error e m' => exact eq_of_apply_eq_error hd

/-- The accepted declarations are all accepted on their own, and end where the run ends. -/
theorem applyAll_accepted (m : Model) (ds : List Declaration) :
    applyAll (m.accepted ds) m = .ok () (m.applyEach ds) := by
  induction ds generalizing m with
  | nil => rfl
  | cons d ds ih =>
    rw [accepted, applyEach, List.foldl_cons, ← applyEach]
    by_cases hd : m.accepts d
    · rw [if_pos hd]
      simp only [applyAll, bind, EStateM.bind, apply_of_accepts hd]
      exact ih (m.afterApply d)
    · rw [if_neg hd, afterApply_of_not_accepts hd]
      exact ih m

/-- The accepted declarations of a run agree with each other. -/
theorem acceptable_accepted (inputPath : String) (ds : List Declaration) :
    Acceptable ((initial inputPath).accepted ds) := by
  have hrun := applyAll_accepted (initial inputPath) ds
  rw [initial_eq_declaredBy] at hrun ⊢
  simpa using acceptable_of_applyAll acceptable_nil hrun

/-- A run ends in the model that its accepted declarations describe. -/
theorem applyEach_eq_declaredBy (inputPath : String) (ds : List Declaration) :
    (initial inputPath).applyEach ds = declaredBy inputPath ((initial inputPath).accepted ds) := by
  have hrun := applyAll_accepted (initial inputPath) ds
  rw [initial_eq_declaredBy] at hrun ⊢
  simpa using (applyAll_declaredBy consistent_nil hrun).1

/-- In a run in which nothing is rejected, going on after rejections makes no difference. -/
theorem applyEach_of_applyAll {m m' : Model} {ds : List Declaration}
    (h : applyAll ds m = .ok () m') : m.applyEach ds = m' := by
  induction ds generalizing m with
  | nil =>
    injection h with _ hm
  | cons d ds ih =>
    rw [applyEach, List.foldl_cons, ← applyEach, afterApply]
    simp only [applyAll, bind, EStateM.bind] at h
    cases hd : apply d m with
    | error e m₁ =>
      rw [hd] at h
      cases h
    | ok _ m₁ =>
      rw [hd] at h
      exact ih h

/-- Whatever was declared before, a rejected declaration changes no part of the model. So a run that
ignores rejections ends in the same model, with the same published machine or the same final
rejection, as a run of the declarations that it accepted. -/
theorem rejection_leaves_no_trace (inputPath : String) (ds : List Declaration) :
    let start := initial inputPath
    let m := start.applyEach ds
    (∀ d e m', apply d m = .error e m' → m' = m) ∧
      applyAll (start.accepted ds) start = .ok () m ∧
      start.applyEach (start.accepted ds) = m ∧
      build inputPath (start.accepted ds) = m.finalize := by
  intro start m
  have hrun : applyAll (start.accepted ds) start = .ok () m := applyAll_accepted start ds
  refine ⟨fun d e m' h ↦ eq_of_apply_eq_error h, hrun, applyEach_of_applyAll hrun, ?_⟩
  rw [build, hrun]

/-- A blind that moves without events. A state is declared twice, an edge too early, and a guard is
attached to an edge that does not exist. -/
private def blind : List Declaration :=
  [⟨.state "up", .none⟩, ⟨.state "up", .none⟩, ⟨.transition "up" none "down", .none⟩,
    ⟨.state "down", .none⟩, ⟨.initial "up", .none⟩, ⟨.transition "up" none "down", .none⟩,
    ⟨.precondition (.transition "down" "up") "calm", .none⟩]

/-- Four declarations of the blind are accepted, and an event comes too late for it. -/
theorem rejection_leaves_no_trace_blind :
    (initial "blind.fsm").accepted blind =
        [⟨.state "up", .none⟩, ⟨.state "down", .none⟩, ⟨.initial "up", .none⟩,
          ⟨.transition "up" none "down", .none⟩] ∧
      apply ⟨.event "pull", .none⟩ ((initial "blind.fsm").applyEach blind) =
        .error (.eventAmongDirect "pull") ((initial "blind.fsm").applyEach blind) ∧
      build "blind.fsm" ((initial "blind.fsm").accepted blind) =
        ((initial "blind.fsm").applyEach blind).finalize := by
  obtain ⟨hstep, -, -, hbuild⟩ := rejection_leaves_no_trace "blind.fsm" blind
  have hlate : ∃ m, apply ⟨.event "pull", .none⟩ ((initial "blind.fsm").applyEach blind) =
      .error (.eventAmongDirect "pull") m := ⟨_, rfl⟩
  obtain ⟨m, hm⟩ := hlate
  refine ⟨by decide +kernel, ?_, hbuild⟩
  rw [hm, hstep _ _ _ hm]

end StateGen.Model
