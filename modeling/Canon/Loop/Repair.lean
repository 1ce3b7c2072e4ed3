import Canon.Loop.PlanCheck

/-! # Plans for a workspace that needs repair

    The observation marks a summary complete when nothing is left to repair, and the
    batch check refuses every batch for a summary that is not complete.  So as soon
    as there is something to repair, there is no plan.
-/

namespace Canon.Loop

/-- The preconditions the observation derives from the workspace and the messages. -/
def observedPreconditions (fs : Fs) (goalText : Option Text) (workspace : FilePath)
    (compilerErrors : List Json) : Option (List PlanningPrecondition) :=
  (extractCompilerHints compilerErrors).map
    (derivePreconditions (WorkspaceModel.inspect fs (goalText.getD []) workspace))

/-- A summary is complete only when it has no preconditions. -/
theorem preconditions_eq_nil_of_complete {T : Tools} {fs : Fs} {model : WorkspaceModel}
    {hints : List CompilerHintRecord} (h : (observationSummary T fs model hints).complete = true) :
    derivePreconditions model hints = [] := by
  have hcomplete : (model.pathExists && model.cargoTomlExists && model.moduleGaps.isEmpty &&
      (derivePreconditions model hints).isEmpty) = true := h
  rw [Bool.and_eq_true] at hcomplete
  exact List.isEmpty_iff.mp hcomplete.2

/-- The payload of an observation has the summary of the inspected workspace. -/
theorem summary_of_payload {T : Tools} {fs : Fs} {goalText : Option Text} {workspace : FilePath}
    {compilerErrors : List Json} {summary : SemanticStateSummary} {diagnostics : List Text}
    (h : buildObservationPayload T fs goalText workspace compilerErrors
      = some (summary, diagnostics)) :
    ∃ hints, extractCompilerHints compilerErrors = some hints ∧
      summary = observationSummary T fs
        (WorkspaceModel.inspect fs (goalText.getD []) workspace) hints := by
  unfold buildObservationPayload at h
  obtain ⟨hints, hhints, hrest⟩ := Option.bind_eq_some_iff.mp h
  simp only at hrest
  split at hrest
  · refine ⟨hints, hhints, ?_⟩
    exact (Prod.mk.inj (Option.some.inj hrest)).1.symm
  · cases hrest

/-- With a precondition left the summary is not complete. -/
theorem complete_eq_false_of_preconditions {T : Tools} {fs : Fs} {goalText : Option Text}
    {workspace : FilePath} {compilerErrors : List Json} {summary : SemanticStateSummary}
    {diagnostics : List Text} {preconditions : List PlanningPrecondition}
    (hpayload : buildObservationPayload T fs goalText workspace compilerErrors
      = some (summary, diagnostics))
    (hpre : observedPreconditions fs goalText workspace compilerErrors = some preconditions)
    (hleft : preconditions ≠ []) : summary.complete = false := by
  obtain ⟨hints, hhints, rfl⟩ := summary_of_payload hpayload
  rw [observedPreconditions, hhints, Option.map_some, Option.some.injEq] at hpre
  rw [Bool.eq_false_iff]
  intro hcomplete
  exact hleft (hpre.symm.trans (preconditions_eq_nil_of_complete hcomplete))

theorem not_accepted_of_incomplete {fs : Fs} {actions : List LoopPlanned}
    {retryPolicy : RetryPolicy} {summary : SemanticStateSummary} {trend : ObjectiveTrendState}
    {results : List SemanticExecutionResultRecord}
    {forcedObjective : Option DevelopmentObjectiveKind}
    {forcedStrategy : Option DevelopmentStrategyKind} (h : summary.complete = false) :
    validateActionBatch fs actions retryPolicy summary trend results forcedObjective forcedStrategy
      ≠ .ok () := by
  intro haccept
  obtain ⟨planned, targetRoot, -, haction⟩ := acceptedAction_of_accepted haccept
  rw [haction.complete] at h
  cases h

/-- No batch is accepted for a workspace with a precondition left, whichever it is
    and whatever the batch does. -/
theorem no_batch_accepted_with_preconditions {T : Tools} {fs : Fs} {goalText : Option Text}
    {workspace : FilePath} {compilerErrors : List Json} {summary : SemanticStateSummary}
    {diagnostics : List Text} {preconditions : List PlanningPrecondition}
    (hpayload : buildObservationPayload T fs goalText workspace compilerErrors
      = some (summary, diagnostics))
    (hpre : observedPreconditions fs goalText workspace compilerErrors = some preconditions)
    (hleft : preconditions ≠ []) :
    ¬ ∃ actions, validateActionBatch fs actions .none summary {} [] none none = .ok () := by
  rintro ⟨actions, haccept⟩
  exact not_accepted_of_incomplete
    (complete_eq_false_of_preconditions hpayload hpre hleft) haccept

/-! ### A Cargo project without an entrypoint -/

/-- A manifest and nothing else. -/
def bareProject : Fs where
  root := .dir [("w", .dir [("Cargo.toml", .file (some "[package]"))])]
  cwd := []

def bareGoal : Text := "Project in \x60/w\x60"

def noTools : Tools where
  jsonFromStr _ := none
  searchHitCount _ _ := 0

theorem bareProject_preconditions :
    observedPreconditions bareProject (some bareGoal) "/w" [] = some [.mustCreateEntrypoint] := by
  decide +kernel

theorem bareProject_payload :
    (buildObservationPayload noTools bareProject (some bareGoal) "/w" []).isSome := by
  decide +kernel

theorem no_batch_accepted_for_bareProject :
    ∃ summary diagnostics,
      buildObservationPayload noTools bareProject (some bareGoal) "/w" []
        = some (summary, diagnostics) ∧
      ¬ ∃ actions, validateActionBatch bareProject actions .none summary {} [] none none
        = .ok () := by
  obtain ⟨⟨summary, diagnostics⟩, hpayload⟩ := Option.isSome_iff_exists.mp bareProject_payload
  refine ⟨summary, diagnostics, hpayload, ?_⟩
  exact no_batch_accepted_with_preconditions hpayload bareProject_preconditions (by simp)

/-- The only thing left to do is to create an entrypoint, and every batch is refused. -/
theorem missing_entrypoint_admits_no_plan :
    observedPreconditions bareProject (some bareGoal) "/w" [] = some [.mustCreateEntrypoint] ∧
      ∃ summary diagnostics,
        buildObservationPayload noTools bareProject (some bareGoal) "/w" []
          = some (summary, diagnostics) ∧
        ∀ actions, validateActionBatch bareProject actions .none summary {} [] none none
          ≠ .ok () := by
  obtain ⟨⟨summary, diagnostics⟩, hpayload⟩ := Option.isSome_iff_exists.mp bareProject_payload
  refine ⟨bareProject_preconditions, summary, diagnostics, hpayload, ?_⟩
  intro actions
  exact not_accepted_of_incomplete
    (complete_eq_false_of_preconditions hpayload bareProject_preconditions (by simp))

end Canon.Loop
