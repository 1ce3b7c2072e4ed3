import Canon.Loop.PlanCheck

/-! # Plans and the workspace directory

    Which files an accepted action writes, and when these lie under the directory
    the action is resolved against.  The path of an edit is checked when the plan
    is; the paths inside a patch are parsed and never looked at.
-/

namespace Canon.Loop

open Canon.Patch (Hunk)

/-! ### The files an action writes -/

variable {planned : LoopPlanned} (dir path : FilePath)

/-- A path as the executors resolve it. -/
def resolveAgainst : FilePath :=
  if FilePath.isAbsolute path then path else FilePath.join dir path

/-- The file of a hunk and the file it is moved to. -/
def hunkPaths : Hunk → List FilePath
  | .addFile path _ => [path]
  | .deleteFile path => [path]
  | .updateFile path movePath _ => path :: movePath.toList

/-- The paths in an action that name files it creates, modifies, deletes or moves to. -/
def writtenPaths (planned : LoopPlanned) : List FilePath :=
  match planned.actionKind with
  | .writeFile | .patchFile | .addImport | .defineSymbolStub | .createModuleFile =>
    (planned.field "path").toList
  | .applyPatch => (patchHunks planned).flatMap hunkPaths
  | _ => []

/-- Every file the action writes lies under `dir`, when it is resolved against it. -/
def Confined (dir : FilePath) (planned : LoopPlanned) : Prop :=
  ∀ path ∈ writtenPaths planned, FilePath.Under dir (resolveAgainst dir path)

instance (dir : FilePath) (planned : LoopPlanned) : Decidable (Confined dir planned) :=
  inferInstanceAs (Decidable (∀ path ∈ writtenPaths planned, _))

/-! ### What the check says about paths -/

theorem resolveAgainst_eq_join :
    resolveAgainst dir path = FilePath.join dir path := by
  unfold resolveAgainst
  split
  · rename_i habs
    simp [FilePath.join, habs]
  · rfl

theorem under_resolveAgainst_iff :
    FilePath.Under dir (resolveAgainst dir path) ↔ FilePath.Inside dir path := by
  rw [resolveAgainst_eq_join, FilePath.under_join_iff]

/-- A path that passes the check stays inside every directory. -/
theorem inside_of_validateWorkspaceRelativePath {path : FilePath}
    (h : validateWorkspaceRelativePath path = .ok ()) (dir : FilePath) :
      FilePath.Inside dir path := by
  unfold validateWorkspaceRelativePath at h
  split at h
  · cases h
  · rename_i habs
    split at h
    · cases h
    · rename_i hparent
      exact FilePath.inside_of_no_parent (by simpa using habs) (by simpa using hparent)

theorem inside_of_checkPath (h : checkPath planned = .ok ()) {path : FilePath}
    (hpath : path ∈ (planned.field "path").toList) (dir : FilePath) : FilePath.Inside dir path := by
  rw [Option.mem_toList] at hpath
  unfold checkPath at h
  rw [hpath] at h
  cases hcheck : validateWorkspaceRelativePath path with
  | error message =>
    simp only [hcheck] at h
    cases h
  | ok u => exact inside_of_validateWorkspaceRelativePath hcheck dir

theorem checkPath_of_checkOneName {name : String} {message : Text}
    (h : checkOneName planned name message = .ok ()) : checkPath planned = .ok () := by
  rw [checkOneName, firstError_eq_ok_iff] at h
  simp only [List.forall_mem_cons] at h
  exact h.2.2.2.1

/-- The file of an accepted edit other than a patch stays inside. -/
theorem inside_of_accepted (h : validateActionPayload planned = .ok ())
    (hkind : planned.actionKind ≠ .applyPatch) {path : FilePath}
    (hpath : path ∈ writtenPaths planned) (dir : FilePath) : FilePath.Inside dir path := by
  unfold writtenPaths at hpath
  unfold validateActionPayload at h
  cases hk : planned.actionKind with
  | writeFile | patchFile | createModuleFile =>
    simp only [hk] at h hpath
    exact inside_of_checkPath h hpath dir
  | addImport | defineSymbolStub =>
    simp only [hk] at h hpath
    exact inside_of_checkPath (checkPath_of_checkOneName h) hpath dir
  | applyPatch => exact absurd hk hkind
  | _ =>
    simp only [hk] at hpath
    cases hpath

/-! ### When a plan stays inside -/

/-- An accepted action stays under the directory it is resolved against exactly when
    it is no patch, or a patch in which every file and every move target stays
    inside. -/
theorem confined_iff {fs : Fs} {actions : List LoopPlanned} {retryPolicy : RetryPolicy}
    {summary : SemanticStateSummary} {trend : ObjectiveTrendState}
    {results : List SemanticExecutionResultRecord}
    {forcedObjective : Option DevelopmentObjectiveKind}
    {forcedStrategy : Option DevelopmentStrategyKind}
    (haccept : validateActionBatch fs actions retryPolicy summary trend results forcedObjective
      forcedStrategy = .ok ()) (dir : FilePath) :
    (∀ planned ∈ actions, Confined dir planned) ↔
      ∀ planned ∈ actions, planned.actionKind = .applyPatch →
        ∀ hunk ∈ patchHunks planned, ∀ path ∈ hunkPaths hunk, FilePath.Inside dir path := by
  obtain ⟨planned, targetRoot, rfl, haction⟩ := acceptedAction_of_accepted haccept
  simp only [List.mem_singleton, forall_eq]
  unfold Confined
  simp only [under_resolveAgainst_iff]
  constructor
  · intro hconfined hkind hunk hhunk path hpath
    apply hconfined path
    unfold writtenPaths
    rw [hkind]
    exact List.mem_flatMap.mpr ⟨hunk, hhunk, hpath⟩
  · intro hpatch path hpath
    by_cases hkind : planned.actionKind = .applyPatch
    · unfold writtenPaths at hpath
      rw [hkind] at hpath
      obtain ⟨hunk, hhunk, hpath⟩ := List.mem_flatMap.mp hpath
      exact hpatch hkind hunk hhunk path hpath
    · exact inside_of_accepted haction.payload hkind hpath dir

/-! ### A patch that leaves the workspace -/

/-- A complete summary with one localized compiler failure. -/
def patchSummary : SemanticStateSummary :=
  { SemanticStateSummary.empty with
    version := 1
    complete := true
    targetRoot := some "/w"
    pathExists := true
    cargoProject := true
    entrypointKind := some "lib"
    sourceFiles := ["src/lib.rs", "tests/run_test.rs"]
    compilerHints := [hintOf .missingModule "compiler reports missing module" "add it"
      ["src/lib.rs"] .localized]
    failureClass := some "missing_module"
    failureScope := some "localized" }

/-- One action that adds a file. -/
def addFilePlan (path : Text) : LoopPlanned :=
  { (default : LoopPlanned) with
    actionKind := .applyPatch
    actionPayload := .obj
      [("failure_class", .str "missing_module"), ("verifier", .str "cargo_check"),
       ("patch", jsonText ("*** Begin Patch\n*** Add File: ".toList ++ path ++
         "\n+pub fn run() \x7b\x7d\n*** End Patch".toList))] }

/-- The workspace `/w` with a manifest and a library. -/
def libProject : Fs where
  root := .dir [("w", .dir [("Cargo.toml", .file (some "[package]")),
    ("src", .dir [("lib.rs", .file (some "mod run;"))])])]
  cwd := []

/-- Three errors where the objective started with none. -/
def errorTrend : ObjectiveTrendState :=
  { baselineErrorCount := some 0, currentErrorCount := some 3 }

theorem confined_iff_run_rs :
    (∀ planned ∈ [addFilePlan "src/run.rs"], Confined "/w" planned) ↔
      ∀ planned ∈ [addFilePlan "src/run.rs"], planned.actionKind = .applyPatch →
        ∀ hunk ∈ patchHunks planned, ∀ path ∈ hunkPaths hunk, FilePath.Inside "/w" path := by
  have haccept : validateActionBatch libProject [addFilePlan "src/run.rs"] .none patchSummary
      errorTrend [] none none = .ok () := by
    decide +kernel
  exact confined_iff haccept "/w"

/-- The batch that adds `../outside.rs` is accepted, and the file is not in `/w`. -/
theorem accepted_patch_leaves_workspace :
    ¬ ∀ (fs : Fs) (actions : List LoopPlanned) (retryPolicy : RetryPolicy)
        (summary : SemanticStateSummary) (trend : ObjectiveTrendState)
        (results : List SemanticExecutionResultRecord)
        (forcedObjective : Option DevelopmentObjectiveKind)
        (forcedStrategy : Option DevelopmentStrategyKind) (dir : FilePath),
        validateActionBatch fs actions retryPolicy summary trend results forcedObjective
          forcedStrategy = .ok () →
        ∀ planned ∈ actions, Confined dir planned := by
  intro hall
  have haccept : validateActionBatch libProject [addFilePlan "../outside.rs"] .none patchSummary
      errorTrend [] none none = .ok () := by
    decide +kernel
  have houtside : ¬ Confined "/w" (addFilePlan "../outside.rs") := by
    decide +kernel
  exact houtside (hall _ _ _ _ _ _ _ _ "/w" haccept _ (List.mem_singleton.mpr rfl))

end Canon.Loop
