import Canon.Loop.Workspace
import Canon.Patch.Parser

/-! # Checking a planned batch

    `validate_action_batch` of `plan.rs` and the checks of
    `planning_preconditions.rs` behind it.  A batch is one action; what the checks
    look at is the action's kind, its payload, the semantic summary of the last
    observation and, for the target directory, the file system.
-/

namespace Canon.Loop

open Canon.Patch (Hunk parsePatch)

variable (actions : List LoopPlanned) (intents : List ActionIntent) (planned : LoopPlanned)
   (targetRoot : FilePath) (summary : SemanticStateSummary)

/-! ### What an action touches -/

def Hunk.path : Hunk → FilePath
  | .addFile path _ => path
  | .deleteFile path => path
  | .updateFile path _ _ => path

/-- The hunks of the patch in the payload; none when there is no patch. -/
def patchHunks : List Hunk :=
  match planned.field "patch" with
  | some patch =>
    match parsePatch patch with
    | .ok args => args.hunks
    | .error _ => []
  | none => []

def touchedPaths : List FilePath :=
  match planned.actionKind with
  | .writeFile | .readFile | .listDir | .patchFile => (planned.field "path").toList
  | .applyPatch => (patchHunks planned).map Hunk.path
  | _ => []

def createdPaths : List FilePath :=
  match planned.actionKind with
  | .writeFile => (planned.field "path").toList
  | .applyPatch =>
    (patchHunks planned).filterMap fun
      | .addFile path _ => some path
      | _ => none
  | _ => []

def normalizePath (targetRoot path : FilePath) : FilePath :=
  if FilePath.isAbsolute path then path else FilePath.join targetRoot path

def normalizedTouchedPaths : List FilePath :=
  (touchedPaths planned).map (normalizePath targetRoot)

def normalizedCreatedPaths : List FilePath :=
  (createdPaths planned).map (normalizePath targetRoot)

def touchesAnyPath (expected : List FilePath) : Bool :=
  expected.any fun path =>
    (normalizedTouchedPaths planned targetRoot).any fun candidate => FilePath.same candidate path

def touchesTestSurface : Bool :=
  touchesAnyPath planned targetRoot
    [FilePath.join targetRoot "tests", FilePath.join targetRoot "src"] &&
    (touchedPaths planned).any isTestPath

/-! ### Intents -/

inductive IntentKind where
  | bootstrapWorkspace
  | initCargoProject
  | validateCargoCheck
  | createEntrypoint
  | createModuleFile
  | restructureModules
  | fixDeadCodeConflict
  | fixUnresolvedImport
  | defineMissingSymbol
  | resolveDuplicateDefinition
  | fixTraitBoundFailure
deriving DecidableEq, Repr

/-- `action_intent_key`. -/
def IntentKind.key : IntentKind → Text
  | bootstrapWorkspace => "bootstrap_workspace"
  | initCargoProject => "init_cargo_project"
  | validateCargoCheck => "validate_cargo_check"
  | createEntrypoint => "create_entrypoint"
  | createModuleFile => "create_module_file"
  | restructureModules => "restructure_modules"
  | fixDeadCodeConflict => "fix_dead_code_conflict"
  | fixUnresolvedImport => "fix_unresolved_import"
  | defineMissingSymbol => "define_missing_symbol"
  | resolveDuplicateDefinition => "resolve_duplicate_definition"
  | fixTraitBoundFailure => "fix_trait_bound_failure"

/-- An intent and the file it is about; the first three kinds have none. -/
structure ActionIntent where
  kind : IntentKind
  path : Option FilePath
deriving DecidableEq, Repr

def isTraitBoundEdit (patch : Text) : Bool :=
  (Text.lines patch).any fun line =>
    (Text.startsWith "+" line || Text.startsWith "-" line) &&
      (Text.contains "impl " line || Text.contains "where " line || Text.contains "derive(" line ||
        Text.contains ": " line)

def isEntrypointText (path : FilePath) : Bool :=
  Text.endsWith "src/main.rs" path || Text.endsWith "src/lib.rs" path

/-- The intent of an edit of one file. -/
def pathIntent (kind : IntentKind) (planned : LoopPlanned) (targetRoot : FilePath) :
    List ActionIntent :=
  ((planned.field "path").map fun path =>
    { kind := kind, path := some (normalizePath targetRoot path) }).toList

def commandIntents (cmd : Text) : List ActionIntent :=
  (if Text.contains "cargo new" cmd then [⟨.bootstrapWorkspace, none⟩] else []) ++
    (if Text.contains "cargo init" cmd then [⟨.initCargoProject, none⟩] else []) ++
    (if Text.contains "cargo check" cmd then [⟨.validateCargoCheck, none⟩] else [])

/-- The intents read off the files an action touches. -/
def fileIntents : List ActionIntent :=
  let patch := (planned.field "patch").getD []
  ((normalizedCreatedPaths planned targetRoot).flatMap fun path =>
    if isEntrypointText path then [⟨.createEntrypoint, some path⟩] else []) ++
  ((normalizedTouchedPaths planned targetRoot).flatMap fun path =>
    (if Text.contains "allow(dead_code)" patch && isEntrypointText path then
      [⟨.fixDeadCodeConflict, some path⟩] else []) ++
    (if isTraitBoundEdit patch then [⟨.fixTraitBoundFailure, some path⟩] else []))

def classifyActionIntents (planned : LoopPlanned) : List ActionIntent :=
  match planned.actionKind with
  | .renameSymbol => pathIntent .resolveDuplicateDefinition planned targetRoot
  | .moveSymbol => pathIntent .restructureModules planned targetRoot
  | .addImport => pathIntent .fixUnresolvedImport planned targetRoot
  | .defineSymbolStub => pathIntent .defineMissingSymbol planned targetRoot
  | .createModuleFile => pathIntent .createModuleFile planned targetRoot
  | .runCommand =>
    ((planned.field "cmd").map commandIntents).getD [] ++ fileIntents planned targetRoot
  | _ => fileIntents planned targetRoot

def collectActionIntents : List ActionIntent :=
  actions.flatMap (classifyActionIntents targetRoot)

/-- An intent of this kind about one of the expected files, or about any file when
    none is expected. -/
def containsExpectedTarget (kind : IntentKind) (expected : List FilePath) : Bool :=
  intents.any fun intent =>
    intent.kind = kind && (expected.isEmpty || expected.any fun candidate =>
      (intent.path.map (FilePath.same candidate)).getD false)

def expectedEntrypointPaths (targetRoot : FilePath) : List FilePath :=
  let main := FilePath.join targetRoot "src/main.rs"
  let lib := FilePath.join targetRoot "src/lib.rs"
  if summary.entrypointKind = some "lib" then [lib]
  else if summary.entrypointKind = some "bin" then [main]
  else [main, lib]

/-- The pieces of `s` between the occurrences of `sep`. -/
def splitOnText (sep : Text) : Nat → Text → List Text
  | 0, s => [s]
  | fuel + 1, s =>
    match Text.splitOnce? sep s with
    | some (piece, rest) => piece :: splitOnText sep fuel rest
    | none => [s]

def expectedModulePaths (targetRoot : FilePath) : List FilePath :=
  summary.moduleGaps.flatMap fun gap =>
    match Text.splitOnce? "->" gap with
    | some (_, paths) =>
      (splitOnText " or " paths.length paths).filterMap fun path =>
        if Text.trim path = [] then none else some (normalizePath targetRoot (Text.trim path))
    | none => []

def expectedDeadCodePaths (targetRoot : FilePath) : List FilePath :=
  let out := (summary.sourceFiles.filter isEntrypointText).map (normalizePath targetRoot)
  if out.isEmpty
    then [FilePath.join targetRoot "src/lib.rs", FilePath.join targetRoot "src/main.rs"]
  else out

/-- The files the hints of one kind name; the source also sorts them. -/
def expectedHintPaths (hintKind : CompilerHintKind) (targetRoot : FilePath) : List FilePath :=
  (summary.compilerHints.filter (·.kind = hintKind.asStr)).flatMap fun hint =>
    (hint.targetFiles.filter (· ≠ "none".toList)).map (normalizePath targetRoot)

/-- The intent that answers a hint. -/
def intentOfHint : CompilerHintKind → Option IntentKind
  | .unresolvedImport => some .fixUnresolvedImport
  | .missingSymbol => some .defineMissingSymbol
  | .duplicateDefinition => some .resolveDuplicateDefinition
  | .traitBoundFailure => some .fixTraitBoundFailure
  | _ => none

def containsExpectedEntrypointTarget (targetRoot : FilePath) : Bool :=
  containsExpectedTarget intents .createEntrypoint (expectedEntrypointPaths summary targetRoot)

def containsExpectedModuleTarget (targetRoot : FilePath) : Bool :=
  containsExpectedTarget intents .createModuleFile (expectedModulePaths summary targetRoot)

def containsExpectedDeadCodeTarget (targetRoot : FilePath) : Bool :=
  containsExpectedTarget intents .fixDeadCodeConflict (expectedDeadCodePaths summary targetRoot)

def containsExpectedHintTarget (hintKind : CompilerHintKind) (targetRoot : FilePath) : Bool :=
  ((intentOfHint hintKind).map fun kind =>
    containsExpectedTarget intents kind (expectedHintPaths summary hintKind targetRoot)).getD false

/-! ### Checks against the preconditions -/

def containsCargoCheck : Bool :=
  actions.any fun planned =>
    planned.actionKind = .runCommand &&
      ((planned.field "cmd").map (Text.contains "cargo check")).getD false

def containsExpectedBootstrapAction (expected : BootstrapToolChoice) :
    Bool :=
  actions.any (metaInvariantToolSelectionCorrectness expected)

def containsEntrypointCreation : Bool :=
  actions.any fun planned => touchesAnyPath planned targetRoot
    [FilePath.join targetRoot "src/main.rs", FilePath.join targetRoot "src/lib.rs"]

def containsModuleCreation : Bool :=
  actions.any fun planned =>
    planned.actionKind = .createModuleFile &&
      ((planned.field "path").map fun path =>
        let path := normalizePath targetRoot path
        FilePath.startsWith (FilePath.join targetRoot "src") path &&
          (FilePath.fileName path).bind FilePath.extension = some "rs").getD false

def containsDeadCodeConflictFix : Bool :=
  actions.any fun planned =>
    touchesAnyPath planned targetRoot
        [FilePath.join targetRoot "src/lib.rs", FilePath.join targetRoot "src/main.rs"] &&
      (planned.actionKind ≠ .applyPatch ||
        ((planned.field "patch").map (Text.contains "allow(dead_code)")).getD false)

def effectiveActionableFailure : Bool :=
  summary.validationBlockedByPreconditions || summary.compilerRepairRequired ||
    !summary.planningPreconditions.isEmpty || !summary.moduleGaps.isEmpty ||
    entrypointUnknown summary || summary.hasActionableCompilerHints ||
    (summary.primaryFailureClass.map fun cls => decide (cls ≠ noActionableFailure)).getD false

def effectiveFailureScopeLocalized : Bool :=
  summary.failureScope = some "localized" || !summary.moduleGaps.isEmpty ||
    entrypointUnknown summary || hasTargetedLocalizedHint summary

/-- Whether the target directory and its manifest exist, as the planner sees it. -/
def plannerWorkspacePresence (fs : Fs) (targetRoot : FilePath) (summary : SemanticStateSummary) :
    Bool × Bool :=
  if fs.pathExists targetRoot then (true, fs.pathExists (FilePath.join targetRoot "Cargo.toml"))
  else (summary.pathExists, summary.cargoProject)

/-- The state the planner's checks are made in; they differ in where the first two
    fields come from and in what counts as a failure. -/
def plannerConstraintState (realPathExists realCargoProject actionableFailure : Bool) :
    ConstraintState where
  semanticPathExists := summary.pathExists
  semanticCargoProject := summary.cargoProject
  realPathExists := realPathExists
  realCargoProject := realCargoProject
  actionableFailure := actionableFailure
  validationBlocked := summary.validationBlockedByPreconditions
  entrypointMissing := entrypointUnknown summary
  moduleGapsPresent := !summary.moduleGaps.isEmpty
  recentNoSemanticProgress := false
  failureClassNoActionable := summary.primaryFailureClass = some noActionableFailure
  failureScopeLocalized := effectiveFailureScopeLocalized summary
  failureScopeWorkspace := summary.failureScope = some "workspace"
  failureScopeTooling := summary.failureScope = some "tooling"
  routeObjectiveContradiction := false
  hasPlan := false

def validateValidationActionConstraints (fs : Fs) (actions : List LoopPlanned)
    (targetRoot : FilePath)
    (summary : SemanticStateSummary) : Except Text Unit :=
  if !containsCargoCheck actions then .ok ()
  else
    let (pathExists, cargoProject) := plannerWorkspacePresence fs targetRoot summary
    let state := plannerConstraintState summary pathExists cargoProject
      (effectiveActionableFailure summary)
    match evaluateConstraintContext ⟨state, none, some .validation, none⟩ with
    | .forbid reason =>
      if Text.contains "target workspace is missing" reason then
        .error "cargo check planned before bootstrapping the target workspace"
      else if Text.contains "required files are still missing" reason &&
          summary.entrypointKind = some "none" then
        .error "cargo check planned before creating src/main.rs or src/lib.rs"
      else if Text.contains "required files are still missing" reason &&
          !summary.moduleGaps.isEmpty then
        .error "cargo check planned before creating missing declared module files"
      else .ok ()
    | _ => .ok ()

/-- Whether the batch does what the most urgent intent asks for, and what is said
    when it does not. -/
def intentSatisfied (targetRoot : FilePath) : RepairIntent → Bool × Text
  | .bootstrapWorkspace =>
    (intents.any fun i => i.kind = .bootstrapWorkspace || i.kind = .initCargoProject,
      "first planned batch must bootstrap the workspace")
  | .initCargoProject =>
    (intents.any fun i => i.kind = .initCargoProject,
      "first planned batch must initialize Cargo in the target directory")
  | .createEntrypoint =>
    (containsExpectedEntrypointTarget intents summary targetRoot,
      "first planned batch must create an entrypoint before validation")
  | .createMissingModules =>
    (containsExpectedModuleTarget intents summary targetRoot,
      "first planned batch must create missing declared module files")
  | .fixDeadCodeForbidConflict =>
    (containsExpectedDeadCodeTarget intents summary targetRoot,
      "first planned batch must address the allow(dead_code) vs forbid(dead_code) conflict")
  | .fixUnresolvedImport =>
    (containsExpectedHintTarget intents summary .unresolvedImport targetRoot,
      "first planned batch must target the unresolved import location")
  | .defineMissingSymbol =>
    (containsExpectedHintTarget intents summary .missingSymbol targetRoot,
      "first planned batch must target the missing symbol location")
  | .resolveDuplicateDefinition =>
    (containsExpectedHintTarget intents summary .duplicateDefinition targetRoot,
      "first planned batch must target the duplicate definition location")
  | .fixTraitBoundFailure =>
    (containsExpectedHintTarget intents summary .traitBoundFailure targetRoot,
      "first planned batch must target the trait-bound failure location")

def validateHighestPriorityIntent (intent : RepairIntent) (summary : SemanticStateSummary) :
    Except Text Unit :=
  let (satisfied, message) :=
    intentSatisfied (collectActionIntents actions targetRoot) summary targetRoot intent
  if satisfied then .ok () else .error message

def IntentKind.isLocalizedRepair : IntentKind → Bool
  | fixDeadCodeConflict | fixUnresolvedImport | defineMissingSymbol | resolveDuplicateDefinition
  | fixTraitBoundFailure => true
  | _ => false

def validateNoActionableFailure :
    Except Text Unit :=
  if intents.any (·.kind.isLocalizedRepair) then
    let state := plannerConstraintState summary summary.pathExists summary.cargoProject
      (effectiveActionableFailure summary)
    match evaluateConstraintContext ⟨state, none, some .repairLocalized, none⟩ with
    | .allow => .ok ()
    | .forbid reason | .rewriteAction _ reason | .rewriteRoute _ reason =>
      if Text.contains "no actionable failure" reason then .error reason else .ok ()
  else .ok ()

def validateFailureScope :
    Except Text Unit :=
  if intents.any (·.kind.isLocalizedRepair) && !metaInvariantFailureScopeIsSufficient summary then
    .error "compiler failure lacks scoped target information; refresh context or classify failure scope before targeted repair"
  else .ok ()

def classifyConstraintActionForPlan : Option ConstraintAction :=
  match planned.actionKind with
  | .runCommand =>
    (planned.field "cmd").map fun cmd =>
      if Text.contains "cargo init" cmd then .cargoInit
      else if Text.contains "cargo new" cmd then .cargoNew
      else if runsValidation cmd then .validation
      else .repairWorkspace
  | .applyPatch | .patchFile | .writeFile =>
    let path := (planned.field "path").getD []
    if Text.endsWith "Cargo.toml" path || Text.endsWith ".cargo/config.toml" path ||
        Text.endsWith "rust-toolchain.toml" path || Text.endsWith "rust-toolchain" path then
      some .repairWorkspace
    else some .repairLocalized
  | .renameSymbol | .moveSymbol | .addImport | .defineSymbolStub | .createModuleFile =>
    some .repairLocalized
  | _ => none

/-- The first error of a list of checks. -/
def firstError : List (Except Text Unit) → Except Text Unit
  | [] => .ok ()
  | .ok () :: rest => firstError rest
  | .error message :: _ => .error message

def validateRepairActionLegality (fs : Fs) (actions : List LoopPlanned) (targetRoot : FilePath)
    (summary : SemanticStateSummary) : Except Text Unit :=
  let (pathExists, cargoProject) := plannerWorkspacePresence fs targetRoot summary
  let state := plannerConstraintState summary pathExists cargoProject
    (effectiveActionableFailure summary)
  firstError (actions.map fun planned =>
    match classifyConstraintActionForPlan planned with
    | none => .ok ()
    | some action =>
      match evaluateConstraintContext ⟨state, none, some action, none⟩ with
      | .allow => .ok ()
      | .forbid reason | .rewriteAction _ reason | .rewriteRoute _ reason => .error reason)

/-- A check that fails with `message` when `bad`. -/
def refuseIf (bad : Bool) (message : Text) : Except Text Unit :=
  if bad then .error message else .ok ()

def validatePreconditions (fs : Fs) (actions : List LoopPlanned) (targetRoot : FilePath)
    (preconditions : List PlanningPrecondition) (summary : SemanticStateSummary) :
    Except Text Unit :=
  let intents := collectActionIntents actions targetRoot
  let must (p : PlanningPrecondition) : Bool := preconditions.contains p
  let checks := containsCargoCheck actions
  firstError
    [if must .mustBootstrapWorkspace then
       match selectBootstrapCommand fs targetRoot with
       | .cargoNew => refuseIf (!containsExpectedBootstrapAction actions .cargoNew)
           "target workspace is missing; first plan must create the workspace with cargo new"
       | .cargoInit => refuseIf (!containsExpectedBootstrapAction actions .cargoInit)
           "target directory exists but is not a Cargo project; first plan must initialize it with cargo init"
       | .noBootstrapNeeded => .error
           "semantic state says bootstrap is required, but the target already contains Cargo.toml; refresh observation before planning bootstrap"
     else .ok (),
     refuseIf (must .mustInitCargoProject && !containsExpectedBootstrapAction actions .cargoInit)
       "target directory exists but is not a Cargo project; first plan must initialize Cargo",
     validateValidationActionConstraints fs actions targetRoot summary,
     refuseIf (must .mustCreateEntrypoint && checks &&
         !containsEntrypointCreation actions targetRoot)
       "cargo check planned before creating src/main.rs or src/lib.rs",
     refuseIf (must .mustCreateMissingModules && checks &&
         !containsModuleCreation actions targetRoot)
       "cargo check planned before creating missing declared module files",
     refuseIf (must .mustFixDeadCodeForbidConflict && checks &&
         !containsDeadCodeConflictFix actions targetRoot)
       "cargo check planned before fixing allow(dead_code) vs forbid(dead_code) conflict",
     refuseIf (must .mustFixUnresolvedImport && checks &&
         !containsExpectedHintTarget intents summary .unresolvedImport targetRoot)
       "cargo check planned before fixing unresolved import",
     refuseIf (must .mustDefineMissingSymbol && checks &&
         !containsExpectedHintTarget intents summary .missingSymbol targetRoot)
       "cargo check planned before defining or importing missing symbol",
     refuseIf (must .mustResolveDuplicateDefinition && checks &&
         !containsExpectedHintTarget intents summary .duplicateDefinition targetRoot)
       "cargo check planned before resolving duplicate definition",
     refuseIf (must .mustFixTraitBoundFailure && checks &&
         !containsExpectedHintTarget intents summary .traitBoundFailure targetRoot)
       "cargo check planned before fixing actionable trait bound failure",
     match (deriveRepairIntents preconditions none).head? with
     | some intent => validateHighestPriorityIntent actions targetRoot intent summary
     | none => .ok (),
     validateNoActionableFailure intents summary,
     validateFailureScope intents summary,
     validateRepairActionLegality fs actions targetRoot summary]

/-! ### Alignment with objective, trend and strategy -/

def routeOfText (route : Text) : Option ConstraintRoute :=
  if route = "observe" then some .observe
  else if route = "plan" then some .plan
  else if route = "act" then some .act
  else if route = "verify" then some .verify
  else if route = "conclude" then some .conclude
  else none

/-- The phrases by which an objective asks for a repair. -/
def objectiveAsksForRepair (objective : Text) : Bool :=
  Text.contains "remove validation blockers" objective ||
    Text.contains "reduce compiler repair pressure" objective ||
    Text.contains "break the stalled repair loop" objective ||
    Text.contains "lower invalid-plan rate" objective ||
    Text.contains "increase repair resolution rate" objective

def IntentKind.isRepair : IntentKind → Bool
  | validateCargoCheck | bootstrapWorkspace | initCargoProject => false
  | _ => true

def validateObjectiveRoutePlanAlignment (routeChoice primaryObjective : Text)
    (summary : SemanticStateSummary) : Except Text Unit :=
  let intents := collectActionIntents actions targetRoot
  let hasValidationIntent := intents.any fun i => i.kind = .validateCargoCheck
  let hasRepairIntent := intents.any (·.kind.isRepair)
  let objectiveRequiresRepair :=
    effectiveActionableFailure summary || objectiveAsksForRepair primaryObjective
  if routeChoice = "plan" && objectiveRequiresRepair && hasValidationIntent && !hasRepairIntent then
    .error "first planned batch contradicts the active repair objective; it validates without addressing the repair target"
  else
    let state := plannerConstraintState summary summary.pathExists summary.cargoProject
      objectiveRequiresRepair
    let action : Option ConstraintAction :=
      if hasValidationIntent then some .validation
      else if hasRepairIntent then some .repairLocalized
      else none
    match evaluateConstraintContext ⟨state, routeOfText routeChoice, action, none⟩ with
    | .rewriteRoute .plan reason =>
      if routeChoice = "verify" then
        .error "route choice contradicts the active repair objective; verification is premature"
      else .error reason
    | .forbid reason | .rewriteAction _ reason | .rewriteRoute _ reason => .error reason
    | .allow => .ok ()

def classifyAttemptedKindClass (attemptedKind : Text) : PlannedActionClass :=
  if attemptedKind = "validate_cargo_check" then .verification
  else if attemptedKind = "bootstrap_workspace" || attemptedKind = "init_cargo_project" ||
      attemptedKind = "create_entrypoint" || attemptedKind = "create_module_file" ||
      attemptedKind = "restructure_modules" || attemptedKind = "fix_dead_code_conflict" ||
      attemptedKind = "fix_unresolved_import" || attemptedKind = "define_missing_symbol" ||
      attemptedKind = "resolve_duplicate_definition" ||
      attemptedKind = "fix_trait_bound_failure" then .mutation
  else if attemptedKind = "read_file" || attemptedKind = "list_dir" ||
      attemptedKind = "search_files" || attemptedKind = "observe_workspace" then .passiveDiscovery
  else .unknown

def lastAttemptedKind (results : List SemanticExecutionResultRecord) : Option Text :=
  results.reverse.findSome? (·.attemptedKind)

def validateTrendIntentAlignment (results : List SemanticExecutionResultRecord)
    (trend : ObjectiveTrendState) :
    Except Text Unit :=
  let firstClass := actions.head?.map metaInvariantClassifyPlannedActionClass
  let lastAttempted := lastAttemptedKind results
  let isPassive (cls : PlannedActionClass) : Bool := cls = .passiveDiscovery || cls = .verification
  firstError
    [refuseIf (metaInvariantHighInvalidPlanRequiresSimpleBatch trend && actions.length > 1)
       "high invalid-plan pressure requires a single-action first batch; simplify the next plan",
     refuseIf (trend.currentNoProgressStreak ≥ 2 &&
         (firstClass.map (metaInvariantNoProgressForcesChange trend.currentNoProgressStreak)).getD
           false)
       "stalled loop requires a state-changing first batch; passive discovery or validation cannot lead",
     refuseIf (trend.currentNoProgressStreak > 0 &&
         (match lastAttempted.map classifyAttemptedKindClass, firstClass with
          | some previous, some next => previous = next && isPassive next
          | _, _ => false))
       "first planned batch repeats the same zero-progress passive action class; choose a state-changing action",
     refuseIf (!(trend.currentNoProgressStreak = 0 || trend.repeatedStallCount = 0) &&
         (lastAttempted.map fun attempted =>
           (collectActionIntents actions targetRoot).any fun i => i.kind.key = attempted).getD
             false)
       "first planned batch repeats the same stalled repair intent; choose a different repair strategy"]

def ActionKind.isDiscovery : ActionKind → Bool
  | listDir | readFile | searchFiles => true
  | _ => false

def validateDevelopmentStrategyAlignment (strategy : DevelopmentStrategyKind) : Except Text Unit :=
  match strategy with
  | .fixConfigLintPolicy =>
    refuseIf (!actions.any fun planned => touchesAnyPath planned targetRoot
        [FilePath.join targetRoot ".cargo/config.toml", FilePath.join targetRoot "Cargo.toml"])
      "active development strategy requires a config-level lint/toolchain fix before more source edits"
  | .discoverTestSurface =>
    refuseIf (!actions.all (·.actionKind.isDiscovery))
      "active development strategy requires discovery-only work to map the existing test surface"
  | .addRegressionTest =>
    refuseIf (!actions.any (touchesTestSurface · targetRoot))
      "active development strategy requires the first batch to touch the test surface"
  | .simplifyPlanBatch =>
    refuseIf (actions.length > 1)
      "active development strategy requires a simpler first batch; emit one action only"
  | .createMissingModules =>
    refuseIf (!containsExpectedModuleTarget (collectActionIntents actions targetRoot) summary
        targetRoot)
      "active development strategy requires creating or wiring the missing module files first"
  | .refreshContextBeforeRetry =>
    refuseIf (!actions.any (·.actionKind.isDiscovery))
      "active development strategy requires refreshing context before retrying another repair"
  | .planSymbolAwareRename =>
    refuseIf (!actions.any (·.actionKind = .renameSymbol))
      "active development strategy requires a semantic rename action driven by graph-backed symbol context"
  | .restructureModules =>
    refuseIf (!actions.any (·.actionKind = .moveSymbol))
      "active development strategy requires a semantic module-restructure action driven by graph hotspots"
  | .applyTargetedCompilerRepair | .realignObjectiveFlow => .ok ()

/-! ### The batch -/

inductive RetryPolicy where
  | none
  | discoveryOnly
  | singlePatchOnly
  | correctiveRetry
deriving DecidableEq, Repr

def RetryPolicy.asStr : RetryPolicy → Text
  | none => "none"
  | discoveryOnly => "discovery_only"
  | singlePatchOnly => "single_patch_only"
  | correctiveRetry => "corrective_retry"

def validateWorkspaceRelativePath (path : FilePath) : Except Text Unit :=
  if FilePath.isAbsolute path then
    .error "absolute paths are not allowed for plan discovery/edit actions"
  else if (FilePath.components path).contains .parentDir then
    .error ("path escapes target workspace via parent traversal: ".toList ++ path)
  else .ok ()

def ActionKind.isExecution : ActionKind → Bool
  | patchFile | applyPatch | writeFile | runCommand | done | renameSymbol | moveSymbol | addImport
  | defineSymbolStub | createModuleFile => true
  | _ => false

def parseErrorText : Canon.Patch.ParseError → Text
  | .invalidPatchError message => "invalid patch: ".toList ++ message
  | .invalidHunkError message lineNumber =>
    "invalid hunk at line ".toList ++ Text.ofNat lineNumber ++ ", ".toList ++ message

/-- The path of an edit is there and stays inside the workspace. -/
def checkPath : Except Text Unit :=
  let kind := planned.actionKind.asStr
  match planned.field "path" with
  | none => .error (kind ++ " missing path payload".toList)
  | some path =>
    (validateWorkspaceRelativePath path).mapError fun e => kind ++ " path is invalid: ".toList ++ e

/-- A string field is there. -/
def checkField (key : String) : Except Text Unit :=
  match planned.field key with
  | none => .error (planned.actionKind.asStr ++ " missing ".toList ++ key.toList ++
      " payload".toList)
  | some _ => .ok ()

def isBlankField (key : String) : Bool :=
  Text.trim ((planned.field key).getD []) = []

/-- An edit with two names and a path. -/
def checkTwoNames (first second : String) (message : Text) :
    Except Text Unit :=
  firstError
    [checkField planned first, checkField planned second, checkField planned "path",
     refuseIf (isBlankField planned first || isBlankField planned second)
       (planned.actionKind.asStr ++ message),
     checkPath planned]

/-- An edit with one name and a path. -/
def checkOneName (name : String) (message : Text) : Except Text Unit :=
  firstError
    [checkField planned name, checkField planned "path",
     refuseIf (isBlankField planned name) (planned.actionKind.asStr ++ message),
     checkPath planned]

/-- The text of a string as the debug formatter prints it.  The escapes are left out: a
    quote, a backslash or a control character in the text stands as it is. -/
def debugQuoted (s : Text) : Text := '\x22' :: s ++ ['\x22']

/-- The check of one action by its kind. -/
def validateActionPayload : Except Text Unit :=
  match planned.actionKind with
  | .applyPatch =>
    match planned.field "patch" with
    | none => .error "apply_patch missing string patch payload"
    | some patch =>
      match parsePatch patch with
      | .ok _ => .ok ()
      | .error err => .error ("apply_patch payload is invalid: ".toList ++ parseErrorText err)
  | .runCommand =>
    let cwd := (planned.field "cwd").getD []
    refuseIf (cwd = [] || !FilePath.isAbsolute cwd)
      ("run_command requires an absolute cwd; got ".toList ++
        debugQuoted (if cwd = [] then "<empty>" else cwd))
  | .renameSymbol =>
    checkTwoNames planned "old" "new" " requires non-empty old and new symbol paths"
  | .moveSymbol =>
    checkTwoNames planned "symbol_id" "new_module_path"
      " requires non-empty symbol_id and new_module_path"
  | .addImport => checkOneName planned "import" " requires non-empty import path"
  | .defineSymbolStub => checkOneName planned "symbol" " requires non-empty symbol"
  | .createModuleFile | .readFile | .listDir | .writeFile | .patchFile => checkPath planned
  | .done => .ok ()
  | other => .error ("unknown plan action_kind ".toList ++ other.asStr)

/-- The checks of one action: it cites the failure, declares its verifier and has a
    sound payload. -/
def validateAction (planned : LoopPlanned) : Except Text Unit :=
  firstError
    [match summary.primaryFailureClass with
     | some expected =>
       refuseIf (planned.actionKind ≠ .done &&
           !metaInvariantAnyActionCitesFailure planned (some expected))
         ("meta_invariant_plan_must_cite_failure violated: ".toList ++ planned.actionKind.asStr ++
           " cites failure_class=".toList ++ (planned.field "failure_class").getD "<missing>" ++
           " but active failure_class=".toList ++ expected)
     | none => .ok (),
     refuseIf (metaInvariantIsMutatingAction planned &&
         !metaInvariantActionMustDeclareVerifier planned)
       ("meta_invariant_action_must_declare_verifier violated: ".toList ++
         planned.actionKind.asStr ++ " must declare verifier=".toList ++
         (metaInvariantExpectedVerifier planned).getD "unknown"),
     validateActionPayload planned]

def validateActionBatch (fs : Fs) (actions : List LoopPlanned) (retryPolicy : RetryPolicy)
    (summary : SemanticStateSummary) (trend : ObjectiveTrendState)
    (results : List SemanticExecutionResultRecord)
    (forcedObjective : Option DevelopmentObjectiveKind)
    (forcedStrategy : Option DevelopmentStrategyKind) : Except Text Unit :=
  if actions.length ≠ 1 then
    .error ("planner must emit exactly one action per turn; got ".toList ++
      Text.ofNat actions.length ++ " actions".toList)
  else if !summary.complete then .error "semantic summary is incomplete"
  else
    match summary.targetRoot with
    | none => .error "semantic summary is missing target_root"
    | some targetRoot =>
      let preconditions := derivePreconditionsFromLines summary.planningPreconditions
      let hasDiscovery := actions.any fun a => a.actionKind = .listDir || a.actionKind = .readFile
      let hasExecution := actions.any (·.actionKind.isExecution)
      let objectiveState := deriveSelfDevelopmentObjectiveState summary 0 results trend
      let objective := (forcedObjective.getD
        (primaryDevelopmentObjectiveKind objectiveState trend summary)).focusText
      let strategy :=
        forcedStrategy.getD (primaryDevelopmentStrategyKind objectiveState trend summary)
      firstError
        [refuseIf (retryPolicy = .discoveryOnly && hasExecution)
           "discovery-only retry required after invalid plan batch; execution/edit actions are not allowed yet",
         refuseIf (retryPolicy = .singlePatchOnly &&
             ((actions.filter (·.actionKind = .applyPatch)).length ≠ 1 ||
               actions.any (·.actionKind ≠ .applyPatch)))
           "single-patch retry required after apply_patch failure; emit exactly one apply_patch action and nothing else",
         refuseIf (hasDiscovery && hasExecution)
           "mixed discovery actions with execution/edit actions in one plan batch",
         refuseIf (summary.primaryFailureClass.isSome &&
             !metaInvariantAllFailuresTyped summary.failureClass summary.failureScope)
           "meta_invariant_all_failures_typed violated: active semantic failure must include both failure_class and failure_scope",
         firstError (actions.map (validateAction summary)),
         validatePreconditions fs actions targetRoot preconditions summary,
         validateObjectiveRoutePlanAlignment actions targetRoot "plan" objective summary,
         validateTrendIntentAlignment actions targetRoot results trend,
         validateDevelopmentStrategyAlignment actions targetRoot summary strategy]

/-! ### Accepted batches -/

theorem firstError_eq_ok_iff {checks : List (Except Text Unit)} :
    firstError checks = .ok () ↔ ∀ check ∈ checks, check = .ok () := by
  induction checks with
  | nil => simp [firstError]
  | cons check checks ih =>
    cases check with
    | error message => simp [firstError]
    | ok u => simpa [firstError] using ih

/-- What the checks promise about the one action of an accepted batch. -/
structure AcceptedAction (fs : Fs) (summary : SemanticStateSummary) (targetRoot : FilePath)
    (planned : LoopPlanned) : Prop where
  complete : summary.complete = true
  root : summary.targetRoot = some targetRoot
  action : validateAction summary planned = .ok ()
  preconditions : validatePreconditions fs [planned] targetRoot
    (derivePreconditionsFromLines summary.planningPreconditions) summary = .ok ()

theorem acceptedAction_of_accepted {fs : Fs} {actions : List LoopPlanned}
    {retryPolicy : RetryPolicy}
    {summary : SemanticStateSummary} {trend : ObjectiveTrendState}
    {results : List SemanticExecutionResultRecord}
    {forcedObjective : Option DevelopmentObjectiveKind}
    {forcedStrategy : Option DevelopmentStrategyKind}
    (h : validateActionBatch fs actions retryPolicy summary trend results forcedObjective
      forcedStrategy = .ok ()) :
    ∃ planned targetRoot, actions = [planned] ∧ AcceptedAction fs summary targetRoot planned := by
  unfold validateActionBatch at h
  split at h
  · cases h
  · rename_i hlen
    split at h
    · cases h
    · rename_i hcomplete
      split at h
      · cases h
      · rename_i targetRoot hroot
        obtain ⟨planned, rfl⟩ := List.length_eq_one_iff.mp (not_not.mp hlen)
        rw [firstError_eq_ok_iff] at h
        simp only [List.forall_mem_cons] at h
        obtain ⟨-, -, -, -, haction, hpre, -⟩ := h
        rw [firstError_eq_ok_iff] at haction
        refine ⟨planned, targetRoot, rfl, by simpa using hcomplete, hroot, ?_, hpre⟩
        exact haction _ (List.mem_singleton_self _)

theorem AcceptedAction.payload {fs : Fs} {summary : SemanticStateSummary} {targetRoot : FilePath}
    {planned : LoopPlanned} (h : AcceptedAction fs summary targetRoot planned) :
    validateActionPayload planned = .ok () := by
  have haction := h.action
  rw [validateAction, firstError_eq_ok_iff] at haction
  simp only [List.forall_mem_cons] at haction
  exact haction.2.2.1

end Canon.Loop
