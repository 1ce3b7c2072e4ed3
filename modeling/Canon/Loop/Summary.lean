import Mathlib.Algebra.Ring.Int.Defs
import Canon.Lib.Path
import Mathlib.Data.List.Sort

/-! # Semantic state of a workspace

    The summary an observation carries (`canon-semantic-state`), the results of
    executed actions, and the development objective and strategy derived from both.
    Counters are the unsigned machine integers of the source; where one can run
    over, the source saturates.
-/

namespace Canon.Loop

variable (trend : ObjectiveTrendState) (summary : SemanticStateSummary)
   (results : List SemanticExecutionResultRecord)

/-! ### Failures -/

/-- What the compiler complains about. -/
inductive CompilerHintKind where
  | missingModule
  | deadCodeForbidConflict
  | missingEntrypoint
  | unresolvedImport
  | missingSymbol
  | duplicateDefinition
  | traitBoundFailure
  | genericCompilerFailure
deriving DecidableEq, Repr

namespace CompilerHintKind

def asStr : CompilerHintKind → Text
  | missingModule => "missing_module"
  | deadCodeForbidConflict => "dead_code_forbid_conflict"
  | missingEntrypoint => "missing_entrypoint"
  | unresolvedImport => "unresolved_import"
  | missingSymbol => "missing_symbol"
  | duplicateDefinition => "duplicate_definition"
  | traitBoundFailure => "trait_bound_failure"
  | genericCompilerFailure => "generic_compiler_failure"

def all : List CompilerHintKind :=
  [missingModule, deadCodeForbidConflict, missingEntrypoint, unresolvedImport, missingSymbol,
    duplicateDefinition, traitBoundFailure, genericCompilerFailure]

def fromStr (value : Text) : Option CompilerHintKind := all.find? (·.asStr = value)

/-- The kinds that name something to repair. -/
def isActionable : CompilerHintKind → Bool
  | genericCompilerFailure => false
  | _ => true

end CompilerHintKind

/-- How far a failure reaches. -/
inductive FailureScopeKind where
  | none
  | localized
  | workspace
  | tooling
deriving DecidableEq, Repr

namespace FailureScopeKind

def asStr : FailureScopeKind → Text
  | none => "none"
  | localized => "localized"
  | workspace => "workspace"
  | tooling => "tooling"

def fromStr (value : Text) : Option FailureScopeKind :=
  [none, localized, workspace, tooling].find? (·.asStr = value)

end FailureScopeKind

/-- The failure class of a state without anything to repair. -/
def noActionableFailure : Text := "no_actionable_failure"

/-- A complaint of the compiler, with what may repair it. -/
structure CompilerHintRecord where
  kind : Text
  summary : Text
  suggestedRepair : Text
  targetFiles : List Text
  failureScope : Text
deriving DecidableEq, Repr, Inhabited

namespace CompilerHintRecord

def kindEnum (hint : CompilerHintRecord) : Option CompilerHintKind :=
  CompilerHintKind.fromStr hint.kind

def failureScopeEnum (hint : CompilerHintRecord) : Option FailureScopeKind :=
  FailureScopeKind.fromStr hint.failureScope

def isActionable (hint : CompilerHintRecord) : Bool :=
  (hint.kindEnum.map CompilerHintKind.isActionable).getD false

end CompilerHintRecord

/-! ### The summary -/

/-- What an observation says about the target. -/
structure SemanticStateSummary where
  version : Nat
  complete : Bool
  targetRoot : Option FilePath
  pathExists : Bool
  repoInitialized : Bool
  cargoProject : Bool
  crateName : Option Text
  entrypointKind : Option Text
  rustFileCount : Option Nat
  sourceFiles : List Text
  moduleGaps : List Text
  planningPreconditions : List Text
  repairIntents : List Text
  compilerHints : List CompilerHintRecord
  validationBlockedByPreconditions : Bool
  compilerRepairRequired : Bool
  failureClass : Option Text
  failureScope : Option Text
  graphArtifactId : Option Text
  graphNodeCount : Option Nat
  graphEdgeCount : Option Nat
  graphFileCount : Option Nat
  graphCallEdgeCount : Option Nat
  graphModuleEdgeCount : Option Nat
  graphCfgEdgeCount : Option Nat
deriving DecidableEq, Repr

namespace SemanticStateSummary

/-- `SemanticStateSummary::VERSION`. -/
def currentVersion : Nat := 1

/-- The default summary: nothing observed. -/
def empty : SemanticStateSummary where
  version := 0
  complete := false
  targetRoot := none
  pathExists := false
  repoInitialized := false
  cargoProject := false
  crateName := none
  entrypointKind := none
  rustFileCount := none
  sourceFiles := []
  moduleGaps := []
  planningPreconditions := []
  repairIntents := []
  compilerHints := []
  validationBlockedByPreconditions := false
  compilerRepairRequired := false
  failureClass := none
  failureScope := none
  graphArtifactId := none
  graphNodeCount := none
  graphEdgeCount := none
  graphFileCount := none
  graphCallEdgeCount := none
  graphModuleEdgeCount := none
  graphCfgEdgeCount := none

instance : Inhabited SemanticStateSummary := ⟨empty⟩

def hasActionableCompilerHints : Bool :=
  summary.compilerHints.any (·.isActionable)

/-- The class that was observed, or that of the first known hint. -/
def primaryFailureClass : Option Text :=
  match summary.failureClass with
  | some value => some value
  | none => summary.compilerHints.findSome? fun hint => hint.kindEnum.map CompilerHintKind.asStr

def applyGraphArtifactSummary (artifactId : Text)
    (nodeCount edgeCount fileCount callEdgeCount moduleEdgeCount cfgEdgeCount : Nat) :
    SemanticStateSummary :=
  { summary with
    graphArtifactId := some artifactId
    graphNodeCount := some nodeCount
    graphEdgeCount := some edgeCount
    graphFileCount := some fileCount
    graphCallEdgeCount := some callEdgeCount
    graphModuleEdgeCount := some moduleEdgeCount
    graphCfgEdgeCount := some cfgEdgeCount }

/-- A failed capture is a hint of its own, noted once. -/
def applyRustcCaptureFailure (message : Text) :
    SemanticStateSummary :=
  let text : Text := "rustc capture failed: " ++ message
  let known := summary.compilerHints.any fun hint =>
    hint.kindEnum = some .genericCompilerFailure && hint.summary = text
  { summary with
    compilerRepairRequired := true
    failureClass := some CompilerHintKind.genericCompilerFailure.asStr
    compilerHints :=
      if known then summary.compilerHints
      else summary.compilerHints ++
        [{ kind := CompilerHintKind.genericCompilerFailure.asStr
           summary := text
           suggestedRepair :=
             "refresh compiler context or stabilize rustc capture before structural analysis"
           targetFiles := []
           failureScope := FailureScopeKind.tooling.asStr }]
    failureScope := some FailureScopeKind.tooling.asStr }

end SemanticStateSummary

/-! ### Execution results -/

/-- What an executed action brought. -/
structure SemanticExecutionResultRecord where
  kind : Text
  summary : Text
  targetFiles : List Text
  semanticProgress : Bool
  attemptedKind : Option Text
deriving DecidableEq, Repr, Inhabited

def latestSemanticProgress : Bool :=
  (results.getLast?.map (·.semanticProgress)).getD false

def latestNoSemanticProgress : Bool :=
  (results.getLast?.map (!·.semanticProgress)).getD false

/-- Whether the last result has the given kind: the source has one function per
    kind. -/
def latestResultIs (kind : Text) (results : List SemanticExecutionResultRecord) : Bool :=
  (results.getLast?.map (·.kind == kind)).getD false

def latestGraphProofVerified : List SemanticExecutionResultRecord → Bool :=
  latestResultIs "graph_proof_verified"

def latestGraphProofFailed : List SemanticExecutionResultRecord → Bool :=
  latestResultIs "graph_proof_failed"

def latestVerifierPolicyRequiresCorrectiveRetry : List SemanticExecutionResultRecord → Bool :=
  latestResultIs "verifier_policy_corrective_retry"

def latestVerifierPolicyClearsRetry : List SemanticExecutionResultRecord → Bool :=
  latestResultIs "verifier_policy_none"

/-- How many of the last results brought nothing. -/
def semanticNoProgressStreak : Nat :=
  (results.reverse.takeWhile (!·.semanticProgress)).length

/-! ### Trends -/

/-- The largest `u32`. -/
def u32Max : Nat := 2 ^ 32 - 1

def satSucc (n : Nat) : Nat := min (n + 1) u32Max

/-- Counters over all rounds, with the first and the last measurements. -/
structure ObjectiveTrendState where
  planningAttempts : Nat := 0
  invalidPlanEvents : Nat := 0
  totalExecutionResults : Nat := 0
  semanticProgressEvents : Nat := 0
  noSemanticProgressEvents : Nat := 0
  currentNoProgressStreak : Nat := 0
  repeatedStallCount : Nat := 0
  routeObjectiveContradictionEvents : Nat := 0
  goalObjectiveDriftEvents : Nat := 0
  baselineErrorCount : Option Nat := none
  currentErrorCount : Option Nat := none
  baselineModuleGapCount : Option Nat := none
  currentModuleGapCount : Option Nat := none
  baselineTestSurfaceCount : Option Nat := none
  currentTestSurfaceCount : Option Nat := none
deriving DecidableEq, Repr, Inhabited

def isTestPath (path : Text) : Bool :=
  Text.contains "/tests/" path || Text.startsWith "tests/" path ||
    Text.endsWith "_test.rs" path || Text.endsWith "_tests.rs" path

namespace ObjectiveTrendState

/-- A second result in a row without progress counts as a stall. -/
def recordExecutionResult (result : SemanticExecutionResultRecord) :
    ObjectiveTrendState :=
  let trend := { trend with totalExecutionResults := satSucc trend.totalExecutionResults }
  if result.semanticProgress then
    { trend with
      semanticProgressEvents := satSucc trend.semanticProgressEvents
      currentNoProgressStreak := 0 }
  else
    let streak := satSucc trend.currentNoProgressStreak
    { trend with
      noSemanticProgressEvents := satSucc trend.noSemanticProgressEvents
      currentNoProgressStreak := streak
      repeatedStallCount :=
        if streak = 2 then satSucc trend.repeatedStallCount else trend.repeatedStallCount }

def recordExecutionResults : ObjectiveTrendState :=
  results.foldl recordExecutionResult trend

def recordInvalidPlanEvent : ObjectiveTrendState :=
  { trend with invalidPlanEvents := satSucc trend.invalidPlanEvents }

def recordPlanningCompletion (status : Text) :
    ObjectiveTrendState :=
  let trend := { trend with planningAttempts := satSucc trend.planningAttempts }
  if status = "invalid_plan" then trend.recordInvalidPlanEvent else trend

/-- The first observation is the baseline. -/
def recordObservation (errorCount : Nat) (summary : SemanticStateSummary) : ObjectiveTrendState :=
  let errors := errorCount % 2 ^ 32
  let gaps := summary.moduleGaps.length % 2 ^ 32
  let tests := (summary.sourceFiles.filter isTestPath).length % 2 ^ 32
  { trend with
    currentErrorCount := some errors
    baselineErrorCount := some (trend.baselineErrorCount.getD errors)
    currentModuleGapCount := some gaps
    baselineModuleGapCount := some (trend.baselineModuleGapCount.getD gaps)
    currentTestSurfaceCount := some tests
    baselineTestSurfaceCount := some (trend.baselineTestSurfaceCount.getD tests) }

def recordRouteObjectiveContradiction : ObjectiveTrendState :=
  { trend with
    routeObjectiveContradictionEvents := satSucc trend.routeObjectiveContradictionEvents }

def recordGoalObjectiveDrift : ObjectiveTrendState :=
  { trend with goalObjectiveDriftEvents := satSucc trend.goalObjectiveDriftEvents }

/-- A `u32` rounded to the 24 significant bits of an `f32`, ties to even. -/
def toF32 (n : Nat) : Nat :=
  let shift := Nat.log2 n + 1 - 24
  let q := n / 2 ^ shift
  let r := n % 2 ^ shift
  let half := 2 ^ shift / 2
  if shift = 0 then n
  else (if r > half || (r = half && q % 2 = 1) then q + 1 else q) * 2 ^ shift

/-- `a as f32 / b as f32 > 0.5`: the quotient is above one half when it is not
    below the middle between one half and the next float. -/
def quotientAboveHalf (a b : Nat) : Bool :=
  b ≠ 0 && toF32 a * 2 ^ 25 > toF32 b * (2 ^ 24 + 1)

/-- `invalid_plan_rate() > 0.5`. -/
def invalidPlanRateAboveHalf : Bool :=
  quotientAboveHalf trend.invalidPlanEvents trend.planningAttempts

/-- `repair_resolution_rate() > 0.5`. -/
def repairResolutionRateAboveHalf : Bool :=
  quotientAboveHalf trend.semanticProgressEvents trend.totalExecutionResults

/-- `invalid_plan_rate() > 0.0`. -/
def invalidPlanRatePositive : Bool :=
  trend.planningAttempts ≠ 0 && trend.invalidPlanEvents > 0

/-- Contradictions and drifts. -/
def misalignmentPressureScore : Nat :=
  trend.routeObjectiveContradictionEvents + trend.goalObjectiveDriftEvents

/-- A number taken into the range of `i32`. -/
def i32 (n : Int) : Int := (n + 2 ^ 31) % 2 ^ 32 - 2 ^ 31

/-- The difference of two counters, each read as `i32`. -/
def delta (current baseline : Option Nat) : Int :=
  i32 (i32 (current.getD 0) - i32 (baseline.getD 0))

def compilerErrorDelta : Int :=
  delta trend.currentErrorCount trend.baselineErrorCount

def moduleGapDelta : Int :=
  delta trend.currentModuleGapCount trend.baselineModuleGapCount

def testSurfaceDelta : Int :=
  delta trend.currentTestSurfaceCount trend.baselineTestSurfaceCount

end ObjectiveTrendState

/-- What the objectives are derived from. -/
structure SelfDevelopmentObjectiveState where
  semanticNoProgressStreak : Nat
  consecutiveInvalidPlanBatches : Nat
  validationBlockedByPreconditions : Bool
  compilerRepairRequired : Bool
  misalignmentPressureScore : Nat
deriving DecidableEq, Repr, Inhabited

def deriveSelfDevelopmentObjectiveState (consecutiveInvalidPlanBatches : Nat)
    (results : List SemanticExecutionResultRecord) (trend : ObjectiveTrendState) :
    SelfDevelopmentObjectiveState where
  semanticNoProgressStreak := semanticNoProgressStreak results
  consecutiveInvalidPlanBatches := consecutiveInvalidPlanBatches
  validationBlockedByPreconditions := summary.validationBlockedByPreconditions
  compilerRepairRequired := summary.compilerRepairRequired
  misalignmentPressureScore := trend.misalignmentPressureScore

/-! ### Objectives and strategies -/

/-- What a plan may aim at. -/
inductive DevelopmentObjectiveKind where
  | reduceCompilerFailures
  | reduceContradictionRate
  | increaseTestCoverage
  | decreaseInvalidPlanRate
  | reduceStalledLoopFrequency
  | improveModuleCohesion
deriving DecidableEq, Repr

namespace DevelopmentObjectiveKind

def asStr : DevelopmentObjectiveKind → Text
  | reduceCompilerFailures => "reduce_compiler_failures"
  | reduceContradictionRate => "reduce_contradiction_rate"
  | increaseTestCoverage => "increase_test_coverage"
  | decreaseInvalidPlanRate => "decrease_invalid_plan_rate"
  | reduceStalledLoopFrequency => "reduce_stalled_loop_frequency"
  | improveModuleCohesion => "improve_module_cohesion"

def focusText : DevelopmentObjectiveKind → Text
  | reduceCompilerFailures => "reduce compiler failures"
  | reduceContradictionRate => "reduce contradiction rate"
  | increaseTestCoverage => "increase test coverage"
  | decreaseInvalidPlanRate => "decrease invalid-plan rate"
  | reduceStalledLoopFrequency => "reduce stalled-loop frequency"
  | improveModuleCohesion => "improve module cohesion"

end DevelopmentObjectiveKind

/-- How it goes about it. -/
inductive DevelopmentStrategyKind where
  | fixConfigLintPolicy
  | applyTargetedCompilerRepair
  | planSymbolAwareRename
  | discoverTestSurface
  | addRegressionTest
  | simplifyPlanBatch
  | realignObjectiveFlow
  | refreshContextBeforeRetry
  | createMissingModules
  | restructureModules
deriving DecidableEq, Repr

structure DevelopmentObjective where
  kind : DevelopmentObjectiveKind
  priorityScore : Nat
deriving DecidableEq, Repr

variable (state : SelfDevelopmentObjectiveState)

/-- The objectives by falling priority, equal ones by name. -/
def deriveDevelopmentObjectives (trend : ObjectiveTrendState) :
    List DevelopmentObjective :=
  let hasTestFiles := summary.sourceFiles.any isTestPath
  let rustFileCount := summary.rustFileCount.getD 0
  let sprawl : Bool :=
    match summary.graphModuleEdgeCount, summary.graphCallEdgeCount with
    | some moduleEdges, some callEdges => moduleEdges > min (callEdges * 8) (2 ^ 64 - 1)
    | _, _ => false
  let objectives : List DevelopmentObjective :=
    [{ kind := .reduceCompilerFailures
       priorityScore := state.compilerRepairRequired.toNat +
         state.validationBlockedByPreconditions.toNat +
         (!summary.compilerHints.isEmpty).toNat + (max trend.compilerErrorDelta 0).toNat },
     { kind := .reduceContradictionRate
       priorityScore := state.misalignmentPressureScore },
     { kind := .increaseTestCoverage
       priorityScore := (summary.cargoProject && !hasTestFiles).toNat +
         (summary.pathExists && summary.cargoProject).toNat +
         (decide (trend.testSurfaceDelta ≤ 0)).toNat },
     { kind := .decreaseInvalidPlanRate
       priorityScore := if trend.invalidPlanRatePositive then 1 + trend.invalidPlanEvents else 0 },
     { kind := .reduceStalledLoopFrequency
       priorityScore := trend.repeatedStallCount + state.semanticNoProgressStreak },
     { kind := .improveModuleCohesion
       priorityScore := summary.moduleGaps.length + (decide (rustFileCount ≥ 8)).toNat +
         sprawl.toNat + (max trend.moduleGapDelta 0).toNat }]
  objectives.insertionSort fun a b =>
    a.priorityScore > b.priorityScore ∨
      a.priorityScore = b.priorityScore ∧ ¬ b.kind.asStr < a.kind.asStr

/-- The objective with the highest priority. -/
def primaryDevelopmentObjectiveKind (trend : ObjectiveTrendState) (summary : SemanticStateSummary) :
    DevelopmentObjectiveKind :=
  match deriveDevelopmentObjectives summary state trend with
  | objective :: _ => objective.kind
  | [] => .reduceCompilerFailures

def primaryDevelopmentStrategyKind (trend : ObjectiveTrendState) (summary : SemanticStateSummary) :
    DevelopmentStrategyKind :=
  if state.misalignmentPressureScore > 0 then .realignObjectiveFlow
  else if summary.compilerHints.any (·.kindEnum = some .deadCodeForbidConflict) then
    .fixConfigLintPolicy
  else if trend.repeatedStallCount > 0 && state.semanticNoProgressStreak ≥ 2 then
    .refreshContextBeforeRetry
  else if summary.graphArtifactId.isSome &&
      summary.compilerHints.any (·.kindEnum = some .duplicateDefinition) then
    .planSymbolAwareRename
  else
    match primaryDevelopmentObjectiveKind state trend summary with
    | .reduceCompilerFailures =>
      if summary.moduleGaps ≠ [] then .createMissingModules else .applyTargetedCompilerRepair
    | .reduceContradictionRate => .realignObjectiveFlow
    | .increaseTestCoverage =>
      if summary.sourceFiles.any isTestPath then .addRegressionTest else .discoverTestSurface
    | .decreaseInvalidPlanRate => .simplifyPlanBatch
    | .reduceStalledLoopFrequency => .refreshContextBeforeRetry
    | .improveModuleCohesion =>
      if summary.moduleGaps ≠ [] then .createMissingModules else .restructureModules

end Canon.Loop
