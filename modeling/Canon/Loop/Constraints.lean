import Canon.Lib.FileTree
import Canon.Loop.Events

/-! # Constraints on actions

    The meta invariants of `canon-invariant` and the check made right before a
    command is run (`exec_constraints.rs`).  The planner and the executor build
    their own `ConstraintState` and both ask `evaluateConstraintContext`.
-/

namespace Canon.Loop

/-! ### The constraint context -/

inductive ConstraintRoute where
  | observe
  | plan
  | act
  | verify
  | conclude
deriving DecidableEq, Repr

inductive ConstraintAction where
  | cargoInit
  | cargoNew
  | repairLocalized
  | repairWorkspace
  | validation
  | other
deriving DecidableEq, Repr

/-- What is known of the target, and what is really on disk. -/
structure ConstraintState where
  semanticPathExists : Bool
  semanticCargoProject : Bool
  realPathExists : Bool
  realCargoProject : Bool
  actionableFailure : Bool
  validationBlocked : Bool
  entrypointMissing : Bool
  moduleGapsPresent : Bool
  recentNoSemanticProgress : Bool
  failureClassNoActionable : Bool
  failureScopeLocalized : Bool
  failureScopeWorkspace : Bool
  failureScopeTooling : Bool
  routeObjectiveContradiction : Bool
  hasPlan : Bool
deriving Repr

/-- The summary and the disk disagree. -/
def ConstraintState.hasStateDrift (state : ConstraintState) : Bool :=
  state.semanticPathExists != state.realPathExists ||
    state.semanticCargoProject != state.realCargoProject

/-- A question about a route or an action. -/
structure ConstraintContext where
  state : ConstraintState
  route : Option ConstraintRoute
  action : Option ConstraintAction
  deterministicRoute : Option ConstraintRoute

/-- The answer; a rewrite names what to do instead. -/
inductive ConstraintDecision where
  | allow
  | forbid (reason : Text)
  | rewriteAction (action : ConstraintAction) (reason : Text)
  | rewriteRoute (route : ConstraintRoute) (reason : Text)
deriving DecidableEq, Repr

/-- What the routes decide before the action is looked at. -/
def evaluateConstraintRoute (ctx : ConstraintContext) : Option ConstraintDecision :=
  match ctx.deterministicRoute, ctx.route with
  | some expected, some actual =>
    if expected ≠ actual then
      some (.forbid
        "meta_invariant_deterministic_route_authority: deterministic routes cannot be overridden")
    else routePart actual
  | _, some route => routePart route
  | _, none => none
where
  routePart (route : ConstraintRoute) : Option ConstraintDecision :=
    let late : Bool := route = .verify || route = .conclude
    if ctx.state.hasStateDrift && route ≠ .observe then some .allow
    else if !ctx.state.realPathExists && route ≠ .plan then some .allow
    else if late && (ctx.state.validationBlocked || ctx.state.actionableFailure) then some .allow
    else if late && (ctx.state.entrypointMissing || ctx.state.moduleGapsPresent) then some .allow
    else if late && ctx.state.routeObjectiveContradiction then some .allow
    else none

/-- What the state says about an action. -/
def evaluateConstraintAction (state : ConstraintState) : ConstraintAction → ConstraintDecision
  | .repairLocalized =>
    if state.failureClassNoActionable || !state.actionableFailure then
      .forbid "meta_invariant_no_actionable_failure: repair actions are forbidden because there is no actionable failure"
    else if !state.failureScopeLocalized then
      .forbid "meta_invariant_failure_scope: localized repair actions require localized failure scope"
    else .allow
  | .repairWorkspace =>
    if state.failureClassNoActionable || !state.actionableFailure then
      .forbid "meta_invariant_no_actionable_failure: repair actions are forbidden because there is no actionable failure"
    else if state.failureScopeLocalized then
      .forbid "meta_invariant_failure_scope: workspace repair actions are too broad for localized failures"
    else .allow
  | .validation =>
    if state.validationBlocked then
      .forbid "meta_invariant_validation_timing: validation actions are forbidden while planning preconditions remain unresolved"
    else if !state.realPathExists then
      .forbid "meta_invariant_bootstrap_required: validation actions are forbidden while the target workspace is missing"
    else if state.entrypointMissing || state.moduleGapsPresent then
      .forbid "meta_invariant_validation_timing: validation actions are forbidden while required files are still missing"
    else .allow
  | .cargoInit =>
    if !state.realPathExists then
      .rewriteAction .cargoNew
        "meta_invariant_tool_selection_correctness: missing target requires cargo new"
    else if state.realCargoProject then
      .forbid "meta_invariant_tool_selection_correctness: bootstrap commands are forbidden for existing Cargo projects"
    else .allow
  | .cargoNew =>
    if state.realPathExists && !state.realCargoProject then
      .rewriteAction .cargoInit
        "meta_invariant_tool_selection_correctness: existing non-Cargo directory requires cargo init"
    else if state.realCargoProject then
      .forbid "meta_invariant_tool_selection_correctness: bootstrap commands are forbidden for existing Cargo projects"
    else .allow
  | .other => .allow

/-- The route first, then the action; nothing said is allowed. -/
def evaluateConstraintContext (ctx : ConstraintContext) : ConstraintDecision :=
  match evaluateConstraintRoute ctx with
  | some decision => decision
  | none => (ctx.action.map (evaluateConstraintAction ctx.state)).getD .allow

/-! ### Meta invariants on planned actions -/

inductive PlannedActionClass where
  | passiveDiscovery
  | verification
  | mutation
  | unknown
deriving DecidableEq, Repr

/-- One of the three validation commands is in it. -/
def runsValidation (cmd : Text) : Bool :=
  Text.contains "cargo check" cmd || Text.contains "cargo build" cmd ||
    Text.contains "cargo test" cmd

variable (planned : LoopPlanned) (summary : SemanticStateSummary)

def metaInvariantClassifyPlannedActionClass : PlannedActionClass :=
  match planned.actionKind with
  | .readFile | .listDir | .searchFiles => .passiveDiscovery
  | .runCommand =>
    match planned.field "cmd" with
    | some cmd => if runsValidation cmd then .verification else .mutation
    | none => .unknown
  | .writeFile | .patchFile | .applyPatch | .renameSymbol | .moveSymbol | .addImport
  | .defineSymbolStub | .createModuleFile => .mutation
  | _ => .unknown

def metaInvariantIsMutatingAction : Bool :=
  metaInvariantClassifyPlannedActionClass planned = .mutation

/-- The verifier that a mutation has to name. -/
def metaInvariantExpectedVerifier : Option Text :=
  if !metaInvariantIsMutatingAction planned then none
  else
    match planned.actionKind with
    | .renameSymbol | .moveSymbol | .addImport | .defineSymbolStub | .createModuleFile =>
      some "graph_proof"
    | _ => some "cargo_check"

def metaInvariantActionMustDeclareVerifier : Bool :=
  match metaInvariantExpectedVerifier planned with
  | none => true
  | some expected =>
    ((planned.field "verifier").map fun value => Text.trim value ≠ [] && value = expected).getD
      false

def metaInvariantAllFailuresTyped (failureClass failureScope : Option Text) : Bool :=
  ((failureClass.map fun value => decide (Text.trim value ≠ [])).getD false) &&
    ((failureScope.map fun scope : Text =>
      scope = "localized" || scope = "workspace" || scope = "tooling" || scope = "none").getD false)

/-- The action repairs the class of failure that is active. -/
def metaInvariantAnyActionCitesFailure (activeFailureClass : Option Text) :
    Bool :=
  match activeFailureClass with
  | some expected =>
    if Text.trim expected ≠ [] then
      ((planned.field "failure_class").map fun value => decide (value = expected)).getD false
    else true
  | none => true

inductive BootstrapToolChoice where
  | cargoNew
  | cargoInit
deriving DecidableEq, Repr

/-- The first of the two that is in the command. -/
def metaInvariantClassifyBootstrapTool (cmd : Text) : Option BootstrapToolChoice :=
  if Text.contains "cargo new" cmd then some .cargoNew
  else if Text.contains "cargo init" cmd then some .cargoInit
  else none

def metaInvariantToolSelectionCorrectness (expected : BootstrapToolChoice) (planned : LoopPlanned) :
    Bool :=
  if planned.actionKind ≠ .runCommand then false
  else
    match planned.field "cmd" with
    | none => false
    | some cmd => metaInvariantClassifyBootstrapTool cmd = some expected

def metaInvariantFailureScopeIsSufficient : Bool :=
  if !summary.compilerRepairRequired || summary.compilerHints.isEmpty then true
  else
    (summary.failureScope.map fun scope : Text =>
      scope = "localized" || scope = "workspace" || scope = "tooling").getD false

def metaInvariantHighInvalidPlanRequiresSimpleBatch (trend : ObjectiveTrendState) : Bool :=
  trend.invalidPlanRateAboveHalf && trend.planningAttempts ≥ 3

/-- After two results without progress, looking on is refused. -/
def metaInvariantNoProgressForcesChange (noProgressStreak : Nat) (cls : PlannedActionClass) :
    Bool :=
  noProgressStreak ≥ 2 && (cls = .passiveDiscovery || cls = .verification)

/-! ### Verifier outcomes -/

inductive VerifierOutcome where
  | passed
  | compilerFailure
  | failedNoCompilerSignal
deriving DecidableEq, Repr

def VerifierOutcome.asStr : VerifierOutcome → Text
  | passed => "passed"
  | compilerFailure => "compiler_failure"
  | failedNoCompilerSignal => "failed_no_compiler_signal"

structure PolicyUpdate where
  verifierOutcome : VerifierOutcome
  retryPolicy : Text
  rewardBias : Text
  actionableFailure : Bool

def looksLikeCompilerFailure (text : Text) : Bool :=
  Text.contains "error[E" text || Text.contains "could not compile" text ||
    Text.contains "allow(dead_code) incompatible with previous forbid" text ||
    Text.contains "file not found for module \x60" text || Text.contains "cargo_check_failed" text

/-- A failure counts as the compiler's by its diagnostics. -/
def metaInvariantClassifyVerifierOutcome (passed compilerClean : Bool) (diagnostics : List Text) :
    VerifierOutcome :=
  if passed && compilerClean then .passed
  else if diagnostics.any looksLikeCompilerFailure then .compilerFailure
  else .failedNoCompilerSignal

def metaInvariantAllResultsUpdatePolicy (passed compilerClean : Bool) (diagnostics : List Text) :
    PolicyUpdate :=
  let outcome := metaInvariantClassifyVerifierOutcome passed compilerClean diagnostics
  match outcome with
  | .passed =>
    { verifierOutcome := outcome, retryPolicy := "none", rewardBias := "positive",
      actionableFailure := false }
  | .compilerFailure | .failedNoCompilerSignal =>
    { verifierOutcome := outcome, retryPolicy := "corrective_retry", rewardBias := "negative",
      actionableFailure := true }

/-! ### The check before execution -/

/-- Some hint names a file to repair. -/
def hasTargetedLocalizedHint : Bool :=
  summary.compilerHints.any fun hint =>
    hint.isActionable && hint.targetFiles.any fun path => Text.trim path ≠ [] && path ≠ "none"

/-- No entrypoint was observed in a Cargo project. -/
def entrypointUnknown : Bool :=
  (summary.entrypointKind = some "none" || summary.entrypointKind = none) && summary.cargoProject

/-- The state before a command is run. -/
structure ExecState where
  targetRoot : FilePath
  semanticPathExists : Bool
  semanticCargoProject : Bool
  realPathExists : Bool
  realCargoProject : Bool
  actionableFailure : Bool
  validationBlocked : Bool
  entrypointMissing : Bool
  moduleGapsPresent : Bool
  failureClassNoActionable : Bool
  failureScopeLocalized : Bool
  failureScopeWorkspace : Bool
  failureScopeTooling : Bool

namespace ExecState

/-- The summary beside what the file system says now. -/
def fromSemanticSummary (fs : Fs) (targetRoot : FilePath) (summary : SemanticStateSummary) :
    ExecState :=
  let realCargoProject := fs.pathExists (FilePath.join targetRoot "Cargo.toml")
  let realEntrypointMissing := !fs.pathExists (FilePath.join targetRoot "src/main.rs") &&
    !fs.pathExists (FilePath.join targetRoot "src/lib.rs")
  { targetRoot := targetRoot
    semanticPathExists := summary.pathExists
    semanticCargoProject := summary.cargoProject
    realPathExists := fs.pathExists targetRoot
    realCargoProject := realCargoProject
    actionableFailure := summary.validationBlockedByPreconditions ||
      summary.compilerRepairRequired || !summary.planningPreconditions.isEmpty ||
      !summary.moduleGaps.isEmpty || summary.hasActionableCompilerHints ||
      (summary.primaryFailureClass.map fun cls => decide (cls ≠ noActionableFailure)).getD false
    validationBlocked := summary.validationBlockedByPreconditions
    entrypointMissing := entrypointUnknown summary && realCargoProject && realEntrypointMissing
    moduleGapsPresent := !summary.moduleGaps.isEmpty
    failureClassNoActionable := summary.primaryFailureClass = some noActionableFailure
    failureScopeLocalized := summary.failureScope = some "localized" ||
      !summary.moduleGaps.isEmpty || hasTargetedLocalizedHint summary
    failureScopeWorkspace := summary.failureScope = some "workspace"
    failureScopeTooling := summary.failureScope = some "tooling" }

def constraintState (state : ExecState) : ConstraintState where
  semanticPathExists := state.semanticPathExists
  semanticCargoProject := state.semanticCargoProject
  realPathExists := state.realPathExists
  realCargoProject := state.realCargoProject
  actionableFailure := state.actionableFailure
  validationBlocked := state.validationBlocked
  entrypointMissing := state.entrypointMissing
  moduleGapsPresent := state.moduleGapsPresent
  recentNoSemanticProgress := false
  failureClassNoActionable := state.failureClassNoActionable
  failureScopeLocalized := state.failureScopeLocalized
  failureScopeWorkspace := state.failureScopeWorkspace
  failureScopeTooling := state.failureScopeTooling
  routeObjectiveContradiction := false
  hasPlan := false

end ExecState

inductive ExecAction where
  | runCommand (cmd : Text) (cwd : FilePath)
  | other (actionKind : ActionKind)

inductive ExecDecision where
  | allow
  | forbid (reason : Text)
  | rewrite (action : ExecAction) (reason : Text)

/-- The word behind the first occurrence of `flag`. -/
def extractFlagValue (cmd flag : Text) : Option Text :=
  match (Text.splitWhitespace cmd).dropWhile (· ≠ flag) with
  | _ :: value :: _ => some value
  | _ => none

/-- The last word that is no flag. -/
def extractCargoNewTarget (cmd : Text) : Option Text :=
  ((Text.splitWhitespace cmd).reverse.find? fun token =>
    !Text.startsWith "-" token && token ≠ "new" && token ≠ "cargo").map (Text.trimEndMatches '/')

def targetKindFlag (cmd : Text) : List Text :=
  if Text.contains "--lib" cmd then ["--lib"]
  else if Text.contains "--bin" cmd then ["--bin"]
  else []

def nameFlag : Option Text → List Text
  | some name => ["--name", name]
  | none => []

/-- `cargo new` with the same name and kind, for a target that is missing. -/
def rewriteCargoInitToNew (cmd : Text) (targetRoot : FilePath) : Text :=
  let targetName := (FilePath.fileName targetRoot).getD "workspace"
  let words : List Text := ["cargo", "new"]
  Text.join " " (words ++ nameFlag (extractFlagValue cmd "--name") ++ targetKindFlag cmd ++
    [targetName])

/-- `cargo init` in the target that is there. -/
def rewriteCargoNewToInit (cmd : Text) : Text :=
  let name := (extractFlagValue cmd "--name").or (extractCargoNewTarget cmd)
  let words : List Text := ["cargo", "init"]
  let here : Text := "."
  Text.join " " (words ++ nameFlag name ++ targetKindFlag cmd ++ [here])

/-- A command that is neither of the two and validates nothing is a repair. -/
def classifyExecAction : ExecAction → ConstraintAction
  | .runCommand cmd _ =>
    match metaInvariantClassifyBootstrapTool cmd with
    | some .cargoInit => .cargoInit
    | some .cargoNew => .cargoNew
    | none => if runsValidation cmd then .validation else .repairWorkspace
  | .other _ => .other

/-- A rewrite runs the other command, in the directory it needs. -/
def validateExecAction (state : ExecState) (action : ExecAction) : ExecDecision :=
  match evaluateConstraintContext
    { state := state.constraintState, route := none, action := some (classifyExecAction action),
      deterministicRoute := none } with
  | .allow => .allow
  | .forbid reason => .forbid reason
  | .rewriteAction .cargoNew reason =>
    match action with
    | .runCommand cmd _ =>
      .rewrite (.runCommand (rewriteCargoInitToNew cmd state.targetRoot)
        ((FilePath.parent state.targetRoot).getD state.targetRoot)) reason
    | .other _ => .forbid reason
  | .rewriteAction .cargoInit reason =>
    match action with
    | .runCommand cmd _ =>
      .rewrite (.runCommand (rewriteCargoNewToInit cmd) state.targetRoot) reason
    | .other _ => .forbid reason
  | .rewriteAction _ reason => .forbid reason
  | .rewriteRoute _ _ => .allow

end Canon.Loop
