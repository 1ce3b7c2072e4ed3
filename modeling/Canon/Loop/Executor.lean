import Canon.Lib.Machine
import Canon.Loop.Plan
import Canon.Loop.Act

/-! # The stage executor

    `onEvent` handles one event: the recovery handler, the handler of its kind, an
    observation when one is asked for, the halt check and the stage the event
    starts.  Its reply says how the context changed, what was emitted, which stages
    ran and whether the handling panicked.
-/

namespace Canon.Loop

variable (H : Host) (W : World) (ctx : LoopContext) (event : RuntimeEvent)

inductive Stage where
  | observe
  | plan
  | act
  | verify
  | decompose
  | reward
  | completion
deriving DecidableEq, Repr

structure Handled where
  ctx : LoopContext
  emitted : List RuntimeEvent
  ran : List Stage
  panicked : Bool

namespace Handled

/-- Only the context changed. -/
def only : Handled := ⟨ctx, [], [], false⟩

/-- The next part of the handling, unless this one panicked. -/
def andThen (a : Handled) (next : LoopContext → Handled) : Handled :=
  if a.panicked then a
  else
    let b := next a.ctx
    ⟨b.ctx, a.emitted ++ b.emitted, a.ran ++ b.ran, b.panicked⟩

end Handled

/-! ### Intents and results of actions -/

/-- A relative path below the target root, when one is known. -/
def normalizeAgainst (targetRoot : Option FilePath) (path : FilePath) : FilePath :=
  if FilePath.isAbsolute path then path else (targetRoot.map (FilePath.join · path)).getD path

def patchIntents (patch : Text) (targetRoot : Option FilePath) : Patch.Hunk → List ActionIntent
  | .addFile path _ =>
    let path := normalizeAgainst targetRoot path
    if isEntrypointText path then [⟨.createEntrypoint, some path⟩] else []
  | .updateFile path _ _ | .deleteFile path =>
    let path := normalizeAgainst targetRoot path
    (if Text.contains "allow(dead_code)" patch then [⟨.fixDeadCodeConflict, some path⟩] else []) ++
      (if isTraitBoundEdit patch then [⟨.fixTraitBoundFailure, some path⟩] else [])

def classifyPlannedActionIntents (planned : LoopPlanned) (targetRoot : Option FilePath) :
    List ActionIntent :=
  let atPath (kind : IntentKind) : List ActionIntent :=
    ((planned.field "path").map fun path =>
      { kind := kind, path := some (normalizeAgainst targetRoot path) }).toList
  match planned.actionKind with
  | .runCommand =>
    let cmd := (planned.field "cmd").getD []
    (if Text.contains "cargo new " cmd then [⟨.bootstrapWorkspace, none⟩] else []) ++
      (if Text.contains "cargo init" cmd then [⟨.initCargoProject, none⟩] else []) ++
      (if Text.contains "cargo check" cmd then [⟨.validateCargoCheck, none⟩] else [])
  | .renameSymbol => atPath .resolveDuplicateDefinition
  | .moveSymbol => atPath .restructureModules
  | .addImport => atPath .fixUnresolvedImport
  | .defineSymbolStub => atPath .defineMissingSymbol
  | .createModuleFile => atPath .createModuleFile
  | .applyPatch =>
    (patchHunks planned).flatMap (patchIntents ((planned.field "patch").getD []) targetRoot)
  | _ => []

/-- The result of an intent that was carried out: its kind, its summary and whether
    it is progress. -/
def IntentKind.success : IntentKind → Text × Text × Bool
  | bootstrapWorkspace =>
    ("workspace_bootstrapped", "workspace bootstrap command succeeded", true)
  | initCargoProject =>
    ("cargo_project_initialized", "cargo project initialization succeeded", true)
  | validateCargoCheck => ("validation_attempted", "cargo check executed", false)
  | createEntrypoint => ("entrypoint_created", "entrypoint file created", true)
  | createModuleFile => ("module_created", "module file created", true)
  | restructureModules => ("module_restructured", "module restructure edit applied", true)
  | fixDeadCodeConflict =>
    ("dead_code_conflict_addressed", "dead_code conflict edit applied", true)
  | fixUnresolvedImport => ("import_resolved", "import repair edit applied", true)
  | defineMissingSymbol => ("symbol_defined", "missing symbol definition edit applied", true)
  | resolveDuplicateDefinition =>
    ("duplicate_resolved", "duplicate definition repair applied", true)
  | fixTraitBoundFailure => ("trait_bound_fixed", "trait bound repair edit applied", true)

def executionResultsForAction (intents : List ActionIntent) (success : Bool) (stderr : Text) :
    List SemanticExecutionResultRecord :=
  if intents = [] then
    [{ kind := "no_semantic_progress"
       summary :=
         if success then "action succeeded without semantic state change classification"
         else "action failed: ".toList ++ Text.trim stderr
       targetFiles := []
       semanticProgress := false
       attemptedKind := none }]
  else
    intents.map fun intent =>
      if success then
        { kind := intent.kind.success.1
          summary := intent.kind.success.2.1
          targetFiles := intent.path.toList
          semanticProgress := intent.kind.success.2.2
          attemptedKind := some intent.kind.key }
      else
        { kind := "no_semantic_progress"
          summary := intent.kind.key ++ " failed: ".toList ++ Text.trim stderr
          targetFiles := intent.path.toList
          semanticProgress := false
          attemptedKind := some intent.kind.key }

/-! ### Traces -/

def boolAt (value : Json) (key : String) : Bool :=
  match value.get key with
  | some (.bool b) => b
  | _ => false

/-- A trace, unless it is the one sent last. -/
def emitDebug (kind reason : Text) (payload : Json) : Handled :=
  let trace := decisionTracePayload reason payload
  let hash := H.hashJson trace
  if ctx.lastDeltaHash = some hash then .only ctx
  else
    { Handled.only { ctx with lastDeltaHash := some hash } with
      emitted := [.debug { source := "loop_stage_executor", kind := kind, payload := trace }] }

def errorEvent (kind message severity : Text) (context : Json) : RuntimeEvent :=
  .errorOccurred
    { kind := kind
      source := "loop_stage_executor"
      message := message
      severity := severity
      context := context }

/-! ### Bookkeeping -/

/-- Results of executed actions; the last sixteen are kept. -/
def recordResults (results : List SemanticExecutionResultRecord) :
    LoopContext :=
  { ctx with
    objectiveTrendState := ctx.objectiveTrendState.recordExecutionResults results
    recentExecutionResults := keepLast 16 (ctx.recentExecutionResults ++ results) }

def recordGraphProofResult (debug : DebugEvent) (passed : Bool) :
    LoopContext :=
  let artifactId := (((debug.payload.get "payload").bind (Json.get "artifact_id")).bind
    Json.asText).getD "unknown"
  recordResults ctx
    [{ kind := if passed then "graph_proof_verified" else "graph_proof_failed"
       summary :=
         (if passed then "semantic graph proof verified against artifact ".toList
           else "semantic graph proof failed against artifact ".toList) ++ artifactId
       targetFiles := []
       semanticProgress := passed
       attemptedKind := none }]

def applyVerifierPolicyUpdate (updated : VerifierPolicyUpdated) :
    LoopContext :=
  recordResults { ctx with lastVerifierRewardBias := some updated.rewardBias }
    [{ kind :=
         if updated.retryPolicy = "corrective_retry" then "verifier_policy_corrective_retry"
         else "verifier_policy_none"
       summary :=
         "meta_invariant_all_results_update_policy verifier_outcome=".toList ++
           updated.verifierOutcome ++ " retry_policy=".toList ++ updated.retryPolicy ++
           " reward_bias=".toList ++ updated.rewardBias ++ " actionable_failure=".toList ++
           Text.ofBool updated.actionableFailure
       targetFiles := []
       semanticProgress := !updated.actionableFailure
       attemptedKind := some "verify_result" }]

def recordCompilerError (reason level message : Text) : LoopContext :=
  { ctx with
    recentCompilerErrors := keepLast 16 (ctx.recentCompilerErrors ++
      [.obj [("reason", jsonText reason),
        ("message", .obj [("level", jsonText level), ("message", jsonText message)])]]) }

def resetPlanWindowState : LoopContext :=
  { ctx with lastHandledObservedHash := none, lastEmittedPlanHash := none, lastDeltaHash := none }

def clearInvalidPlanTracking : LoopContext :=
  { ctx with
    consecutiveInvalidPlanBatches := 0
    lastInvalidPlanReason := none
    lastInvalidPlanPlannedCount := none }

/-! ### Observing -/

inductive ObserveExecutionMode where
  | none
  | forced
  | triggered
  | suppressedByInvariant
deriving DecidableEq, Repr

/-- The events that may start an observation in a mode. -/
def ObserveExecutionMode.allows : ObserveExecutionMode → RuntimeEvent → Option Bool
  | forced, .routeTick _ => some true
  | triggered, .routeTick _ | triggered, .routeSelected _ => some true
  | forced, _ | triggered, _ => some false
  | _, _ => Option.none

def executeObserveMode (mode : ObserveExecutionMode) : Handled :=
  if ctx.lastPlannedObservedTick = some ctx.currentTick then .only ctx
  else
    match mode.allows event with
    | none => { Handled.only ctx with panicked := true }
    | some false => .only ctx
    | some true =>
      let reply := Observe.executeInner H W ctx
      match reply.outcome with
      | .ok result =>
        { ctx := { reply.ctx with lastPlannedObservedTick := some reply.ctx.currentTick }
          emitted := reply.emitted ++ result.events
          ran := [.observe]
          panicked := false }
      | _ => ⟨reply.ctx, reply.emitted, [.observe], true⟩

/-! ### Handlers -/

/-- The route is remembered; a route to `observe` observes at once. -/
def handleRouteSelected (selected : RouteSelected) :
    Handled :=
  if selected.tick ≠ ctx.currentTick then { Handled.only ctx with panicked := true }
  else
    let ctx := { ctx with lastRouteSelectedTick := some selected.tick }
    let ctx :=
      if selected.rationale ≠ [] then
        { ctx with
          lastRouteRationaleNonEmpty := some selected.rationale
          lastRouteConfidenceNonEmpty := selected.confidence }
      else ctx
    if selected.approvedRoute = "observe" then
      executeObserveMode H W ctx (.routeSelected selected) .triggered
    else .only ctx

def handleLoopVerified (verified : LoopVerified) : LoopContext :=
  let ctx := { ctx with lastVerified := some verified }
  resetPlanWindowState
    (if verified.passed then { ctx with errorCount := 0, warningCount := 0 } else ctx)

/-- A rejected plan clears what suppresses the next one; any other end of planning
    clears the record of rejections. -/
def applyPlanningTransitionEffects (status : Text) : LoopContext :=
  if status = "invalid_plan" then resetPlanWindowState ctx else clearInvalidPlanTracking ctx

def handlePlanningCompleted (completed : PlanningCompleted) : LoopContext :=
  applyPlanningTransitionEffects
    { ctx with
      objectiveTrendState := ctx.objectiveTrendState.recordPlanningCompletion completed.status }
    completed.status

def handleRuntimeStateUpdated (payload : Json) : LoopContext :=
  if boolAt payload "fatal_invariant" then
    { ctx with
      halted := true
      lastHaltReason := (payload.get "fatal_invariant_reason").bind Json.asText }
  else if (payload.get "runtime_mode").bind Json.asText = some "running" then
    { ctx with halted := false, lastHaltReason := none }
  else ctx

/-- The content of a loaded prompt. -/
def promptContent (payload : Json) : Option Text :=
  (((payload.get "data").getD payload).get "content").bind Json.asText

def handlePromptLoaded (payload : Json) : LoopContext :=
  match promptContent payload with
  | none => ctx
  | some content => { ctx with goalText := some content, lastPromptedGoal := some content }

def handleLoopPlanned (planned : LoopPlanned) : Handled :=
  let targetRoot := ctx.lastObserved.bind (·.semanticSummary.targetRoot)
  let ctx :=
    match planned.actionId with
    | some actionId =>
      { ctx with
        actionSemanticIntents := ctx.actionSemanticIntents.insert actionId
          (classifyPlannedActionIntents planned targetRoot) }
    | none => ctx
  let task : ScheduledTask :=
    { priority := inferPriority planned ctx.goodness ctx.deltaG
      enqueuedAt := W.now
      seq := 0
      plan := planned }
  if planned.dependsOn = [] then .only { ctx with scheduler := ctx.scheduler.push task }
  else
    { Handled.only { ctx with depTracker := ctx.depTracker.add task } with
      emitted := (planned.actionId.map fun child =>
        planned.dependsOn.map fun dep => RuntimeEvent.goalEdgeDefined dep child).getD [] }

/-- The stored observation with another summary. -/
def updateObserved (f : SemanticStateSummary → SemanticStateSummary) :
    LoopContext :=
  match ctx.lastObserved with
  | none => ctx
  | some observed =>
    let observed := { observed with semanticSummary := f observed.semanticSummary }
    { ctx with
      lastObserved := some observed
      objectiveTrendState := ctx.objectiveTrendState.recordObservation observed.errorCount
        observed.semanticSummary }

def handleRustcCaptureFailed (message : Text) : LoopContext :=
  let ctx := updateObserved ctx (·.applyRustcCaptureFailure message)
  recordCompilerError { ctx with errorCount := ctx.errorCount + 1 } "rustc_capture_failed" "error"
    message

def handleLoopObserved (observed : LoopObserved) : LoopContext :=
  if ctx.lastObservedTick = some observed.tick then ctx
  else
    { ctx with
      lastObserved := some observed
      lastObservedTick := some observed.tick
      errorsBefore := observed.errorCount
      objectiveTrendState := ctx.objectiveTrendState.recordObservation observed.errorCount
        observed.semanticSummary }

def handleRustcGraphArtifactWritten (w : RustcGraphArtifactWritten) :
    LoopContext :=
  updateObserved ctx fun summary =>
    summary.applyGraphArtifactSummary w.artifactId w.nodeCount w.edgeCount w.fileCount
      w.callEdgeCount w.moduleEdgeCount w.cfgEdgeCount

/-- The report of another agent, cut to 256 bytes. -/
def handleSubtaskResult (result : SubTaskResult) : Handled :=
  let summary := H.jsonToString result.output
  let cut :=
    if Text.byteLen summary > 256 then
      (Text.takeBytes? 256 summary).map (· ++ "...<truncated>".toList)
    else some summary
  match cut with
  | none => { Handled.only ctx with panicked := true }
  | some text =>
    .only { ctx with
      mergedActions := keepLast 32 (ctx.mergedActions ++
        [{ agentId := result.agentId
           success := result.success
           stdoutSummary := text ++
             (result.error.map fun err => " error=".toList ++ err).getD [] }]) }

def handleToolResult (result : ToolResult) : LoopContext :=
  if result.kind ≠ "llm.plan" then
    { ctx with batchToolResults := ctx.batchToolResults ++ [result] }
  else ctx

def haltReason (rewarded : LoopRewarded) : Text :=
  if ctx.lastActionKind = .other "conclude" then "explicit conclude route"
  else
    "loop_rewarded requested halt; reward=".toList ++ H.showF32 rewarded.reward ++
      " stagnant_ticks=".toList ++ Text.ofNat rewarded.stagnantTicks ++
      " errors_before=".toList ++ Text.ofNat rewarded.errorsBefore ++
      " errors_after=".toList ++ Text.ofNat rewarded.errorsAfter

def handleLoopRewarded (rewarded : LoopRewarded) : Handled :=
  if !rewarded.halt then .only ctx
  else
    let reason := haltReason H ctx rewarded
    emitDebug H { ctx with halted := true, lastHaltReason := some reason } "loop_halt_reason"
      "loop entered halted state"
      (.obj [("reason", jsonText reason), ("tick", Json.nat rewarded.tick),
        ("reward", H.jsonOfF32 rewarded.reward),
        ("stagnant_ticks", Json.nat rewarded.stagnantTicks),
        ("errors_before", Json.nat rewarded.errorsBefore),
        ("errors_after", Json.nat rewarded.errorsAfter)])

def isReadOnlyAction : ActionKind → Bool
  | .listDir | .readFile | .searchFiles | .done => true
  | _ => false

def isBootstrapCommandOutput (stdout stderr : Text) : Bool :=
  let text := if stdout ≠ [] then stdout else stderr
  Text.contains "Creating binary (application) package" text ||
    Text.contains "Creating library package" text ||
    Text.contains "Creating binary (application) \x60" text ||
    Text.contains "Creating library \x60" text

/-- The action created a Cargo project. -/
def bootstrapSucceeded (acted : LoopActed) : Bool :=
  acted.actionKind = .runCommand && acted.success &&
    isBootstrapCommandOutput acted.stdout acted.stderr

/-- The tasks that waited for `done` are scheduled. -/
def unblockTasks (done : Text) : LoopContext :=
  let (tracker, ready) := ctx.depTracker.complete done
  { ctx with depTracker := tracker, scheduler := ctx.scheduler.pushAll ready }

def settleIntents (acted : LoopActed) (actionId : Text) : LoopContext :=
  match ctx.actionSemanticIntents actionId with
  | none => ctx
  | some intents =>
    recordResults
      { ctx with actionSemanticIntents := ctx.actionSemanticIntents.erase actionId }
      (executionResultsForAction intents acted.success acted.stderr)

def releasePaths (actionId : Text) : LoopContext :=
  match ctx.writePathsByAction actionId with
  | none => ctx
  | some paths =>
    { ctx with
      writePathsByAction := ctx.writePathsByAction.erase actionId
      fileWriteTracker := paths.foldl FileWriteTracker.release ctx.fileWriteTracker }

def applyPostActCleanup (actionKind : ActionKind) : LoopContext :=
  let ctx := resetPlanWindowState ctx
  if isReadOnlyAction actionKind then ctx else clearInvalidPlanTracking ctx

/-- The context after the report of an action, before a bootstrap clears the queues. -/
def settleActed (acted : LoopActed) : LoopContext :=
  let ctx := applyPostActCleanup
    { ctx with
      lastActed := some acted
      lastActionKind := acted.actionKind
      batchActed := ctx.batchActed ++ [acted] } acted.actionKind
  let ctx :=
    match acted.actionId with
    | none => ctx
    | some actionId =>
      unblockTasks (releasePaths (settleIntents ctx acted actionId) actionId) actionId
  unblockTasks ctx acted.actionKind.asStr

def handleLoopActed (acted : LoopActed) : Handled :=
  let ctx := settleActed ctx acted
  if !bootstrapSucceeded acted then .only ctx
  else
    emitDebug H
      { ctx with
        scheduler := ctx.scheduler.clear
        depTracker := .empty
        pendingAct := none
        activeBatchLlmRequestId := none }
      "bootstrap_refresh_required"
      "successful bootstrap invalidated queued plan work; forcing a fresh observe is required"
      (.obj [("action_kind", jsonText acted.actionKind.asStr), ("success", .bool acted.success),
        ("target_workspace", jsonOption
          (ctx.goalText.bind fun text => (parseAgentGoalMarkdown text).targetPath))])

/-- Whether an error asks for an observation. -/
def errorTriggersObserve (err : ErrorOccurred) : Bool :=
  let fatalDiagnostic := err.kind = "diagnostics_triggered" && boolAt err.context "fatal_invariant"
  err.kind = "act_stall" ||
    (err.kind ≠ "invariant_violation" && err.kind ≠ "invalid_plan_batch" && !fatalDiagnostic)

def handleErrorOccurred (err : ErrorOccurred) : LoopContext :=
  let ctx :=
    if err.severity = "warning" then { ctx with warningCount := ctx.warningCount + 1 }
    else { ctx with errorCount := ctx.errorCount + 1 }
  let ctx := recordCompilerError ctx "error_occurred" err.severity err.message
  if err.kind = "invalid_plan_batch" then
    { ctx with
      consecutiveInvalidPlanBatches := satSucc ctx.consecutiveInvalidPlanBatches
      objectiveTrendState := ctx.objectiveTrendState.recordInvalidPlanEvent
      lastInvalidPlanReason := some err.message
      lastInvalidPlanPlannedCount := (err.context.get "planned_count").bind Json.asU64 }
  else ctx

/-! ### Recovery -/

inductive RecoveryEventRule where
  | none
  | forceObserve
  | executeRewardRecovery
  | missingRewardContext
deriving DecidableEq, Repr

def evaluateRecoveryEvent (expected : Option Text) (hasLastVerified : Bool) : RecoveryEventRule :=
  if expected = some "loop_observed" then .forceObserve
  else if expected = some "loop_rewarded" then
    if hasLastVerified then .executeRewardRecovery else .missingRewardContext
  else .none

/-- The successor a recovery event expects; nothing for other events. -/
def recoveryExpected : RuntimeEvent → Option (Option Text)
  | .debug debug =>
    if debug.kind = "recovery_event" then
      some (((debug.payload.get "context").bind (Json.get "expected_successor")).bind Json.asText)
    else none
  | _ => none

def forcesObserve (ctx : LoopContext) : Bool :=
  match recoveryExpected event with
  | some expected => evaluateRecoveryEvent expected ctx.lastVerified.isSome = .forceObserve
  | none => false

def executeRewardRecovery : Handled :=
  match ctx.lastVerified with
  | none => .only ctx
  | some verified =>
    let reply := Reward.execute verified ctx
    match reply.outcome with
    | .ok result => ⟨reply.ctx, reply.emitted ++ result.events, [.reward], false⟩
    | _ => ⟨reply.ctx, reply.emitted, [.reward], true⟩

/-- What is done about a recovery event, and whether this ends its handling. -/
def handleRecoveryEvent : Handled × Bool :=
  match recoveryExpected event with
  | none => (.only ctx, false)
  | some expected =>
    let received := emitDebug H ctx "recovery_received"
      "recovery event received by loop stage executor"
      (.obj [("expected_successor", jsonText (expected.getD "unknown")),
        ("trigger_kind", jsonText (eventKindStr event))])
    match evaluateRecoveryEvent expected ctx.lastVerified.isSome with
    | .missingRewardContext =>
      (received.andThen fun ctx =>
        (emitDebug H ctx "reward_recovery_missing_context"
          "reward recovery requested but no last verified event is available"
          (.obj [("trigger_kind", jsonText (eventKindStr event))])).andThen fun ctx =>
            { Handled.only ctx with
              emitted := [errorEvent "reward_stall"
                "reward recovery requested without last_verified context" "warning"
                (.obj [("recoverable", .bool true)])] }, true)
    | .executeRewardRecovery => (received.andThen executeRewardRecovery, true)
    | .none | .forceObserve => (received, false)

/-! ### The handler of an event -/

structure HandlerReply where
  handled : Handled
  /-- The handling ends here. -/
  stop : Bool
  triggerObserve : Bool

namespace HandlerReply

def goOn (handled : Handled) : HandlerReply := ⟨handled, false, false⟩

/-- The context changed and nothing else. -/
def set : HandlerReply := goOn (.only ctx)

def ignore : HandlerReply := ⟨.only ctx, true, false⟩

end HandlerReply

def handleDebug (debug : DebugEvent) : HandlerReply :=
  if debug.kind = "recovery_event" then .set ctx
  else if debug.kind = "route_objective_contradiction" then
    .set { ctx with
      objectiveTrendState := ctx.objectiveTrendState.recordRouteObjectiveContradiction }
  else if debug.kind = "goal_objective_drift" then
    .set { ctx with objectiveTrendState := ctx.objectiveTrendState.recordGoalObjectiveDrift }
  else if debug.kind = "semantic_graph_proof_verified" then
    .set (recordGraphProofResult ctx debug true)
  else if debug.kind = "semantic_graph_proof_failed" then
    .set (recordGraphProofResult ctx debug false)
  else .ignore ctx

def normalizeRoute (selected : RouteSelected) : RouteSelected :=
  { selected with approvedRoute := Text.toLowercase (Text.trim selected.approvedRoute) }

def handleEvent : RuntimeEvent → HandlerReply
  | .debug debug => handleDebug ctx debug
  | .routeSelected selected =>
    if ctx.lastRouteSelectedTick = some selected.tick then .ignore ctx
    else .goOn (handleRouteSelected H W ctx (normalizeRoute selected))
  | .tick tick => .set { ctx with currentTick := tick, lastRouteSelectedTick := none }
  | .rustcGraphArtifactWritten written => .set (handleRustcGraphArtifactWritten ctx written)
  | .rustcCaptureFailed message => ⟨.only (handleRustcCaptureFailed ctx message), false, true⟩
  | .loopObserved observed => .set (handleLoopObserved ctx observed)
  | .loopActed acted => .goOn (handleLoopActed H ctx acted)
  | .verifierPolicyUpdated updated => .set (applyVerifierPolicyUpdate ctx updated)
  | .loopVerified verified => .set (handleLoopVerified ctx verified)
  | .subTaskResult result => .goOn (handleSubtaskResult H ctx result)
  | .loopPlanned planned => .goOn (handleLoopPlanned W ctx planned)
  | .loopRewarded rewarded => .goOn (handleLoopRewarded H ctx rewarded)
  | .planningCompleted completed =>
    ⟨.only (handlePlanningCompleted ctx completed), false,
      completed.status = "missing_semantic_context"⟩
  | .goodnessSnapshot g deltaG => .set { ctx with goodness := some g, deltaG := some deltaG }
  | .runtimeStateUpdated payload => .set (handleRuntimeStateUpdated ctx payload)
  | .promptLoaded payload =>
    ⟨.only (handlePromptLoaded ctx payload), false, (promptContent payload).isSome⟩
  | .errorOccurred err => ⟨.only (handleErrorOccurred ctx err), false, errorTriggersObserve err⟩
  | .toolResult result => .set (handleToolResult ctx result)
  | .routeTick tick => ⟨.only { ctx with currentTick := tick }, false, true⟩
  | .code _ | .edit | .cargo | .file _ | .bash _ | .llm _ => .ignore ctx
  | .agentRegistered _ | .capabilityCompleted _ | .capabilityFailed _ | .toolCall _
  | .invariantDiscovered _ | .goalNodeCreated _ | .goalEdgeDefined _ _ | .plain _ => .set ctx

/-! ### Starting stages -/

inductive LoopStageEvent where
  | scan
  | planTrigger (selected : RouteSelected)
  | actDispatch
  | verifyTrigger (selected : RouteSelected)
  | decompose
  | conclude
  | capabilityDone (c : CapabilityCompleted)
  | capabilityFail (f : CapabilityFailed)
  | rewardPolicy (policy : VerifierPolicyUpdated)

namespace LoopStageEvent

def ofRoute (selected : RouteSelected) : Option LoopStageEvent :=
  let route := (normalizeRoute selected).approvedRoute
  if route = "scan" || route = "observe" then some scan
  else if route = "plan" then some (planTrigger selected)
  else if route = "act" then some actDispatch
  else if route = "verify" then some (verifyTrigger selected)
  else if route = "decompose" then some decompose
  else if route = "conclude" || route = "reward" then some conclude
  else none

def tryFrom : RuntimeEvent → Option LoopStageEvent
  | .routeSelected selected => ofRoute selected
  | .capabilityCompleted c => some (capabilityDone c)
  | .capabilityFailed f => some (capabilityFail f)
  | .verifierPolicyUpdated policy => some (rewardPolicy policy)
  | _ => none

def stage : LoopStageEvent → Stage
  | scan => .observe
  | planTrigger _ => .plan
  | actDispatch => .act
  | verifyTrigger _ => .verify
  | decompose => .decompose
  | conclude | rewardPolicy _ => .reward
  | capabilityDone _ | capabilityFail _ => .completion

end LoopStageEvent

/-- A panic that is caught counts as nothing done. -/
def StageReply.catchUnwind (r : StageReply) : StageReply :=
  match r.outcome with
  | .panic => { r with outcome := .ok .noop }
  | _ => r

/-- The next stage is asked when this one did nothing. -/
def StageReply.ifNoop (r : StageReply) (next : LoopContext → StageReply) : StageReply :=
  match r.outcome with
  | .ok .noop =>
    let s := next r.ctx
    { s with emitted := r.emitted ++ s.emitted }
  | _ => r

def dispatchCapabilityDone (c : CapabilityCompleted) (ctx : LoopContext) :
    StageReply :=
  let entry : RuntimeEvent := .debug
    { source := "loop_stage_dispatch"
      kind := "dispatch_capability_done_entry"
      payload := .obj [("scheduler_empty", .bool ctx.scheduler.isEmpty),
        ("pending_act", .bool ctx.pendingAct.isSome)] }
  let reply := (Decompose.executeComplete H c ctx).ifNoop fun ctx =>
    (Plan.executeComplete H W c ctx).catchUnwind.ifNoop fun ctx =>
      (Act.executeComplete H W c ctx).catchUnwind
  { reply with emitted := entry :: reply.emitted }

def dispatchCapabilityFail (f : CapabilityFailed) (ctx : LoopContext) :
    StageReply :=
  (Plan.executeFailed H f ctx).catchUnwind.ifNoop fun ctx =>
    (Act.executeFailed H W f ctx).catchUnwind

def LoopStageEvent.execute :
    LoopStageEvent → StageReply
  | scan => Observe.executeInner H W ctx
  | planTrigger selected => Plan.executeTrigger H W selected ctx
  | actDispatch => Act.executeDispatch H W ctx
  | verifyTrigger selected => Verify.execute H W selected ctx
  | decompose => Decompose.execute H ctx
  | conclude => Reward.executeConclude ctx
  | capabilityDone c => dispatchCapabilityDone H W c ctx
  | capabilityFail f => dispatchCapabilityFail H W f ctx
  | rewardPolicy policy => Reward.executeFromPolicy policy ctx

/-- The reply of a stage as the reply of the executor. -/
def ofStageReply (stage : Stage) (r : StageReply) : Handled :=
  match r.outcome with
  | .ok result => ⟨r.ctx, r.emitted ++ result.events, [stage], false⟩
  | .err message =>
    ⟨r.ctx, r.emitted ++ [errorEvent "loop_stage_execution" message "error"
      (.obj [("event", jsonText (H.debugEvent event))])], [stage], false⟩
  | .panic => ⟨r.ctx, r.emitted, [stage], true⟩

/-- The trace of an observation: what the constraints say about it. -/
def constraintTrace (observed : LoopObserved) :
    RuntimeEvent :=
  let state := ExecState.fromSemanticSummary W.fs ctx.workspace observed.semanticSummary
  let decision := evaluateConstraintContext
    { state := state.constraintState, route := none, action := none, deterministicRoute := none }
  .debug
    { source := "decision"
      kind := "constraint_trace"
      payload := decisionTracePayload "constraint_decision"
        (.obj [("decision", jsonText (H.debugDecision decision))]) }

def executeStageEvent :
    Handled :=
  match event with
  | .loopObserved observed =>
    { Handled.only ctx with emitted := [constraintTrace H W ctx observed] }
  | event =>
    match LoopStageEvent.tryFrom event with
    | none => .only ctx
    | some stageEvent =>
      ofStageReply H event stageEvent.stage (stageEvent.execute H W ctx)

/-! ### The halt check -/

def evaluateLoopRuntime (halted forceObserve triggerObserve suppress : Bool) :
    ObserveExecutionMode :=
  if forceObserve && !halted then .forced
  else if triggerObserve && !halted && suppress then .suppressedByInvariant
  else if triggerObserve && !halted then .triggered
  else .none

def suppressesObserveOnInvariant : RuntimeEvent → Bool
  | .errorOccurred err => err.kind = "invariant_violation"
  | .code invariantViolation => invariantViolation
  | _ => false

def handleRuntimeObserveMode (mode : ObserveExecutionMode) : Handled :=
  let observedAlready := (ctx.lastObservedTick.map fun t => decide (t ≥ ctx.currentTick)).getD false
  if observedAlready then .only ctx
  else if (mode = .forced || mode = .triggered) &&
      ctx.lastRouteSelectedTick = some ctx.currentTick then
    executeObserveMode H W ctx event mode
  else .only ctx

/-- The halt check, and whether it ends the handling. -/
def applyRuntimeEvaluation (forceObserve triggerObserve : Bool) : Handled × Bool :=
  let suppress := suppressesObserveOnInvariant event
  if triggerObserve && !suppress then (.only ctx, false)
  else
    (handleRuntimeObserveMode H W ctx event
      (evaluateLoopRuntime ctx.halted forceObserve triggerObserve suppress), ctx.halted)

/-! ### One event -/

def isPlanningCompleted : RuntimeEvent → Bool
  | .planningCompleted _ => true
  | _ => false

/-- The observation an event asks for. -/
def observeIfAsked (asked : Bool) : Handled :=
  let observedAlready := ctx.lastObservedTick = some ctx.currentTick
  if asked && !(observedAlready && isPlanningCompleted event) then
    executeObserveMode H W ctx event .forced
  else .only ctx

/-- The halt check and the stage. -/
def finishEvent (forceObserve triggerObserve : Bool) : Handled :=
  let checked := applyRuntimeEvaluation H W ctx event forceObserve triggerObserve
  if checked.2 then checked.1
  else checked.1.andThen fun ctx => executeStageEvent H W ctx event

def onEvent : Handled :=
  let force := forcesObserve event ctx
  let recovery := handleRecoveryEvent H ctx event
  if recovery.2 then recovery.1
  else
    recovery.1.andThen fun ctx =>
      let reply := handleEvent H W ctx event
      if reply.stop then reply.handled
      else
        reply.handled.andThen fun ctx =>
          (observeIfAsked H W ctx event (reply.triggerObserve || force)).andThen fun ctx =>
            finishEvent H W ctx event force reply.triggerObserve

/-! ### Runs -/

/-- The executor between two events: its context and all it emitted so far.  After a
    panic it handles nothing more. -/
structure LoopState where
  ctx : LoopContext
  emitted : List RuntimeEvent
  crashed : Bool

def LoopState.start : LoopState := ⟨ctx, [], false⟩

/-- An event and the surroundings it is handled in. -/
structure Delivery where
  world : World
  event : RuntimeEvent

/-- The reply to a delivery. -/
def LoopState.reply (s : LoopState) (d : Delivery) : Handled :=
  onEvent H d.world s.ctx d.event

def loopStep (s : LoopState) (d : Delivery) : LoopState :=
  if s.crashed then s
  else
    let r := s.reply H d
    ⟨r.ctx, s.emitted ++ r.emitted, r.panicked⟩

def loopMachine : Machine LoopState Delivery := ⟨loopStep H⟩

/-! ### A small host -/

def textHash (text : Text) : UInt64 :=
  text.foldl (fun h c => h * 31 + c.toNat.toUInt64) 7

/-- A host that numbers its identifiers by strokes and reads no JSON. -/
def tallyHost : Host where
  jsonFromStr _ := none
  searchHitCount _ _ := 0
  debugAssertions := true
  uuid n := 'u' :: List.replicate n 'i'
  uuid_injective := by
    intro m n h
    simpa using congrArg List.length h
  jsonToString v := (v.asText.map fun t => '"' :: t ++ ['"']).getD "null"
  hashObserved errorCount goalText _ := textHash (goalText.getD []) * 31 + errorCount.toUInt64
  hashStr := textHash
  hashJson v := textHash (((v.get "reason").bind Json.asText).getD [])
  hashBatch batch := batch.foldl (fun h entry => h * 31 + textHash entry.1) 7
  systemPromptId := 1
  systemInstructions := "Plan the next actions."
  decomposePrompt goal := goal
  showF32 _ := "0"
  jsonOfF32 _ := .null
  debugDecision _ := "decision"
  debugEvent _ := "event"

/-- A directory tree in which checks pass and nothing else is to be had. -/
def quietWorld (fs : Fs) : World where
  fs := fs
  scannedGoal := none
  cargoCheck _ := .ok (true, [])
  applyPatch _ _ := .error "no patch"
  editReport _ _ := ⟨some "no editor", []⟩
  graphProof _ _ := ⟨false, [], none, []⟩
  renderPrompt _ observed _ _ _ := some (observed.goalText.getD [], Text.ofNat observed.errorCount)
  promotion := none
  persistedStoreEvents := []
  elapsedMs := 0
  now := 0

/-- An empty directory `/w`, in which checks pass. -/
def emptyDir : World := quietWorld { root := .dir [("w", .dir [])], cwd := [] }

def routeTo (route : Text) (tick : Nat) : RouteSelected :=
  { (default : RouteSelected) with tick := tick, approvedRoute := route }

/-- The start in `/w`. -/
def startInW : LoopState := LoopState.start (LoopContext.new "/w" .block)

end Canon.Loop
