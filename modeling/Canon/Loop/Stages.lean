import Canon.Loop.Context

/-! # The observe, verify, reward and decompose stages

    A stage takes the context and gives back the context, an outcome and the
    events it emitted on the way.  `expect`, failed assertions and slices that cut
    a character are the outcome `panic`.
-/

namespace Canon.Loop

variable (H : Host) (ctx : LoopContext)

/-- The directory the goal names, else the workspace. -/
def targetPathOf : FilePath :=
  (ctx.goalText.bind fun text => (parseAgentGoalMarkdown text).targetPath).getD ctx.workspace

/-! ### Observe -/

namespace Observe

def isPlaceholderGoal (goal : Text) : Bool :=
  Text.trim goal = [] || Text.contains "goal-pending" (Text.trim goal)

/-- The goal in the context, or the one in the log when there is no real one. -/
def currentGoal (W : World) (ctx : LoopContext) : Option Text :=
  match ctx.goalText with
  | some goal => if isPlaceholderGoal goal then W.scannedGoal else some goal
  | none => W.scannedGoal

/-- The observation of a payload at the current tick. -/
def observationOf (summary : SemanticStateSummary) (diagnostics : List Text) :
    LoopObserved where
  tick := ctx.currentTick
  errorCount := ctx.errorCount
  warningCount := ctx.warningCount
  compilerErrors := ctx.recentCompilerErrors
  goalText := ctx.goalText
  semanticSummary := summary
  observeDiagnostics := diagnostics

/-- `execute` and `execute_forced` do the same. -/
def executeInner (W : World) (ctx : LoopContext) : StageReply :=
  if ctx.lastObservedTick = some ctx.currentTick then .ok ctx (.emitMany [])
  else
    let ctx := { ctx with goalText := currentGoal W ctx }
    match buildObservationPayload H.toTools W.fs ctx.goalText ctx.workspace
        ctx.recentCompilerErrors with
    | none => .panic ctx
    | some (summary, diagnostics) =>
      .ok { ctx with lastObservedTick := some ctx.currentTick }
        (.emitMany [.loopObserved (observationOf ctx summary diagnostics)])

end Observe

/-! ### Verify -/

def classifyFailureClass (text : Text) : CompilerHintKind :=
  if (extractMissingModuleName text).isSome then .missingModule
  else if Text.contains "allow(dead_code) incompatible with previous forbid" text then
    .deadCodeForbidConflict
  else if Text.contains "main function not found" text ||
      Text.contains "\x60main\x60 function not found" text then .missingEntrypoint
  else if (extractUnresolvedImportSymbol text).isSome then .unresolvedImport
  else if (extractMissingSymbol text).isSome then .missingSymbol
  else if (extractDuplicateDefinitionSymbol text).isSome then .duplicateDefinition
  else if (extractTraitBoundSummary text).isSome then .traitBoundFailure
  else .genericCompilerFailure

namespace Verify

def runCargoCheck (W : World) (workspace : FilePath) : Except Text (Bool × Text) :=
  if !W.fs.pathExists workspace then
    .ok (false, "target path does not exist: ".toList ++ workspace)
  else W.cargoCheck workspace

/-- The diagnostics of a failed check; nothing when the hints panic. -/
def failureDiagnostics (stderr : Text) : Option (List Text) :=
  (extractCompilerHints [jsonText stderr]).map fun hints =>
    let failureClass := (hints.findSome? fun hint => hint.kindEnum.map CompilerHintKind.asStr).getD
      (classifyFailureClass stderr).asStr
    let failureScope := ((hints.filterMap fun hint => hint.failureScopeEnum).find? (· ≠ .none)).getD
      (classifyFailureScope stderr (extractTargetFiles stderr))
    ["cargo_check_failed", "failure_class=".toList ++ failureClass,
      "failure_scope=".toList ++ failureScope.asStr, stderr]

/-- The policy the diagnostics of a round give. -/
def policyUpdate (tick : Nat) (ok : Bool) (diagnostics : List Text) : VerifierPolicyUpdated :=
  let acted := ctx.lastActed.isSome
  let passed := ok && acted
  let diagnostics := if acted then diagnostics else diagnostics ++ ["no_actions_executed".toList]
  let update := metaInvariantAllResultsUpdatePolicy passed passed diagnostics
  { tick := tick
    verifierOutcome := update.verifierOutcome.asStr
    retryPolicy := update.retryPolicy
    rewardBias := update.rewardBias
    actionableFailure := update.actionableFailure
    traceId := some (H.uuid ctx.drawn)
    executionId := some (H.uuid (ctx.drawn + 1))
    spanId := ctx.lastActSpanId
    parentSpanId := none }

def execute (W : World) (selected : RouteSelected) (ctx : LoopContext) : StageReply :=
  let after := { ctx with drawn := ctx.drawn + 2 }
  match runCargoCheck W (targetPathOf ctx) with
  | .error message => ⟨after, .err message, []⟩
  | .ok (ok, stderr) =>
    match (if ok then some [] else failureDiagnostics stderr) with
    | none => .panic after
    | some diagnostics =>
      .ok after (.emit (.verifierPolicyUpdated (policyUpdate H ctx selected.tick ok diagnostics)))

end Verify

/-! ### Reward -/

namespace Reward

structure RewardSemantics where
  reward : Float32
  resetsStagnation : Bool

/-- Nothing when no verifier policy was seen. -/
def evaluateRewardSemantics : Option RewardSemantics :=
  ctx.lastVerifierRewardBias.map fun bias : Text =>
    let results := ctx.recentExecutionResults
    let trend := ctx.objectiveTrendState
    let reward : Float32 := if bias = "positive" then 1.0 else -1.0
    let reward := if ctx.lastActionKind = .done then reward + 0.5 else reward
    let reward :=
      if latestSemanticProgress results then reward + 0.4
      else if latestNoSemanticProgress results then reward - 0.4
      else reward
    let reward :=
      if latestGraphProofVerified results then reward + 0.2
      else if latestGraphProofFailed results then reward - 0.4
      else reward
    let reward := if trend.repairResolutionRateAboveHalf then reward + 0.2 else reward
    let reward :=
      if trend.repeatedStallCount > 0 && trend.currentNoProgressStreak > 0 then reward - 0.3
      else reward
    { reward := reward
      resetsStagnation := bias = "positive" ||
        (latestSemanticProgress results && !latestGraphProofFailed results) }

/-- The reward of a verified round. -/
def rewardedOf (verified : LoopVerified) (semantics : RewardSemantics)
    (traceId executionId : Option Text) : LoopRewarded where
  tick := verified.tick
  errorsBefore := ctx.errorsBefore
  errorsAfter := ctx.errorCount
  stagnantTicks := ctx.stagnantTicks
  halt := false
  goodness := ctx.goodness.getD 0
  reward := semantics.reward
  deltaG := ctx.deltaG.getD 0
  traceId := traceId
  executionId := executionId
  spanId := verified.spanId
  parentSpanId := verified.parentSpanId

def settleStagnation (semantics : RewardSemantics) : LoopContext :=
  if semantics.resetsStagnation then { ctx with stagnantTicks := 0 }
  else { ctx with stagnantTicks := satSucc ctx.stagnantTicks, lastDoneGoal := none }

def executeConclude : StageReply :=
  .ok ctx (.emit (.loopRewarded
    { tick := ctx.currentTick
      errorsBefore := ctx.errorsBefore
      errorsAfter := ctx.errorCount
      stagnantTicks := ctx.stagnantTicks
      halt := true
      goodness := ctx.goodness.getD 0
      reward := 1.0
      deltaG := ctx.deltaG.getD 0
      traceId := none
      executionId := none
      spanId := none
      parentSpanId := none }))

def execute (verified : LoopVerified) (ctx : LoopContext) : StageReply :=
  let ctx := { ctx with
    lastRewardTraceId := verified.traceId
    lastRewardExecutionId := verified.executionId }
  match evaluateRewardSemantics ctx with
  | none => .panic ctx
  | some semantics =>
    .ok (settleStagnation ctx semantics)
      (.emit (.loopRewarded
        (rewardedOf ctx verified semantics verified.traceId verified.executionId)))

def executeFromPolicy (policy : VerifierPolicyUpdated) (ctx : LoopContext) : StageReply :=
  match ctx.lastVerified with
  | none => .panic ctx
  | some verified =>
    let ctx := { ctx with
      lastRewardTraceId := policy.traceId.or verified.traceId
      lastRewardExecutionId := policy.executionId.or verified.executionId }
    match evaluateRewardSemantics ctx with
    | none => .panic ctx
    | some semantics =>
      .ok (settleStagnation ctx semantics)
        (.emit (.loopRewarded
          (rewardedOf ctx verified semantics ctx.lastRewardTraceId ctx.lastRewardExecutionId)))

end Reward

/-! ### Decompose -/

namespace Decompose

def execute : StageReply :=
  if ctx.pendingDecomposeRequestId.isSome then .ok ctx .noop
  else
    match ctx.goalText.or (ctx.lastObserved.bind (·.goalText)) with
    | none => .ok ctx .noop
    | some goalText =>
      let requestId := H.uuid ctx.drawn
      ⟨{ ctx with
          drawn := ctx.drawn + 1
          pendingDecomposeRequestId := some requestId },
        .ok .deferred,
        [.llm
          { requestId := requestId
            prompt := H.decomposePrompt goalText
            role := some "decompose"
            agentId := ctx.agentId
            dispatched := true
            system := none
            systemPromptId := none
            contextBase := none
            contextBaseId := none
            promptBaseId := none
            prevPromptId := none }]⟩

structure ParsedTask where
  dispatchId : Text
  taskKind : Text
  taskPrompt : Text
  deps : List Text

/-- One entry of the answer; `ids` are the identifiers drawn for all entries. -/
def parseTask (ids : List Text) (i : Nat) (item : Json) : Option ParsedTask :=
  ((item.get "agent_id").bind Json.asText).bind fun _ =>
    ((item.get "task_prompt").bind Json.asText).map fun taskPrompt =>
      { dispatchId := ids.getD i []
        taskKind := ((item.get "task_kind").bind Json.asText).getD "task"
        taskPrompt := taskPrompt
        deps := (((item.get "deps").bind Json.asArray).getD []).filterMap fun dep =>
          dep.asU64.bind fun idx =>
            if idx < ids.length && idx ≠ i then ids[idx]? else none }

/-- The entries of the array in the answer; nothing when the last bracket stands
    before the first one. -/
def responseEntries (response : Text) : Option (List Json) :=
  let trimmed := Text.trim response
  let start := (Text.find? "[" trimmed).getD 0
  let stop := ((Text.rfind? "]" trimmed).map (· + 1)).getD trimmed.length
  if start > stop then none
  else some (((H.jsonFromStr ((trimmed.take stop).drop start)).bind Json.asArray).getD [])

def taskEvents (task : ParsedTask) : List RuntimeEvent :=
  .goalNodeCreated
    { nodeId := task.dispatchId
      description := task.taskPrompt
      deps := task.deps
      caps := [task.taskKind] } ::
    task.deps.map fun dep => .goalEdgeDefined dep task.dispatchId

def executeComplete (c : CapabilityCompleted) (ctx : LoopContext) : StageReply :=
  if ctx.pendingDecomposeRequestId ≠ some c.requestId then .ok ctx .noop
  else
    let ctx := { ctx with pendingDecomposeRequestId := none }
    let response : Text :=
      match c.result with
      | .llm _ _ response => H.jsonToString response
      | _ => []
    match responseEntries H response with
    | none => .panic ctx
    | some entries =>
      let ids := (List.range entries.length).map fun k => H.uuid (ctx.drawn + k)
      let ctx := { ctx with drawn := ctx.drawn + entries.length }
      let tasks := entries.zipIdx.filterMap fun (item, i) => parseTask ids i item
      if tasks.isEmpty then .ok ctx .noop
      else .ok ctx (.emitMany (tasks.flatMap taskEvents))

end Decompose

end Canon.Loop
