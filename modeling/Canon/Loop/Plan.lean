import Canon.Loop.Stages

/-! # The plan stage

    A route to `plan` turns the stored observation into a request to the planner;
    the answer is parsed, completed, checked and emitted as planned actions.
-/

namespace Canon.Loop

variable (H : Host) (W : World) (ctx : LoopContext) (observed : LoopObserved) (value : Json)
   (pending : PendingPlan) (selected : RouteSelected)

/-! ### Retry policies -/

inductive InvalidPlanReasonClass where
  | mixedBatch
  | patchFormat
  | pathOrCwd
  | missingContext
  | unknown
deriving DecidableEq, Repr

def classifyInvalidPlanReason : Option Text → InvalidPlanReasonClass
  | none => .unknown
  | some reason =>
    if Text.contains "mixed discovery actions with execution/edit actions" reason then .mixedBatch
    else if Text.contains "apply_patch payload is invalid" reason ||
        Text.contains "unexpected line in update chunk" reason ||
        Text.contains "invalid hunk" reason ||
        Text.contains "single-patch retry required" reason then .patchFormat
    else if Text.contains "absolute cwd" reason || Text.contains "path is invalid" reason ||
        Text.contains "absolute paths are not allowed" reason ||
        Text.contains "parent traversal" reason then .pathOrCwd
    else if Text.contains "missing_last_observed" reason ||
        Text.contains "missing_observed_context" reason then .missingContext
    else .unknown

def retryPolicyForInvalidPlan (reason : Option Text) (consecutiveInvalidPlanBatches : Nat) :
    RetryPolicy :=
  if consecutiveInvalidPlanBatches = 0 then .none
  else
    match classifyInvalidPlanReason reason with
    | .mixedBatch => .discoveryOnly
    | .patchFormat => .singlePatchOnly
    | .pathOrCwd | .missingContext | .unknown => .correctiveRetry

def retryPolicyForPlanningContext (reason : Option Text) (consecutiveInvalidPlanBatches : Nat)
    (results : List SemanticExecutionResultRecord) (trend : ObjectiveTrendState) : RetryPolicy :=
  let base := retryPolicyForInvalidPlan reason consecutiveInvalidPlanBatches
  if base ≠ .none then base
  else if latestVerifierPolicyRequiresCorrectiveRetry results then .correctiveRetry
  else if latestVerifierPolicyClearsRetry results then .none
  else if trend.misalignmentPressureScore > 0 then .correctiveRetry
  else if trend.repeatedStallCount > 0 && trend.currentNoProgressStreak > 0 then .correctiveRetry
  else if latestGraphProofFailed results then .correctiveRetry
  else if semanticNoProgressStreak results ≥ 2 then .correctiveRetry
  else .none

namespace Plan

/-! ### The planner's answer -/

inductive LlmAction where
  | patch (path old new : Text)
  | write (path content : Text)
  | command (cmd : Text) (cwd : Option Text)
  | done (reason : Text)
  | applyPatch (patch : Text)
  | readFile (path : Text)
  | listDir (path : Text)
  | addImport (path importPath : Text)
  | defineSymbolStub (path symbol kind : Text)
  | createModuleFile (path : Text) (module : Option Text)
  | moveSymbol (path symbolId newModulePath : Text)
  | renameSymbol (path old new : Text)
deriving Repr

def LlmAction.isDone : LlmAction → Bool
  | done _ => true
  | _ => false

structure ActionPlan where
  action : LlmAction
  dependsOn : List Text
deriving Repr

/-- A string entry of a value. -/
def textAt (key : String) : Option Text := (value.get key).bind Json.asText

/-- An entry with an `action` name; nothing for an unknown name or a missing field. -/
def parseNamedAction (name : Text) : Option LlmAction :=
  let field := textAt value
  if name = "done" then some (.done ((field "reason").getD "done"))
  else if name = "apply_patch" then (field "patch").map .applyPatch
  else if name = "write" ∨ name = "write_file" then
    (field "path").bind fun path => (field "content").map (.write path)
  else if name = "run_command" ∨ name = "command" then
    (field "cmd").map fun cmd => .command cmd (field "cwd")
  else if name = "patch_file" ∨ name = "patch" then
    (field "path").bind fun path => (field "old").bind fun old =>
    (field "new").map (.patch path old)
  else if name = "read_file" then (field "path").map .readFile
  else if name = "list_dir" then some (.listDir ((field "path").getD "."))
  else if name = "edit.rename_symbol" then
    (field "path").bind fun path =>
      (field "old").bind fun old => (field "new").map (.renameSymbol path old)
  else if name = "edit.move_symbol" then
    (field "path").bind fun path =>
      (field "symbol_id").bind fun symbolId =>
        (field "new_module_path").map (.moveSymbol path symbolId)
  else if name = "edit.add_import" then
    (field "path").bind fun path => (field "import").map (.addImport path)
  else if name = "edit.define_symbol_stub" then
    (field "path").bind fun path =>
      (field "symbol").map fun symbol => .defineSymbolStub path symbol ((field "kind").getD "fn")
  else if name = "edit.create_module_file" then
    (field "path").map fun path => .createModuleFile path (field "module")
  else none

/-- An entry without an `action` name, by the keys it has. -/
def parseKeyedAction : Option LlmAction :=
  let isDone := match value.get "done" with
    | some (.bool true) => true
    | _ => false
  if isDone then some (.done ((textAt value "reason").getD "done"))
  else
    match textAt value "cmd", textAt value "patch" with
    | some cmd, _ => some (.command cmd (textAt value "cwd"))
    | none, some patch => some (.applyPatch patch)
    | none, none =>
      match textAt value "write", textAt value "content" with
      | some path, some content => some (.write path content)
      | _, _ =>
        (textAt value "path").bind fun path =>
          (textAt value "old").bind fun old => (textAt value "new").map (.patch path old)

def parseValueToAction : Option ActionPlan :=
  match textAt value "action" with
  | some name =>
    let dependsOn := (((value.get "depends_on").bind Json.asArray).getD []).filterMap Json.asText
    (parseNamedAction value name).map (⟨·, dependsOn⟩)
  | none => (parseKeyedAction value).map (⟨·, []⟩)

structure FenceScan where
  inFence : Bool
  current : Text
  blocks : List Text

def scanFenceLine (scan : FenceScan) (line : Text) : FenceScan :=
  let fence := Text.startsWith "\x60\x60\x60" (Text.trimStart line)
  if !scan.inFence then
    if fence then { scan with inFence := true, current := [] } else scan
  else if fence then
    { inFence := false, current := [], blocks := scan.blocks ++ [Text.trim scan.current] }
  else { scan with current := scan.current ++ line ++ ['\n'] }

def extractFencedBlocks (text : Text) : List Text :=
  ((Text.lines text).foldl scanFenceLine ⟨false, [], []⟩).blocks

/-- The entries of an `actions` array. -/
def wrappedActions : List ActionPlan :=
  (((value.get "actions").bind Json.asArray).getD []).filterMap parseValueToAction

def isObject : Bool := value.asObject.isSome

/-- One fenced block: its actions, and its signals when it is a wrapper. -/
def parseBlock (acc : List ActionPlan × Option Json) (block : Text) :
    List ActionPlan × Option Json :=
  match H.jsonFromStr block with
  | none => acc
  | some parsed =>
    if isObject parsed && (parsed.get "actions").isSome then
      (acc.1 ++ wrappedActions parsed, parsed.get "signals")
    else
      match parsed.asArray with
      | some items => (acc.1 ++ items.filterMap parseValueToAction, acc.2)
      | none => (acc.1 ++ (parseValueToAction parsed).toList, acc.2)

def parseLlmActions (result : Json) : List ActionPlan × Option Json :=
  if isObject result && (result.get "actions").isSome then
    (wrappedActions result, result.get "signals")
  else
    match result.asArray with
    | some items => (items.filterMap parseValueToAction, none)
    | none =>
      let single :=
        if isObject result && (result.get "action").isSome then parseValueToAction result else none
      match single with
      | some action => ([action], none)
      | none =>
        match textAt result "text" with
        | none => ([], none)
        | some text => (extractFencedBlocks text).foldl (parseBlock H) ([], none)

/-! ### Lines of code -/

def extractRequiredLoc (goalText : Text) : Nat :=
  (((Text.lines goalText).filter fun l => Text.contains "loc" (Text.toLowercase l)).findSome?
    fun l =>
      let digits := l.filter Char.isDigit
      let n := digits.foldl (fun n c => n * 10 + (c.toNat - 48)) 0
      if digits ≠ [] && n < 2 ^ 64 then some n else none).getD 0

/-- The lines of the Rust files below a node, without build and hidden directories. -/
def locOfEntries : List (Text × FileNode) → Nat
  | [] => 0
  | (name, .file text) :: rest =>
    (if FilePath.extension name = some "rs" then ((text.map fun t => (Text.lines t).length).getD 0)
      else 0) + locOfEntries rest
  | (name, .dir entries) :: rest =>
    (if name = "target" || name = ".git" || name = "node_modules" || name = ".cargo" then 0
      else locOfEntries entries) + locOfEntries rest

def countLocInWorkspace (fs : Fs) (dir : FilePath) : Nat := locOfEntries ((fs.readDir dir).getD [])

/-- The goal asks for no more lines than there are. -/
def locSatisfied (fs : Fs) (workspace : FilePath) (goalText : Text) : Bool :=
  extractRequiredLoc goalText = 0 ||
    countLocInWorkspace fs workspace ≥ extractRequiredLoc goalText

/-! ### Planned actions -/

def setKey (key : String) (v : Json) : Json → Json
  | .obj entries =>
    .obj (if (entries.lookup key).isSome then
      entries.map fun (k, w) => if k = key then (k, v) else (k, w)
    else entries ++ [(key, v)])
  | other => other

def actionPayloadWithCwd (cmd cwd : Text) : Json :=
  .obj [("cmd", jsonText cmd), ("cwd", jsonText cwd)]

def LlmAction.actionKind : LlmAction → ActionKind
  | patch .. => .patchFile
  | write .. => .writeFile
  | command .. => .runCommand
  | done _ => .done
  | applyPatch _ => .applyPatch
  | readFile _ => .readFile
  | listDir _ => .listDir
  | addImport .. => .addImport
  | defineSymbolStub .. => .defineSymbolStub
  | createModuleFile .. => .createModuleFile
  | moveSymbol .. => .moveSymbol
  | renameSymbol .. => .renameSymbol

def LlmAction.payload (cwdDefault : Text) : LlmAction → Json
  | patch path old new | renameSymbol path old new =>
    .obj [("path", jsonText path), ("old", jsonText old), ("new", jsonText new)]
  | write path content => .obj [("path", jsonText path), ("content", jsonText content)]
  | command cmd cwd => actionPayloadWithCwd cmd (cwd.getD cwdDefault)
  | done _ => .obj []
  | applyPatch body => .obj [("patch", jsonText body)]
  | readFile path | listDir path => .obj [("path", jsonText path)]
  | addImport path importPath => .obj [("path", jsonText path), ("import", jsonText importPath)]
  | defineSymbolStub path symbol kind =>
    .obj [("path", jsonText path), ("symbol", jsonText symbol), ("kind", jsonText kind)]
  | createModuleFile path module => .obj [("path", jsonText path), ("module", jsonOption module)]
  | moveSymbol path symbolId newModulePath =>
    .obj [("path", jsonText path), ("symbol_id", jsonText symbolId),
      ("new_module_path", jsonText newModulePath)]

def LlmAction.reason : LlmAction → Text
  | patch .. => "llm_patch"
  | write .. => "llm_write"
  | command .. => "llm_command"
  | done reason => reason
  | applyPatch _ => "llm_apply_patch"
  | readFile _ => "llm_read_file"
  | listDir _ => "llm_list_dir"
  | addImport .. => "llm_add_import"
  | defineSymbolStub .. => "llm_define_symbol_stub"
  | createModuleFile .. => "llm_create_module_file"
  | moveSymbol .. => "llm_move_symbol"
  | renameSymbol .. => "llm_rename_symbol"

/-- The planned action of the `i`-th entry; it draws two identifiers. -/
def plannedOf (signals : Option Json) (plan : ActionPlan) (i : Nat) : LoopPlanned :=
  let cwdDefault := (pending.goalText.bind fun text =>
    (parseAgentGoalMarkdown text).targetPath).getD ctx.workspace
  let stepId := H.uuid (ctx.drawn + 2 * i)
  { tick := pending.tick
    actionKind := plan.action.actionKind
    actionPayload := plan.action.payload cwdDefault
    reason := plan.action.reason
    llmRequestId := some pending.requestId
    traceId := some pending.traceId
    executionId := some pending.executionId
    spanId := some (H.uuid (ctx.drawn + 2 * i + 1))
    parentSpanId := some pending.spanId
    planId := some pending.planId
    planStepId := some stepId
    actionId := some stepId
    signals := signals
    dependsOn := plan.dependsOn }

/-- The payload entry, unless there is one. -/
def fillIn (key : String) (value : Option Text) (planned : LoopPlanned) : LoopPlanned :=
  match planned.actionPayload.get key, value with
  | none, some text =>
    { planned with actionPayload := setKey key (jsonText text) planned.actionPayload }
  | _, _ => planned

/-- What the stage adds to an action before it is checked. -/
def completeAction (summary : SemanticStateSummary) (planned : LoopPlanned) : LoopPlanned :=
  if planned.actionKind = .done then planned
  else
    let cited :=
      match summary.primaryFailureClass with
      | some failureClass =>
        fillIn "failure_scope" (some (summary.failureScope.getD "none"))
          (fillIn "failure_class" (some failureClass) planned)
      | none => planned
    fillIn "verifier" (metaInvariantExpectedVerifier cited) cited

def planningSemanticSummary : Option LoopObserved → Except Text SemanticStateSummary
  | none => .error "last_observed is missing"
  | some observed =>
    if !observed.semanticSummary.complete then .error "semantic summary is incomplete"
    else if observed.semanticSummary.targetRoot.isNone then
      .error "semantic summary is missing target_root"
    else .ok observed.semanticSummary

/-! ### Completion -/

def planToolResult (success : Bool) :
    RuntimeEvent :=
  .toolResult
    { nodeId := "plan_consumer"
      toolCallId := pending.planToolCallId
      toolResultId := H.uuid ctx.drawn
      requestId := pending.requestId
      kind := "llm.plan"
      output := .obj []
      success := success }

def completedOf (tick : Nat) (llmRequestId : Option Text) (plannedCount : Nat) (status : Text) :
    RuntimeEvent :=
  .planningCompleted
    { tick := tick, llmRequestId := llmRequestId, plannedCount := plannedCount, status := status }

/-- The goal that is marked as done by the batch. -/
def doneGoal (actions : List ActionPlan) :
    Option Text :=
  if actions.any (·.action.isDone) then
    match pending.goalText with
    | some goalText =>
      if locSatisfied W.fs ctx.workspace goalText then some goalText else ctx.lastDoneGoal
    | none => none
  else ctx.lastDoneGoal

/-- The events of a batch that was refused. -/
def rejectionEvents (plannedCount : Nat) (retryPolicy : RetryPolicy) (message : Text) :
    List RuntimeEvent :=
  [.invariantDiscovered { feature := "invalid_plan_batch", support := 1 }] ++
  (W.promotion.map .invariantDiscovered).toList ++
  W.persistedStoreEvents.map .debug ++
  [.debug
     { source := "plan_stage"
       kind := "invalid_plan_batch"
       payload := decisionTracePayload "plan rejected before execution"
         (.obj [("reason", jsonText message), ("planned_count", Json.nat plannedCount),
           ("retry_policy", jsonText retryPolicy.asStr)]) },
   .errorOccurred
     { kind := "invalid_plan_batch"
       source := "plan_stage"
       message := "invalid plan batch before execution: ".toList ++ message
       severity := "warning"
       context := .obj [("planned_count", Json.nat plannedCount), ("recoverable", .bool true),
         ("retry_policy", jsonText retryPolicy.asStr)] },
   completedOf pending.tick (some pending.requestId) 0 "invalid_plan"]

/-- The summary a batch is checked against. -/
def checkedSummary : SemanticStateSummary :=
  match planningSemanticSummary ctx.lastObserved with
  | .ok summary => summary
  | .error _ => SemanticStateSummary.empty

/-- The batch is completed, checked, compared with the last one and emitted. -/
def submitBatch (planned : List LoopPlanned) : LoopContext × LoopStageResult :=
  let retryPolicy := retryPolicyForPlanningContext ctx.lastInvalidPlanReason
    ctx.consecutiveInvalidPlanBatches ctx.recentExecutionResults ctx.objectiveTrendState
  let out := planned.map (completeAction (checkedSummary ctx))
  match validateActionBatch W.fs out retryPolicy (checkedSummary ctx) ctx.objectiveTrendState
      ctx.recentExecutionResults ctx.forcedPrimaryObjective ctx.forcedPrimaryStrategy with
  | .error message =>
    ({ ctx with lastPlannedObservedTick := none },
      .emitMany (rejectionEvents W pending out.length retryPolicy message))
  | .ok () =>
    let hash := H.hashBatch (out.map fun p => (p.actionKind.asStr, p.actionPayload))
    if ctx.lastEmittedPlanHash = some hash then
      ({ ctx with lastPlannedObservedTick := none }, .noop)
    else
      ({ ctx with lastEmittedPlanHash := some hash },
        .emitMany (out.map .loopPlanned ++
          [completedOf pending.tick (some pending.requestId) out.length "planned"]))

variable (contextBase contextDelta : Text) (c : CapabilityCompleted)

/-- The actions in an answer, with the signals sent along. -/
def answerActions : List ActionPlan × Option Json :=
  match c.result with
  | .llm _ _ response => parseLlmActions H response
  | _ => ([], none)

/-- The actions of a batch; `done` only counts alone. -/
def batchActions (actions : List ActionPlan) : List ActionPlan :=
  if actions.length > 1 && actions.any (·.action.isDone) then
    actions.filter (!·.action.isDone)
  else actions

/-- The answer to the pending request. -/
def settleAnswer (ctx : LoopContext) (pending : PendingPlan) :
    LoopContext × LoopStageResult :=
  if (pending.goalText.map Observe.isPlaceholderGoal).getD true then
    ({ ctx with lastPlannedObservedTick := none },
      .emitMany
        [.debug
           { source := "decision"
             kind := "decision_trace"
             payload :=
               decisionTracePayload "goal_placeholder" (.obj [("route", .str "observe")]) },
         completedOf pending.tick (some pending.requestId) 0 "goal_placeholder"])
  else
    let actions := batchActions (answerActions H c).1
    if actions.isEmpty then ({ ctx with lastPlannedObservedTick := none }, .noop)
    else
      let planned := actions.zipIdx.map fun (plan, i) =>
        plannedOf H ctx pending (answerActions H c).2 plan i
      submitBatch H W
        { ctx with
          drawn := ctx.drawn + 2 * actions.length
          lastDoneGoal := doneGoal W ctx pending actions } pending planned

def executeComplete (ctx : LoopContext) :
    StageReply :=
  match ctx.pendingPlan with
  | none =>
    .ok ctx (.emit (.debug
      { source := "plan_stage"
        kind := "pending_plan_missing_telemetry"
        payload := .obj [("semantic_violation", .bool true)] }))
  | some pending =>
    if pending.requestId ≠ c.requestId then .ok ctx .noop
    else
      let settled := settleAnswer H W c
        { ctx with pendingPlan := none, drawn := ctx.drawn + 1 } pending
      ⟨settled.1, .ok settled.2, [planToolResult H ctx pending true]⟩

def executeFailed (f : CapabilityFailed) (ctx : LoopContext) : StageReply :=
  match ctx.pendingPlan with
  | none => .ok ctx .noop
  | some pending =>
    if pending.requestId ≠ f.requestId then .ok ctx .noop
    else
      ⟨{ ctx with pendingPlan := none, drawn := ctx.drawn + 1 },
        .ok (.emit (completedOf pending.tick (some pending.requestId) 0 "llm_failed")),
        [planToolResult H ctx pending false]⟩

/-! ### Dispatch -/

def llmTimeoutTicks : Nat := 60

def checkLlmTimeout (currentTick : Nat) : Option PendingPlan :=
  ctx.pendingPlan.filter fun pending => currentTick - pending.dispatchedAtTick ≥ llmTimeoutTicks

def requirementsSatisfied : Bool :=
  (observed.goalText.map (locSatisfied W.fs ctx.workspace)).getD false

/-- The rationale and the confidence that go into the prompt. -/
def promptRationale :
    Option Text × Option Float32 :=
  if selected.rationale ≠ [] && selected.rationale ≠ "heuristic proposal from runtime state" then
    (some selected.rationale, selected.confidence)
  else (ctx.lastRouteRationaleNonEmpty, ctx.lastRouteConfidenceNonEmpty)

/-- The goal was declared done and the workspace still satisfies it. -/
def goalComplete : Bool :=
  observed.errorCount = 0 && ctx.lastDoneGoal.isSome && ctx.lastDoneGoal = observed.goalText &&
    requirementsSatisfied W ctx observed

/-- Without a goal and without errors there is nothing to plan for. -/
def waitsForGoal : Bool :=
  (observed.goalText.map Observe.isPlaceholderGoal).getD true && observed.errorCount = 0

/-- No part of the prompt is new. -/
def promptUnchanged : Bool :=
  ctx.lastSystemPromptId = some H.systemPromptId &&
    ctx.lastContextBaseId = some (H.hashStr contextBase) &&
    ctx.lastDeltaHash = some (H.hashStr contextDelta)

/-- The request for an observation. -/
def pendingOf : PendingPlan where
  tick := observed.tick
  requestId := H.uuid ctx.drawn
  dispatchedAtTick := observed.tick
  goalText := observed.goalText
  traceId := H.uuid (ctx.drawn + 1)
  executionId := H.uuid (ctx.drawn + 2)
  spanId := H.uuid (ctx.drawn + 3)
  planId := H.uuid (ctx.drawn + 4)
  planToolCallId := H.uuid (ctx.drawn + 5)

def requestEvents : List RuntimeEvent :=
  let pending := pendingOf H ctx observed
  let sendSystem : Bool := ctx.lastSystemPromptId ≠ some H.systemPromptId
  let sendBase : Bool := ctx.lastContextBaseId ≠ some (H.hashStr contextBase)
  [.toolCall
     { nodeId := "plan_consumer"
       toolCallId := pending.planToolCallId
       requestId := pending.requestId
       kind := "llm.plan"
       payload := .obj [("role", .str "planner")]
       accepted := true },
   .llm
     { requestId := pending.requestId
       prompt := contextDelta
       role := some "planner"
       agentId := ctx.agentId
       dispatched := true
       system := if sendSystem then some H.systemInstructions else none
       systemPromptId := some H.systemPromptId.toNat
       contextBase := if sendBase then some contextBase else none
       contextBaseId := some (H.hashStr contextBase).toNat
       promptBaseId := some H.systemPromptId.toNat
       prevPromptId := ctx.lastSystemPromptId.map UInt64.toNat }]

/-- The context after the request is sent. -/
def requested : LoopContext :=
  { ctx with
    drawn := ctx.drawn + 6
    pendingPlan := some (pendingOf H ctx observed)
    lastSystemPromptId := some H.systemPromptId
    lastContextBaseId := some (H.hashStr contextBase)
    lastDeltaHash := some (H.hashStr contextDelta)
    batchActed := []
    batchToolResults := []
    lastPromptedGoal := observed.goalText
    lastPlannedObservedTick := some observed.tick }

/-- The prompt is rendered and, when some part of it is new, sent. -/
def sendPrompt (summary : SemanticStateSummary) (selected : RouteSelected) : StageReply :=
  let (rationale, confidence) := promptRationale ctx selected
  match W.renderPrompt ctx observed summary rationale confidence with
  | none => .panic ctx
  | some (contextBase, contextDelta) =>
    if promptUnchanged H ctx contextBase contextDelta then .ok ctx .noop
    else
      ⟨requested H ctx observed contextBase contextDelta, .ok .deferred,
        requestEvents H ctx observed contextBase contextDelta⟩

def handleObserved : StageReply :=
  if ctx.lastPlannedObservedTick = some observed.tick then .ok ctx .noop
  else
    match planningSemanticSummary (some observed) with
    | .error message =>
      .ok ctx (.emit (.debug
        { source := "plan_stage"
          kind := "plan_suppressed"
          payload := decisionTracePayload
            "planning rejected because semantic observation is unavailable"
            (.obj [("reason", jsonText message), ("recoverable", .bool true),
              ("tick", Json.nat observed.tick)]) }))
    | .ok summary =>
      let hash := H.hashObserved observed.errorCount observed.goalText summary
      if ctx.lastHandledObservedHash = some hash then .ok ctx .noop
      else if waitsForGoal observed then .ok ctx .noop
      else if goalComplete W ctx observed then
        .ok ctx (.emit (completedOf observed.tick none 0 "goal_complete"))
      else
        -- A goal that was declared done and no longer is starts over.
        let stale : Bool := observed.errorCount = 0 && ctx.lastDoneGoal.isSome &&
          ctx.lastDoneGoal = observed.goalText
        sendPrompt H W
          { ctx with
            lastDoneGoal := if stale then none else ctx.lastDoneGoal
            lastHandledObservedHash := some hash } observed summary selected

/-- The command that creates the project, with its directory and its reason. -/
def bootstrapCommand (targetRoot : FilePath) :
    BootstrapCommandChoice → Option (Text × FilePath × Text)
  | .cargoNew =>
    let name := ((FilePath.fileName targetRoot).filter (· ≠ [])).getD "app"
    some ("cargo new --bin ".toList ++ name, (FilePath.parent targetRoot).getD "/",
      "deterministic_bootstrap_workspace")
  | .cargoInit => some ("cargo init --bin .", targetRoot, "deterministic_init_cargo_project")
  | .noBootstrapNeeded => none

def deterministicBootstrapPlan (ctx : LoopContext) (observed : LoopObserved) : Option StageReply :=
  let summary := observed.semanticSummary
  let preconditions := derivePreconditionsFromLines summary.planningPreconditions
  let needsBootstrap := preconditions.contains .mustBootstrapWorkspace
  let needsInit := preconditions.contains .mustInitCargoProject
  if !needsBootstrap && !needsInit then none
  else
    let goalTarget (text : Option Text) : Option FilePath :=
      text.bind fun t => (parseAgentGoalMarkdown t).targetPath
    ((summary.targetRoot.or (goalTarget observed.goalText)).or (goalTarget ctx.goalText)).bind
      fun targetRoot =>
        let choice :=
          if needsBootstrap then selectBootstrapCommand W.fs targetRoot else .cargoInit
        (bootstrapCommand targetRoot choice).map fun (cmd, cwd, reason) =>
          let stepId := H.uuid (ctx.drawn + 1)
          .ok
            { ctx with
              drawn := ctx.drawn + 2
              lastPlannedObservedTick := some observed.tick }
            (.emitMany [.loopPlanned
              { tick := selected.tick
                actionKind := .runCommand
                actionPayload := setKey "failure_scope"
                  (jsonText (summary.failureScope.getD "workspace"))
                  (setKey "failure_class"
                    (jsonText (summary.primaryFailureClass.getD "missing_target"))
                    (setKey "verifier" (.str "cargo_check") (actionPayloadWithCwd cmd cwd)))
                reason := reason
                llmRequestId := none
                traceId := none
                executionId := none
                spanId := some (H.uuid ctx.drawn)
                parentSpanId := none
                planId := none
                planStepId := some stepId
                actionId := some stepId
                signals := none
                dependsOn := [] }])

def executeTrigger (ctx : LoopContext) :
    StageReply :=
  match checkLlmTimeout ctx selected.tick with
  | some pending =>
    .ok { ctx with pendingPlan := none } (.emit (completedOf pending.tick none 0 "llm_timeout"))
  | none =>
    match ctx.lastObserved with
    | none => .ok ctx .noop
    | some observed =>
      match deterministicBootstrapPlan H W selected ctx observed with
      | some reply => reply
      | none => handleObserved H W ctx observed selected

end Plan

end Canon.Loop
