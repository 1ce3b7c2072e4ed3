import Canon.Loop.Stages

/-! # The act stage

    One scheduled action at a time is dispatched.  Commands and plain file edits
    are sent out and answered later; the other actions are done at once.
-/

namespace Canon.Loop.Act

variable (H : Host) (W : World) (ctx : LoopContext) (planned : LoopPlanned)

/-! ### Events of an action -/

def toolNodeId : Text :=
  (planned.actionId.or planned.planStepId).getD
    ("tick:".toList ++ Text.ofNat planned.tick ++ [':'] ++ planned.actionKind.asStr)

/-- The request of an action. -/
def pendingOf (toolKind requestId toolCallId nodeId : Text) :
    PendingAct where
  tick := planned.tick
  actionKind := planned.actionKind
  toolKind := toolKind
  requestId := requestId
  toolCallId := toolCallId
  nodeId := nodeId
  traceId := planned.traceId
  executionId := planned.executionId
  parentSpanId := planned.spanId
  planId := planned.planId
  planStepId := planned.planStepId
  actionId := planned.actionId
  llmRequestId := planned.llmRequestId

def debugOf (kind : Text) (payload : Json) : RuntimeEvent :=
  .debug { source := "act_stage", kind := kind, payload := payload }

/-- The report of an action; without a tool result it is only traced. -/
def emitActed (pending : PendingAct) (stdout stderr : Text) (exitCode : Option Int)
    (durationMs : Nat) (success : Bool) (toolResultId : Option Text) (spanId : Text) :
    RuntimeEvent :=
  match toolResultId with
  | none =>
    debugOf "loop_acted_blocked_no_tool_result" (.obj [("reason", .str "no_tool_result_id")])
  | some resultId =>
    .loopActed
      { tick := pending.tick
        actionKind := pending.actionKind
        capabilityRequestId := pending.requestId
        toolCallId := some pending.toolCallId
        toolResultId := some resultId
        stdout := stdout
        stderr := stderr
        exitCode := exitCode
        durationMs := durationMs
        success := success
        traceId := pending.traceId
        executionId := pending.executionId
        spanId := some spanId
        parentSpanId := pending.parentSpanId
        planId := pending.planId
        planStepId := pending.planStepId
        actionId := pending.actionId }

def emitMissingArgs (reason : Text) : RuntimeEvent :=
  debugOf "loop_acted_blocked_missing_args" (.obj [("reason", jsonText reason)])

/-- A conflict trips a debug assertion. -/
def emitConflict (agent action path : Text) : StageReply :=
  if H.debugAssertions then .panic ctx
  else
    .ok ctx (.emit (debugOf "conflict_suppressed"
      (.obj [("agent", jsonText agent), ("action", jsonText action), ("path", jsonText path),
        ("reason", .str "non-actionable conflict")])))

/-- What writing the artifact of a call announces. -/
def artifactWritten : RuntimeEvent := .runtimeStateUpdated (.obj [("workspace_dirty", .bool false)])

/-! ### Actions that are sent out -/

/-- The call goes out and the action is pending. -/
def sendOut (toolKind : Text) (payload : Json) (before : List RuntimeEvent)
    (call : Text → RuntimeEvent) : StageReply :=
  let requestId := H.uuid ctx.drawn
  let toolCallId := H.uuid (ctx.drawn + 1)
  let nodeId := toolNodeId planned
  .ok
    { ctx with
      drawn := ctx.drawn + 2
      pendingAct := some (pendingOf planned toolKind requestId toolCallId nodeId) }
    (.emitMany (before ++
      [artifactWritten, artifactWritten,
       .toolCall
         { nodeId := nodeId
           toolCallId := toolCallId
           requestId := requestId
           kind := toolKind
           payload := payload
           accepted := true },
       call requestId]))

def isPotentiallyDestructive (cmd : Text) (workspace : FilePath) : Bool :=
  let trimmed := Text.trim cmd
  if Text.contains "rm -rf" trimmed || Text.contains "rm -fr" trimmed ||
      Text.contains "rm -r " trimmed || Text.contains "rm -f " trimmed then
    let target :=
      ((Text.splitWhitespace trimmed).reverse.find? (!Text.startsWith "-" ·)).getD []
    let resolved := if FilePath.isAbsolute target then target else FilePath.join workspace target
    !FilePath.startsWith workspace resolved
  else
    Text.contains "git reset --hard" trimmed || Text.contains "git clean -f" trimmed ||
      Text.startsWith "dd " trimmed || Text.startsWith "mkfs" trimmed ||
      Text.startsWith "shred " trimmed

def renderExecAction : ExecAction → Json
  | .runCommand cmd cwd =>
    .obj [("action_kind", .str "run_command"), ("cmd", jsonText cmd), ("cwd", jsonText cwd)]
  | .other kind => .obj [("action_kind", jsonText kind.asStr)]

/-- The command is run in the directory, unless it is destructive and these are
    blocked. -/
def runCommand (cmd : Text) (cwd : FilePath) (before : List RuntimeEvent) : StageReply :=
  let payload : Json := .obj [("cmd", jsonText cmd), ("cwd", jsonText cwd)]
  let sent := sendOut H ctx planned "bash" payload before fun requestId =>
    .bash { requestId := requestId, cmd := cmd, cwd := some cwd, queued := true }
  if !isPotentiallyDestructive cmd ctx.workspace then sent
  else
    match ctx.destructiveCmdPolicy with
    | .block => .panic ctx
    | .warn =>
      { sent with
        emitted := [.debug
          { source := "act_consumer"
            kind := "destructive_command_warning"
            payload :=
              .obj [("cmd", jsonText cmd), ("policy", jsonText DestructiveCmdPolicy.warn.asStr),
              ("action_id", jsonOption planned.actionId)] }] }
    | .allow => sent

def dispatchCommand :
    StageReply :=
  let cwd := (planned.field "cwd").getD "."
  match planned.field "cmd" with
  | none =>
    .ok ctx (.emit (.errorOccurred
      { kind := "missing_args"
        source := "act_stage"
        message := "missing_cmd"
        severity := "warning"
        context := .obj [("action_kind", jsonText planned.actionKind.asStr)] }))
  | some cmd =>
    let summary := (ctx.lastObserved.map (·.semanticSummary)).getD .empty
    let state := ExecState.fromSemanticSummary W.fs (summary.targetRoot.getD cwd) summary
    match validateExecAction state (.runCommand cmd cwd) with
    | .allow => runCommand H ctx planned cmd cwd []
    | .forbid _ => .panic ctx
    | .rewrite rewritten reason =>
      let rewriteDebug := debugOf "exec_constraint_rewrite"
        (decisionTracePayload reason
          (.obj [("original_action_kind", jsonText planned.actionKind.asStr),
            ("original_payload", planned.actionPayload),
            ("rewritten_action", renderExecAction rewritten), ("target_root", jsonText cwd)]))
      match rewritten with
      | .runCommand cmd' cwd' => runCommand H ctx planned cmd' cwd' [rewriteDebug]
      | .other _ => .panic ctx

/-- A relative path is resolved against the goal's directory, else the workspace. -/
def resolveActionPath (path : FilePath) (ctx : LoopContext) : FilePath :=
  if FilePath.isAbsolute path then path else FilePath.join (targetPathOf ctx) path

def orchestrator : Text := "orchestrator"

def actionKey : Text := planned.actionId.getD (toolNodeId planned)

def dispatchWrite : StageReply :=
  match planned.field "path", planned.field "content" with
  | some path, some content =>
    let resolved := resolveActionPath path ctx
    match FileWriteTracker.claim ctx.fileWriteTracker resolved orchestrator (actionKey planned) with
    | .error (agent, action) => emitConflict H ctx agent action resolved
    | .ok tracker =>
      sendOut H
        { ctx with
          fileWriteTracker := tracker
          writePathsByAction := ctx.writePathsByAction.insert (actionKey planned) [resolved] }
        planned "file.write" (.obj [("path", jsonText path), ("content", jsonText content)]) []
        fun requestId => .file (.write requestId path content)
  | _, _ => .ok ctx (.emit (emitMissingArgs "missing_path_or_content"))

def dispatchPatchFile : StageReply :=
  match planned.field "path", planned.field "old", planned.field "new" with
  | some path, some old, some new =>
    sendOut H ctx planned "file.patch"
      (.obj [("path", jsonText path), ("old", jsonText old), ("new", jsonText new)]) []
      fun requestId => .file (.patch requestId path old new)
  | _, _, _ => .ok ctx (.emit (emitMissingArgs "missing_patch_args"))

/-! ### Actions that are done at once -/

/-- The result and the report of an action done at once. -/
def doneAtOnce (kind : Text) (output : List (String × Json)) (stdout stderr : Text) (success : Bool)
    (after : List RuntimeEvent) : StageReply :=
  let nodeId := toolNodeId planned
  let resultId := H.uuid ctx.drawn
  .ok { ctx with drawn := ctx.drawn + 4 }
    (.emitMany
      ([.toolResult
          { nodeId := nodeId
            toolCallId := H.uuid (ctx.drawn + 1)
            toolResultId := resultId
            requestId := H.uuid (ctx.drawn + 2)
            kind := kind
            output := .obj output
            success := success },
        emitActed (pendingOf planned kind [] [] nodeId) stdout stderr none W.elapsedMs success
          (some resultId) (H.uuid (ctx.drawn + 3))] ++ after))

/-- The entries every output has. -/
def outputOf (stdout stderr : Text) (success : Bool) : List (String × Json) :=
  [("stdout", jsonText stdout), ("stderr", jsonText stderr), ("duration_ms", Json.nat W.elapsedMs),
    ("success", .bool success)]

def extractPathsFromPatch (patch : Text) : List FilePath :=
  (Text.lines patch).filterMap fun line =>
    let trimmed := Text.trim line
    ((Text.stripPrefix? "*** Add File:" trimmed).or
      (Text.stripPrefix? "*** Update File:" trimmed)).map Text.trim

/-- The paths are claimed one after the other, up to the first conflict. -/
def claimAll (key : Text) : FileWriteTracker → List FilePath →
    FileWriteTracker × Option (Text × Text × FilePath)
  | tracker, [] => (tracker, none)
  | tracker, path :: paths =>
    match FileWriteTracker.claim tracker path orchestrator key with
    | .error (agent, action) => (tracker, some (agent, action, path))
    | .ok tracker => claimAll key tracker paths

def dispatchApplyPatch :
    StageReply :=
  match planned.field "patch" with
  | none => .ok ctx (.emit (emitMissingArgs "missing_patch_body"))
  | some patch =>
    let cwd := targetPathOf ctx
    let touched := (extractPathsFromPatch patch).map fun path =>
      if FilePath.isAbsolute path then path else FilePath.join cwd path
    match claimAll (actionKey planned) ctx.fileWriteTracker touched with
    | (tracker, some (agent, action, path)) =>
      emitConflict H { ctx with fileWriteTracker := tracker } agent action path
    | (tracker, none) =>
      let ctx := { ctx with
        fileWriteTracker := tracker
        writePathsByAction :=
          if touched = [] then ctx.writePathsByAction
          else ctx.writePathsByAction.insert (actionKey planned) touched }
      let (stdout, success) : Text × Bool :=
        match W.applyPatch patch cwd with
        | .ok (added, modified, deleted) =>
          ("apply_patch ok: added ".toList ++ Text.ofNat added ++ " modified ".toList ++
            Text.ofNat modified ++ " deleted ".toList ++ Text.ofNat deleted, true)
        | .error err => ("apply_patch failed: ".toList ++ err, false)
      doneAtOnce H W ctx planned "apply_patch"
        (outputOf W stdout [] success ++ [("touched_paths", .arr (touched.map jsonText))])
        stdout [] success []

/-- What the proof of an edit adds. -/
def proofEvents (project : FilePath) (proof : GraphProofOutcome) :
    List RuntimeEvent :=
  let artifactId := jsonOption proof.artifactId
  debugOf (if proof.verified then "semantic_graph_proof_verified"
    else "semantic_graph_proof_failed")
    (decisionTracePayload proof.summary
      (.obj [("action_kind", jsonText planned.actionKind.asStr), ("project", jsonText project),
        ("artifact_id", artifactId), ("failures", .arr (proof.failures.map jsonText))])) ::
  if proof.verified then []
  else
    [.errorOccurred
      { kind := "semantic_graph_proof_failed"
        source := "act_stage"
        message := Text.join "\n" proof.failures
        severity := "error"
        context := .obj [("action_kind", jsonText planned.actionKind.asStr),
          ("artifact_id", artifactId)] }]

/-- An edit through the editor.  `line` is what a success reports, `named` says that
    the definitions follow it, `proved` that the graph is consulted after. -/
def editAtOnce (line : Text) (named proved : Bool) (fields : List (String × Json)) : StageReply :=
  let project := (planned.field "project").getD ctx.workspace
  let report := W.editReport project planned
  let proof := if proved && report.error.isNone then some (W.graphProof project planned) else none
  let success := report.error.isNone && (proof.map (·.verified)).getD true
  let stdout : Text :=
    if success then
      line ++ (if named && report.defPaths ≠ [] then '\n' :: Text.join "\n" report.defPaths
        else []) ++
        (proof.map fun p => '\n' :: p.summary).getD []
    else []
  let stderr := report.error.getD
    (((proof.filter (!·.verified)).map fun p => Text.join "\n" p.failures).getD [])
  doneAtOnce H W ctx planned planned.actionKind.asStr (outputOf W stdout stderr success ++ fields)
    stdout stderr success ((proof.map (proofEvents planned project)).getD [])

def dispatchEdit : StageReply :=
  let arrow : Text := " -> "
  match planned.actionKind with
  | .renameSymbol =>
    match planned.field "old", planned.field "new" with
    | some old, some new =>
      editAtOnce H W ctx planned ("rename_symbol ok: ".toList ++ old ++ arrow ++ new) true true
        [("old", jsonText old), ("new", jsonText new)]
    | _, _ => .ok ctx (.emit (emitMissingArgs "missing_rename_args"))
  | .moveSymbol =>
    match planned.field "symbol_id", planned.field "new_module_path" with
    | some symbolId, some path =>
      editAtOnce H W ctx planned ("move_symbol ok: ".toList ++ symbolId ++ arrow ++ path) true true
        [("symbol_id", jsonText symbolId), ("new_module_path", jsonText path)]
    | _, _ => .ok ctx (.emit (emitMissingArgs "missing_move_symbol_args"))
  | .addImport =>
    match planned.field "import", planned.field "path" with
    | some importPath, some path =>
      editAtOnce H W ctx planned ("add_import ok: ".toList ++ importPath ++ arrow ++ path) false
        true
        [("import", jsonText importPath), ("path", jsonText path)]
    | _, _ => .ok ctx (.emit (emitMissingArgs "missing_add_import_args"))
  | .defineSymbolStub =>
    let kind := (planned.field "kind").getD "fn"
    match planned.field "symbol", planned.field "path" with
    | some symbol, some path =>
      editAtOnce H W ctx planned
        ("define_symbol_stub ok: ".toList ++ symbol ++ " (".toList ++ kind ++ ")".toList ++ arrow ++
          path) false false
        [("symbol", jsonText symbol), ("kind", jsonText kind), ("path", jsonText path)]
    | _, _ => .ok ctx (.emit (emitMissingArgs "missing_define_symbol_stub_args"))
  | _ =>
    match planned.field "path" with
    | some path =>
      editAtOnce H W ctx planned ("create_module_file ok: ".toList ++ path) false true
        [("path", jsonText path), ("module", jsonOption (planned.field "module"))]
    | none => .ok ctx (.emit (emitMissingArgs "missing_create_module_file_args"))

def banner (path : FilePath) : Text := "=== ".toList ++ path ++ " ===".toList

/-- The text of a file as it is reported; nothing when the cut is inside a character. -/
def cutContent (content : Text) : Option Text :=
  if Text.byteLen content > 8000 then
    (Text.takeBytes? 8000 content).map fun front =>
      front ++ "\n... <truncated, ".toList ++ Text.ofNat (Text.byteLen content) ++
        " bytes total>".toList
  else some content

def dispatchRead : StageReply :=
  match planned.field "path" with
  | none => .ok ctx (.emit (emitMissingArgs "missing_path"))
  | some pathText =>
    let path := resolveActionPath pathText ctx
    let report (stdout stderr : Text) (success : Bool) : StageReply :=
      doneAtOnce H W ctx planned "read_file"
        (("path", jsonText path) :: outputOf W stdout stderr success) stdout stderr success []
    match W.fs.readToString path with
    | none => report [] ("read_file failed: ".toList ++ path) false
    | some content =>
      match cutContent content with
      | none => .panic ctx
      | some text => report (banner path ++ '\n' :: text) [] true

def dispatchList : StageReply :=
  let path := resolveActionPath ((planned.field "path").getD ".") ctx
  let (stdout, stderr, success) : Text × Text × Bool :=
    match W.fs.readDir path with
    | some entries =>
      let names := entries.map fun (name, node) => if node.isDir then name ++ ['/'] else name
      (Text.join "\n" (banner path :: names.insertionSort fun a b => ¬ b < a), [], true)
    | none => ([], "list_dir failed: ".toList ++ path, false)
  doneAtOnce H W ctx planned "list_dir"
    (("path", jsonText path) :: outputOf W stdout stderr success) stdout stderr success []

/-! ### Dispatch -/

def dispatchPlan : StageReply :=
  match planned.actionKind with
  | .noOp | .done =>
    .ok ctx (.emit (emitActed (pendingOf planned [] [] [] []) [] [] none 0 true none []))
  | .runCommand => dispatchCommand H W ctx planned
  | .writeFile => dispatchWrite H ctx planned
  | .patchFile => dispatchPatchFile H ctx planned
  | .applyPatch => dispatchApplyPatch H W ctx planned
  | .renameSymbol | .moveSymbol | .addImport | .defineSymbolStub | .createModuleFile =>
    dispatchEdit H W ctx planned
  | .readFile => dispatchRead H W ctx planned
  | .listDir => dispatchList H W ctx planned
  | .searchFiles | .other _ => .ok ctx (.emit (emitMissingArgs "unknown_action_kind"))

/-- What is traced when an action is dispatched while another one is pending. -/
def actStall : List RuntimeEvent :=
  if ctx.pendingAct.isSome then
    [debugOf "act_suppressed" (decisionTracePayload "act dispatch returned noop"
      (.obj [("reason", .str "pending_act already present; telemetry only"),
        ("pending_act_present", .bool true),
        ("active_batch_llm_request_id", jsonOption ctx.activeBatchLlmRequestId),
        ("last_action_kind", jsonText ctx.lastActionKind.asStr)]))]
  else []

def nextTask : Option (ScheduledTask × Scheduler) :=
  match ctx.activeBatchLlmRequestId with
  | some batchId => ctx.scheduler.popForLlm batchId
  | none => ctx.scheduler.popAny

def executeDispatch : StageReply :=
  match nextTask ctx with
  | none =>
    ⟨{ ctx with activeBatchLlmRequestId := none },
      .ok (.emit (debugOf "act_bootstrap" (.obj [("reason", .str "no_task_available")]))),
      actStall ctx⟩
  | some (task, scheduler) =>
    let reply := dispatchPlan H W
      { ctx with scheduler := scheduler, activeBatchLlmRequestId := task.plan.llmRequestId }
      task.plan
    match reply.outcome with
    | .ok result =>
      -- The observation made here is thrown away, but it counts for the tick.
      let observed := Observe.executeInner H W reply.ctx
      let emitted := actStall ctx ++ reply.emitted
      match observed.outcome with
      | .panic => ⟨observed.ctx, .panic, emitted⟩
      | .err message => ⟨observed.ctx, .err message, emitted⟩
      | .ok _ => ⟨observed.ctx, .ok result, emitted⟩
    | outcome => ⟨reply.ctx, outcome, actStall ctx ++ reply.emitted⟩

/-! ### Completion -/

def jsonInt (n : Int) : Json := if n < 0 then .num (.negInt n) else .num (.posInt n.toNat)

def capabilityResultJson : CapabilityResult → Json
  | .process status success stdout stderr =>
    .obj [("Process", .obj [("status", jsonInt status), ("success", .bool success),
      ("stdout", jsonText stdout), ("stderr", jsonText stderr)])]
  | .llm success durationMs response =>
    .obj [("Llm", .obj [("success", .bool success), ("duration_ms", Json.nat durationMs),
      ("response", response)])]
  | .empty => .str "Empty"

structure ResultFields where
  stdout : Text
  stderr : Text
  exitCode : Option Int
  durationMs : Nat
  success : Bool

def extractResultFields : CapabilityResult → ResultFields
  | .process status success stdout stderr => ⟨stdout, stderr, some status, W.elapsedMs, success⟩
  | .llm success durationMs response => ⟨H.jsonToString response, [], none, durationMs, success⟩
  | .empty => ⟨[], [], none, W.elapsedMs, true⟩

def toolResultOf (pending : PendingAct) (toolResultId : Text) (output : CapabilityResult)
    (success : Bool) : RuntimeEvent :=
  .toolResult
    { nodeId := pending.nodeId
      toolCallId := pending.toolCallId
      toolResultId := toolResultId
      requestId := pending.requestId
      kind := pending.toolKind
      output := capabilityResultJson output
      success := success }

def violation (kind : Text) :
    RuntimeEvent := debugOf kind (.obj [("semantic_violation", .bool true)])

def executeComplete (c : CapabilityCompleted) (ctx : LoopContext) :
    StageReply :=
  let entry := debugOf "act_preconditions"
    (.obj [("scheduler_empty", .bool ctx.scheduler.isEmpty),
      ("pending_act", .bool ctx.pendingAct.isSome)])
  match ctx.pendingAct with
  | none =>
    ⟨ctx, .ok (.emit (violation "execute_complete_no_pending_act")),
      [entry, debugOf "execute_complete_skipped_invalid_state"
        (.obj [("reason", .str "no_pending_act")])]⟩
  | some pending =>
    if pending.requestId ≠ c.requestId then
      ⟨ctx, .ok (.emit (violation "pending_act_mismatch_telemetry")), [entry]⟩
    else
      let fields := extractResultFields H W c.result
      let resultId := H.uuid ctx.drawn
      let acted := emitActed pending fields.stdout fields.stderr fields.exitCode fields.durationMs
        fields.success (some resultId) (H.uuid (ctx.drawn + 1))
      let hasOutput := !fields.stdout.isEmpty || !fields.stderr.isEmpty
      ⟨{ ctx with pendingAct := none, drawn := ctx.drawn + 2 },
        .ok (.emit (if fields.success || hasOutput then acted
          else toolResultOf pending resultId c.result fields.success)),
        [entry]⟩

/-- The other tasks of the batch are dropped. -/
def abortActiveBatch : LoopContext × List RuntimeEvent :=
  match ctx.activeBatchLlmRequestId with
  | none => (ctx, [])
  | some id =>
    let dropped := ctx.scheduler.heap.filter (·.plan.llmRequestId = some id)
    ({ ctx with
        scheduler := { ctx.scheduler with
          heap := ctx.scheduler.heap.filter (·.plan.llmRequestId ≠ some id) }
        activeBatchLlmRequestId := none },
      dropped.map fun _ => emitMissingArgs "skipped:batch_aborted")

def executeFailed (f : CapabilityFailed) (ctx : LoopContext) : StageReply :=
  match ctx.pendingAct with
  | none => .ok ctx (.emit (violation "pending_act_missing_telemetry"))
  | some pending =>
    if pending.requestId ≠ f.requestId then
      .ok ctx (.emit (violation "pending_act_failed_mismatch_telemetry"))
    else
      let resultId := H.uuid ctx.drawn
      let result := toolResultOf pending resultId (.process (-1) false [] f.error) false
      let after := { ctx with pendingAct := none, drawn := ctx.drawn + 2 }
      if f.error = [] && H.debugAssertions then .panic after
      else
        let acted := if f.error = [] then []
          else [emitActed pending [] f.error none W.elapsedMs false (some resultId)
            (H.uuid (ctx.drawn + 1))]
        let (after, aborted) :=
          if pending.actionKind = .runCommand then abortActiveBatch after
          else ({ after with activeBatchLlmRequestId := none }, [])
        .ok after (.emitMany (result :: acted ++ aborted))

end Canon.Loop.Act
