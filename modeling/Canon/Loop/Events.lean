import Canon.Loop.Summary
import Canon.Tlog.Event

/-! # Runtime events of the loop

    The events the loop stages read and emit.  An event whose payload no stage
    reads is `plain`.
-/

namespace Canon.Loop

open Canon.Tlog (EventKind)

/-! ### Actions -/

/-- What a planned action does. -/
inductive ActionKind where
  | noOp
  | done
  | runCommand
  | writeFile
  | patchFile
  | applyPatch
  | renameSymbol
  | moveSymbol
  | addImport
  | defineSymbolStub
  | createModuleFile
  | readFile
  | listDir
  | searchFiles
  /-- Any other name. -/
  | other (name : Text)
deriving DecidableEq, Repr, Inhabited

namespace ActionKind

def asStr : ActionKind → Text
  | noOp => "no_op"
  | done => "done"
  | runCommand => "run_command"
  | writeFile => "write_file"
  | patchFile => "patch_file"
  | applyPatch => "apply_patch"
  | renameSymbol => "edit.rename_symbol"
  | moveSymbol => "edit.move_symbol"
  | addImport => "edit.add_import"
  | defineSymbolStub => "edit.define_symbol_stub"
  | createModuleFile => "edit.create_module_file"
  | readFile => "read_file"
  | listDir => "list_dir"
  | searchFiles => "search_files"
  | other name => name

end ActionKind

/-- One action of a plan. -/
structure LoopPlanned where
  tick : Nat
  actionKind : ActionKind
  actionPayload : Json
  reason : Text
  llmRequestId : Option Text
  traceId : Option Text
  executionId : Option Text
  spanId : Option Text
  parentSpanId : Option Text
  planId : Option Text
  planStepId : Option Text
  actionId : Option Text
  signals : Option Json
  dependsOn : List Text
deriving Repr, Inhabited

/-- A string entry of the payload. -/
def LoopPlanned.field (planned : LoopPlanned) (key : String) : Option Text :=
  (planned.actionPayload.get key).bind Json.asText

/-- The result of an action. -/
structure LoopActed where
  tick : Nat
  actionKind : ActionKind
  capabilityRequestId : Text
  toolCallId : Option Text
  toolResultId : Option Text
  stdout : Text
  stderr : Text
  exitCode : Option Int
  durationMs : Nat
  success : Bool
  traceId : Option Text
  executionId : Option Text
  spanId : Option Text
  parentSpanId : Option Text
  planId : Option Text
  planStepId : Option Text
  actionId : Option Text
deriving Repr, Inhabited

/-! ### Events -/

/-- What was seen of the target. -/
structure LoopObserved where
  tick : Nat
  errorCount : Nat
  warningCount : Nat
  compilerErrors : List Json
  goalText : Option Text
  semanticSummary : SemanticStateSummary
  observeDiagnostics : List Text
deriving Repr, Inhabited

/-- How a request to the planner ended. -/
structure PlanningCompleted where
  tick : Nat
  llmRequestId : Option Text
  plannedCount : Nat
  status : Text
deriving DecidableEq, Repr, Inhabited

/-- What the verifier found. -/
structure LoopVerified where
  tick : Nat
  passed : Bool
  compilerClean : Bool
  tlogClean : Bool
  errorCount : Nat
  diagnostics : List Text
  traceId : Option Text
  executionId : Option Text
  spanId : Option Text
  parentSpanId : Option Text
deriving DecidableEq, Repr, Inhabited

/-- What follows from it for the next plan. -/
structure VerifierPolicyUpdated where
  tick : Nat
  verifierOutcome : Text
  retryPolicy : Text
  rewardBias : Text
  actionableFailure : Bool
  traceId : Option Text
  executionId : Option Text
  spanId : Option Text
  parentSpanId : Option Text
deriving DecidableEq, Repr, Inhabited

/-- The reward that closes a round. -/
structure LoopRewarded where
  tick : Nat
  errorsBefore : Nat
  errorsAfter : Nat
  stagnantTicks : Nat
  halt : Bool
  goodness : Float32
  reward : Float32
  deltaG : Float32
  traceId : Option Text
  executionId : Option Text
  spanId : Option Text
  parentSpanId : Option Text
deriving Repr, Inhabited

/-- The stage that comes next. -/
structure RouteSelected where
  tick : Nat
  suggestedRoute : Text
  prompt : Text
  approvedRoute : Text
  rationale : Text
  confidence : Option Float32
  gateNote : Text
  gateRulesFired : List Text
  gateChanged : Bool
  gateShouldStop : Bool
  modelJson : Text
deriving Repr, Inhabited

/-- What a capability gave back. -/
inductive CapabilityResult where
  | process (status : Int) (success : Bool) (stdout stderr : Text)
  | llm (success : Bool) (durationMs : Nat) (response : Json)
  | empty
deriving Repr, Inhabited

/-- The answer to a request. -/
structure CapabilityCompleted where
  requestId : Text
  capability : Text
  result : CapabilityResult
deriving Repr, Inhabited

structure CapabilityFailed where
  requestId : Text
  capability : Text
  error : Text
deriving DecidableEq, Repr, Inhabited

structure ToolCall where
  nodeId : Text
  toolCallId : Text
  requestId : Text
  kind : Text
  payload : Json
  accepted : Bool
deriving Repr, Inhabited

structure ToolResult where
  nodeId : Text
  toolCallId : Text
  toolResultId : Text
  requestId : Text
  kind : Text
  output : Json
  success : Bool
deriving Repr, Inhabited

structure LlmCall where
  requestId : Text
  prompt : Text
  role : Option Text
  agentId : Option Text
  dispatched : Bool
  system : Option Text
  systemPromptId : Option Nat
  contextBase : Option Text
  contextBaseId : Option Nat
  promptBaseId : Option Nat
  prevPromptId : Option Nat
deriving Repr, Inhabited

structure BashInvoke where
  requestId : Text
  cmd : Text
  cwd : Option Text
  queued : Bool
deriving Repr, Inhabited

inductive FileEvent where
  | write (requestId path content : Text)
  | patch (requestId path old new : Text)
  | other
deriving Repr, Inhabited

structure DebugEvent where
  source : Text
  kind : Text
  payload : Json
deriving Repr, Inhabited

structure ErrorOccurred where
  kind : Text
  source : Text
  message : Text
  severity : Text
  context : Json
deriving Repr, Inhabited

/-- A failure that recurs. -/
structure InvariantDiscovered where
  feature : Text
  support : Nat
deriving Repr, Inhabited

structure SubTaskResult where
  agentId : Text
  success : Bool
  output : Json
  error : Option Text
deriving Repr, Inhabited

structure RustcGraphArtifactWritten where
  artifactId : Text
  fileCount : Nat
  nodeCount : Nat
  edgeCount : Nat
  callEdgeCount : Nat
  moduleEdgeCount : Nat
  cfgEdgeCount : Nat
deriving Repr, Inhabited

structure GoalNodeCreated where
  nodeId : Text
  description : Text
  deps : List Text
  caps : List Text
deriving Repr, Inhabited

/-- The kinds of which the loop reads nothing but the kind. -/
inductive PlainKind where
  | analysis
  | nodeReady
  | nodeStarted
  | nodeCompleted
  | nodeFailed
  | policyBaselineUpdated
  | goalSelected
  | systemConfigLoaded
  | toolBatchSettled
  | goalNodeRetracted
  | goalNodeRewritten
  | goalGraphCheckpointed
  | capabilityInvoked
  | capabilityResolved
  | capabilityRequested
  | rustcCaptureStarted
  | rustcCaptureCompleted
deriving DecidableEq, Repr, Inhabited

def PlainKind.kind : PlainKind → EventKind
  | analysis => .analysis
  | nodeReady => .nodeReady
  | nodeStarted => .nodeStarted
  | nodeCompleted => .nodeCompleted
  | nodeFailed => .nodeFailed
  | policyBaselineUpdated => .policyBaselineUpdated
  | goalSelected => .goalSelected
  | systemConfigLoaded => .systemConfigLoaded
  | toolBatchSettled => .toolBatchSettled
  | goalNodeRetracted => .goalNodeRetracted
  | goalNodeRewritten => .goalNodeRewritten
  | goalGraphCheckpointed => .goalGraphCheckpointed
  | capabilityInvoked => .capabilityInvoked
  | capabilityResolved => .capabilityResolved
  | capabilityRequested => .capabilityRequested
  | rustcCaptureStarted => .rustcCaptureStarted
  | rustcCaptureCompleted => .rustcCaptureCompleted

inductive RuntimeEvent where
  /-- A compiler event; the flag says whether it is an invariant violation. -/
  | code (invariantViolation : Bool)
  | debug (event : DebugEvent)
  | errorOccurred (err : ErrorOccurred)
  | edit
  | tick (tick : Nat)
  | loopObserved (observed : LoopObserved)
  | loopPlanned (planned : LoopPlanned)
  | planningCompleted (completed : PlanningCompleted)
  | loopActed (acted : LoopActed)
  | loopVerified (verified : LoopVerified)
  | verifierPolicyUpdated (updated : VerifierPolicyUpdated)
  | loopRewarded (rewarded : LoopRewarded)
  | goodnessSnapshot (g deltaG : Float32)
  | invariantDiscovered (found : InvariantDiscovered)
  | routeTick (tick : Nat)
  | routeSelected (selected : RouteSelected)
  | cargo
  | file (event : FileEvent)
  | bash (invoke : BashInvoke)
  | llm (call : LlmCall)
  | subTaskResult (result : SubTaskResult)
  | runtimeStateUpdated (payload : Json)
  | capabilityCompleted (completed : CapabilityCompleted)
  | capabilityFailed (failed : CapabilityFailed)
  | agentRegistered (payload : Json)
  | promptLoaded (payload : Json)
  | rustcGraphArtifactWritten (written : RustcGraphArtifactWritten)
  | rustcCaptureFailed (message : Text)
  | toolCall (call : ToolCall)
  | toolResult (result : ToolResult)
  | goalNodeCreated (node : GoalNodeCreated)
  | goalEdgeDefined (fromNode toNode : Text)
  | plain (kind : PlainKind)
deriving Repr, Inhabited

/-- The kind under which the event is logged. -/
def RuntimeEvent.kind : RuntimeEvent → EventKind
  | code _ => .code
  | debug _ => .debug
  | errorOccurred _ => .errorOccurred
  | edit => .edit
  | tick _ => .tick
  | loopObserved _ => .loopObserved
  | loopPlanned _ => .loopPlanned
  | planningCompleted _ => .planningCompleted
  | loopActed _ => .loopActed
  | loopVerified _ => .loopVerified
  | verifierPolicyUpdated _ => .verifierPolicyUpdated
  | loopRewarded _ => .loopRewarded
  | goodnessSnapshot _ _ => .goodnessSnapshot
  | invariantDiscovered _ => .invariantDiscovered
  | routeTick _ => .routeTick
  | routeSelected _ => .routeSelected
  | cargo => .cargo
  | file _ => .file
  | bash _ => .bash
  | llm _ => .llm
  | subTaskResult _ => .subTaskResult
  | runtimeStateUpdated _ => .runtimeStateUpdated
  | capabilityCompleted _ => .capabilityCompleted
  | capabilityFailed _ => .capabilityFailed
  | agentRegistered _ => .agentRegistered
  | promptLoaded _ => .promptLoaded
  | rustcGraphArtifactWritten _ => .rustcGraphArtifactWritten
  | rustcCaptureFailed _ => .rustcCaptureFailed
  | toolCall _ => .toolCall
  | toolResult _ => .toolResult
  | goalNodeCreated _ => .goalNodeCreated
  | goalEdgeDefined _ _ => .goalEdgeDefined
  | plain kind => kind.kind

def eventKindStr (event : RuntimeEvent) : Text := event.kind.asStr

/-- A text as a JSON string. -/
def jsonText (s : Text) : Json := .str (String.ofList s)

def jsonOption (s : Option Text) : Json := (s.map jsonText).getD .null

/-- The data of a trace event. -/
def decisionTracePayload (reason : Text) (context : Json) : Json :=
  .obj [("reason", jsonText reason), ("context", context)]

end Canon.Loop
