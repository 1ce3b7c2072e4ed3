import Canon.Lib.Maps
import Canon.Loop.PlanCheck

/-! # The context of the loop

    What the stage executor remembers between two events, the queues it keeps its
    tasks in, and the two kinds of things it depends on:
    * `Host`: the process it runs in (hash functions, fresh identifiers, printers),
      the same for a whole run,
    * `World`: what it finds outside while it handles one event (files, the
      compiler, the editor, the prompt that is rendered).
-/

namespace Canon.Loop

/-! ### Pending requests -/

structure PendingPlan where
  tick : Nat
  requestId : Text
  dispatchedAtTick : Nat
  goalText : Option Text
  traceId : Text
  executionId : Text
  spanId : Text
  planId : Text
  planToolCallId : Text
deriving Repr, Inhabited

structure PendingAct where
  tick : Nat
  actionKind : ActionKind
  toolKind : Text
  requestId : Text
  toolCallId : Text
  nodeId : Text
  traceId : Option Text
  executionId : Option Text
  parentSpanId : Option Text
  planId : Option Text
  planStepId : Option Text
  actionId : Option Text
  llmRequestId : Option Text
deriving Repr, Inhabited

inductive DestructiveCmdPolicy where
  | allow
  | warn
  | block
deriving DecidableEq, Repr, Inhabited

def DestructiveCmdPolicy.asStr : DestructiveCmdPolicy → Text
  | allow => "allow"
  | warn => "warn"
  | block => "block"

/-! ### The scheduler -/

inductive TaskPriority where
  | low
  | normal
  | high
  | critical
deriving DecidableEq, Repr, Inhabited

def TaskPriority.rank : TaskPriority → Nat
  | low => 0
  | normal => 1
  | high => 2
  | critical => 3

structure ScheduledTask where
  priority : TaskPriority
  enqueuedAt : Nat
  seq : Nat
  plan : LoopPlanned
deriving Repr, Inhabited

/-- The order of the heap: higher priority, then earlier, then the smaller number. -/
def ScheduledTask.leavesBefore (a b : ScheduledTask) : Bool :=
  a.priority.rank > b.priority.rank ||
    (a.priority.rank = b.priority.rank &&
      (a.enqueuedAt < b.enqueuedAt || (a.enqueuedAt = b.enqueuedAt && a.seq < b.seq)))

/-- The tasks in the heap, in any order. -/
structure Scheduler where
  heap : List ScheduledTask
  seq : Nat
deriving Repr, Inhabited

/-- The task that leaves the heap first, and the others. -/
def popHeap : List ScheduledTask → Option (ScheduledTask × List ScheduledTask)
  | [] => none
  | task :: tasks =>
    match popHeap tasks with
    | none => some (task, [])
    | some (first, others) =>
      if task.leavesBefore first then some (task, first :: others)
      else some (first, task :: others)

namespace Scheduler

variable (s : Scheduler)

def isEmpty : Bool := s.heap.isEmpty

def clear : Scheduler := { s with heap := [] }

def push (task : ScheduledTask) : Scheduler where
  heap := { task with seq := s.seq } :: s.heap
  seq := s.seq + 1

def pushAll (tasks : List ScheduledTask) : Scheduler := tasks.foldl push s

def popAny : Option (ScheduledTask × Scheduler) :=
  (popHeap s.heap).map fun (task, others) => (task, { s with heap := others })

/-- The first task of one planning request. -/
def popForLlm (llmRequestId : Text) : Option (ScheduledTask × Scheduler) :=
  let mine := s.heap.filter (·.plan.llmRequestId = some llmRequestId)
  let others := s.heap.filter (·.plan.llmRequestId ≠ some llmRequestId)
  (popHeap mine).map fun (task, rest) => (task, { s with heap := rest ++ others })

end Scheduler

def inferPriority (planned : LoopPlanned) (goodness deltaG : Option Float32) : TaskPriority :=
  if (goodness.map fun g => decide (g < 0)).getD false then .high
  else if (deltaG.map fun d => decide (d < -0.1)).getD false then .high
  else if planned.actionKind = .done then .critical
  else .normal

/-! ### Dependencies -/

structure DependencyTracker where
  waiting : FMap Text (List Text)
  unblocks : FMap Text (List ScheduledTask)

namespace DependencyTracker

def empty : DependencyTracker := ⟨FMap.empty, FMap.empty⟩

/-- The task is unblocked by `dep` as well. -/
def unblock (unblocks : FMap Text (List ScheduledTask)) (task : ScheduledTask) (dep : Text) :
    FMap Text (List ScheduledTask) :=
  unblocks.insert dep ((unblocks dep).getD [] ++ [task])

def add (t : DependencyTracker) (task : ScheduledTask) : DependencyTracker :=
  let deps := task.plan.dependsOn
  if deps = [] then t
  else
    { waiting :=
        match task.plan.actionId with
        | some actionId => t.waiting.insert actionId deps.dedup
        | none => t.waiting
      unblocks := deps.foldl (unblock · task) t.unblocks }

/-- One task that waited for `done`: it is ready, or waits for the rest. -/
def settle (done : Text) (acc : DependencyTracker × List ScheduledTask) (task : ScheduledTask) :
    DependencyTracker × List ScheduledTask :=
  let (t, ready) := acc
  match task.plan.actionId with
  | none => (t, ready ++ [task])
  | some actionId =>
    match t.waiting actionId with
    | none => (t, ready ++ [task])
    | some wait =>
      let left := wait.filter (· ≠ done)
      if left = [] then ({ t with waiting := t.waiting.erase actionId }, ready ++ [task])
      else
        ({ waiting := t.waiting.insert actionId left
           unblocks := left.foldl (unblock · task) t.unblocks }, ready)

def complete (t : DependencyTracker) (done : Text) : DependencyTracker × List ScheduledTask :=
  match t.unblocks done with
  | none => (t, [])
  | some tasks => tasks.foldl (settle done) ({ t with unblocks := t.unblocks.erase done }, [])

end DependencyTracker

/-! ### Claims on files -/

/-- The file an action writes to, by the components of its path, with the agent and
    the action that write to it. -/
abbrev FileWriteTracker := FMap (List Component) (Text × Text)

namespace FileWriteTracker

/-- The claim, or the claim it conflicts with. -/
def claim (t : FileWriteTracker) (path : FilePath) (agentId actionId : Text) :
    Except (Text × Text) FileWriteTracker :=
  match t (FilePath.components path) with
  | some (otherAgent, otherAction) =>
    if otherAgent ≠ agentId || otherAction ≠ actionId then .error (otherAgent, otherAction)
    else .ok (t.insert (FilePath.components path) (agentId, actionId))
  | none => .ok (t.insert (FilePath.components path) (agentId, actionId))

def release (t : FileWriteTracker) (path : FilePath) : FileWriteTracker :=
  t.erase (FilePath.components path)

end FileWriteTracker

/-- What another agent reported about its part of the work. -/
structure MergedActionEntry where
  agentId : Text
  success : Bool
  stdoutSummary : Text
deriving Repr, Inhabited

/-- The last `n` elements. -/
def keepLast {α : Type} (n : Nat) (l : List α) : List α := l.drop (l.length - n)

/-! ### The context -/

structure LoopContext where
  workspace : FilePath
  /-- How many identifiers were drawn so far. -/
  drawn : Nat
  -- observe
  goalText : Option Text
  recentCompilerErrors : List Json
  errorCount : Nat
  warningCount : Nat
  -- plan
  pendingPlan : Option PendingPlan
  lastObserved : Option LoopObserved
  lastObservedTick : Option Nat
  lastHandledObservedHash : Option UInt64
  lastPlannedObservedTick : Option Nat
  lastEmittedPlanHash : Option UInt64
  lastDoneGoal : Option Text
  batchActed : List LoopActed
  batchToolResults : List ToolResult
  recentExecutionResults : List SemanticExecutionResultRecord
  objectiveTrendState : ObjectiveTrendState
  lastPromptedGoal : Option Text
  lastSystemPromptId : Option UInt64
  lastContextBaseId : Option UInt64
  lastDeltaHash : Option UInt64
  lastRouteRationaleNonEmpty : Option Text
  lastRouteConfidenceNonEmpty : Option Float32
  lastRouteSelectedTick : Option Nat
  lastInvalidPlanReason : Option Text
  lastInvalidPlanPlannedCount : Option Nat
  consecutiveInvalidPlanBatches : Nat
  -- act
  scheduler : Scheduler
  depTracker : DependencyTracker
  pendingAct : Option PendingAct
  activeBatchLlmRequestId : Option Text
  actionSemanticIntents : FMap Text (List ActionIntent)
  destructiveCmdPolicy : DestructiveCmdPolicy
  fileWriteTracker : FileWriteTracker
  writePathsByAction : FMap Text (List FilePath)
  mergedActions : List MergedActionEntry
  -- decompose
  pendingDecomposeRequestId : Option Text
  agentId : Option Text
  -- verify
  lastActSpanId : Option Text
  lastActed : Option LoopActed
  lastVerified : Option LoopVerified
  lastVerifierRewardBias : Option Text
  -- reward
  errorsBefore : Nat
  stagnantTicks : Nat
  lastActionKind : ActionKind
  halted : Bool
  lastHaltReason : Option Text
  lastRewardTraceId : Option Text
  lastRewardExecutionId : Option Text
  goodness : Option Float32
  deltaG : Option Float32
  currentTick : Nat
  forcedPrimaryObjective : Option DevelopmentObjectiveKind
  forcedPrimaryStrategy : Option DevelopmentStrategyKind

/-- A fresh context. -/
def LoopContext.new (workspace : FilePath) (policy : DestructiveCmdPolicy) : LoopContext where
  workspace := workspace
  drawn := 0
  goalText := none
  recentCompilerErrors := []
  errorCount := 0
  warningCount := 0
  pendingPlan := none
  lastObserved := none
  lastObservedTick := none
  lastHandledObservedHash := none
  lastPlannedObservedTick := none
  lastEmittedPlanHash := none
  lastDoneGoal := none
  batchActed := []
  batchToolResults := []
  recentExecutionResults := []
  objectiveTrendState := {}
  lastPromptedGoal := none
  lastSystemPromptId := none
  lastContextBaseId := none
  lastDeltaHash := none
  lastRouteRationaleNonEmpty := none
  lastRouteConfidenceNonEmpty := none
  lastRouteSelectedTick := none
  lastInvalidPlanReason := none
  lastInvalidPlanPlannedCount := none
  consecutiveInvalidPlanBatches := 0
  scheduler := ⟨[], 0⟩
  depTracker := .empty
  pendingAct := none
  activeBatchLlmRequestId := none
  actionSemanticIntents := FMap.empty
  destructiveCmdPolicy := policy
  fileWriteTracker := FMap.empty
  writePathsByAction := FMap.empty
  mergedActions := []
  pendingDecomposeRequestId := none
  agentId := none
  lastActSpanId := none
  lastActed := none
  lastVerified := none
  lastVerifierRewardBias := none
  errorsBefore := 0
  stagnantTicks := 0
  lastActionKind := .other []
  halted := false
  lastHaltReason := none
  lastRewardTraceId := none
  lastRewardExecutionId := none
  goodness := none
  deltaG := none
  currentTick := 0
  forcedPrimaryObjective := none
  forcedPrimaryStrategy := none

/-! ### Process and surroundings -/

structure Host extends Tools where
  debugAssertions : Bool
  /-- The identifiers in the order in which they are drawn. -/
  uuid : Nat → Text
  uuid_injective : Function.Injective uuid
  jsonToString : Json → Text
  hashObserved : Nat → Option Text → SemanticStateSummary → UInt64
  hashStr : Text → UInt64
  hashJson : Json → UInt64
  hashBatch : List (Text × Json) → UInt64
  systemPromptId : UInt64
  systemInstructions : Text
  decomposePrompt : Text → Text
  showF32 : Float32 → Text
  jsonOfF32 : Float32 → Json
  debugDecision : ConstraintDecision → Text
  debugEvent : RuntimeEvent → Text

/-- What the editor reports about one edit. -/
structure EditReport where
  error : Option Text
  defPaths : List Text
deriving Repr, Inhabited

structure GraphProofOutcome where
  verified : Bool
  summary : Text
  artifactId : Option Text
  failures : List Text
deriving Repr, Inhabited

structure World where
  fs : Fs
  /-- The goal found in the log. -/
  scannedGoal : Option Text
  /-- Whether `cargo check` passes and what it prints; nothing when it cannot be run. -/
  cargoCheck : FilePath → Except Text (Bool × Text)
  /-- How many files a patch adds, modifies and deletes. -/
  applyPatch : Text → FilePath → Except Text (Nat × Nat × Nat)
  editReport : FilePath → LoopPlanned → EditReport
  graphProof : FilePath → LoopPlanned → GraphProofOutcome
  /-- The slow part and the fast part of the planner's prompt; nothing when a text
      is cut inside a character. -/
  renderPrompt : LoopContext → LoopObserved → SemanticStateSummary → Option Text →
    Option Float32 → Option (Text × Text)
  /-- The invariant a rejected plan promotes, and what the store has to report. -/
  promotion : Option InvariantDiscovered
  persistedStoreEvents : List DebugEvent
  elapsedMs : Nat
  now : Nat

/-! ### Replies -/

inductive LoopStageResult where
  | emit (event : RuntimeEvent)
  | emitMany (events : List RuntimeEvent)
  | noop
  | deferred

def LoopStageResult.isNoop : LoopStageResult → Bool
  | noop => true
  | _ => false

/-- The events a result stands for. -/
def LoopStageResult.events : LoopStageResult → List RuntimeEvent
  | emit event => [event]
  | emitMany events => events
  | noop | deferred => []

inductive Outcome where
  | ok (result : LoopStageResult)
  | err (message : Text)
  | panic

/-- How a stage ends, with the events it emitted on the way. -/
structure StageReply where
  ctx : LoopContext
  outcome : Outcome
  emitted : List RuntimeEvent

def StageReply.ok (ctx : LoopContext) (result : LoopStageResult) : StageReply :=
  ⟨ctx, .ok result, []⟩

def StageReply.panic (ctx : LoopContext) : StageReply := ⟨ctx, .panic, []⟩

/-- All events of a stage that ended well. -/
def StageReply.events (r : StageReply) : List RuntimeEvent :=
  r.emitted ++ match r.outcome with
    | .ok result => result.events
    | _ => []

end Canon.Loop
