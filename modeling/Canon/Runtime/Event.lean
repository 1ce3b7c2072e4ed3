import Canon.Runtime.RustcState

/-! # Events of the runtime

    `RuntimeEvent` with the fields the runtime and the bus read, the lists of kinds they
    test against, and `runtime_event_to_wire`, which turns an event into the form that
    goes to the log.
-/

namespace Canon.Runtime

open Canon.Graph (RustcEvent)
open Canon.Tlog

/-! ### Compiler events -/

/-- A compiler event; those that the runtime reads more of than the graph does have a
    constructor of their own. -/
inductive KernelEvent where
  | compilationUnitFinished (crateName : String)
  | panicCaptured (message : String) (context : Json)
  | invariantViolation (message : String)
  | other (event : RustcEvent)
deriving Repr

def KernelEvent.rustcEvent : KernelEvent → RustcEvent
  | compilationUnitFinished _ => .compilationUnitFinished
  | panicCaptured _ _ => .panicCaptured
  | invariantViolation _ => .invariantViolation
  | other event => event

/-! ### Events -/

structure ErrorOccurred where
  kind : String
  source : String
  message : String
  severity : String
  context : Json
deriving Repr

def newErrorOccurred (kind source message severity : String) (context : Json) : ErrorOccurred :=
  { kind := kind, source := source, message := message, severity := severity, context := context }

structure DebugEvent where
  source : String
  kind : String
  payload : Json
deriving Repr

/-- The variants of which the runtime reads nothing but which one it is. -/
inductive PlainKind where
  | edit
  | loopPlanned
  | planningCompleted
  | loopActed
  | loopVerified
  | verifierPolicyUpdated
  | loopRewarded
  | goodnessSnapshot
  | invariantDiscovered
  | cargo
  | file
  | bash
  | llm
  | subTaskResult
  | analysis
  | nodeReady
  | nodeStarted
  | nodeCompleted
  | capabilityCompleted
  | policyBaselineUpdated
  | goalSelected
  | systemConfigLoaded
  | agentRegistered
  | promptLoaded
  | rustcCaptureStarted
  | rustcGraphArtifactWritten
  | rustcCaptureCompleted
  | rustcCaptureFailed
  | toolCall
  | toolResult
  | toolBatchSettled
  | goalNodeCreated
  | goalNodeRetracted
  | goalNodeRewritten
  | goalEdgeDefined
  | goalGraphCheckpointed
  | capabilityInvoked
  | capabilityResolved
  | capabilityRequested
deriving DecidableEq, Repr

def PlainKind.kind : PlainKind → EventKind
  | edit => .edit
  | loopPlanned => .loopPlanned
  | planningCompleted => .planningCompleted
  | loopActed => .loopActed
  | loopVerified => .loopVerified
  | verifierPolicyUpdated => .verifierPolicyUpdated
  | loopRewarded => .loopRewarded
  | goodnessSnapshot => .goodnessSnapshot
  | invariantDiscovered => .invariantDiscovered
  | cargo => .cargo
  | file => .file
  | bash => .bash
  | llm => .llm
  | subTaskResult => .subTaskResult
  | analysis => .analysis
  | nodeReady => .nodeReady
  | nodeStarted => .nodeStarted
  | nodeCompleted => .nodeCompleted
  | capabilityCompleted => .capabilityCompleted
  | policyBaselineUpdated => .policyBaselineUpdated
  | goalSelected => .goalSelected
  | systemConfigLoaded => .systemConfigLoaded
  | agentRegistered => .agentRegistered
  | promptLoaded => .promptLoaded
  | rustcCaptureStarted => .rustcCaptureStarted
  | rustcGraphArtifactWritten => .rustcGraphArtifactWritten
  | rustcCaptureCompleted => .rustcCaptureCompleted
  | rustcCaptureFailed => .rustcCaptureFailed
  | toolCall => .toolCall
  | toolResult => .toolResult
  | toolBatchSettled => .toolBatchSettled
  | goalNodeCreated => .goalNodeCreated
  | goalNodeRetracted => .goalNodeRetracted
  | goalNodeRewritten => .goalNodeRewritten
  | goalEdgeDefined => .goalEdgeDefined
  | goalGraphCheckpointed => .goalGraphCheckpointed
  | capabilityInvoked => .capabilityInvoked
  | capabilityResolved => .capabilityResolved
  | capabilityRequested => .capabilityRequested

/-- `data` is the serialised rest of an event. -/
inductive RuntimeEvent where
  | code (id tick : Nat) (event : KernelEvent) (state : RustcState)
  | debug (event : DebugEvent)
  | errorOccurred (err : ErrorOccurred)
  | tick (tick : Nat) (emitted : Bool)
  | routeTick (tick : Nat) (emitted : Bool)
  | routeSelected (tick : Nat) (data : Json)
  | loopObserved (tick : Nat) (data : Json)
  | runtimeStateUpdated (payload : Json)
  | capabilityFailed (requestId capability error : String)
  | nodeFailed (error : Option String) (context : Json)
  | plain (kind : PlainKind) (data : Json)

namespace RuntimeEvent

def kind : RuntimeEvent → EventKind
  | code .. => .code
  | debug _ => .debug
  | errorOccurred _ => .errorOccurred
  | tick .. => .tick
  | routeTick .. => .routeTick
  | routeSelected .. => .routeSelected
  | loopObserved .. => .loopObserved
  | runtimeStateUpdated _ => .runtimeStateUpdated
  | capabilityFailed .. => .capabilityFailed
  | nodeFailed .. => .nodeFailed
  | plain kind _ => kind.kind

def eventKindStr (event : RuntimeEvent) : String := event.kind.asStr

/-- The four kinds that pass the invariant engine and the dedup gate. -/
def isControl : RuntimeEvent → Bool
  | tick .. | routeTick .. | routeSelected .. | loopObserved .. => true
  | _ => false

/-- The kinds the emitter and the drain let through while a replay is on. -/
def passesReplay : RuntimeEvent → Bool
  | tick .. | routeTick .. | routeSelected .. | loopObserved .. | debug _ => true
  | _ => false

def isAllowedDuringFatalHalt : RuntimeEvent → Bool
  | code .. | errorOccurred _ | debug _ | runtimeStateUpdated _ | tick .. | routeTick ..
  | routeSelected .. => true
  | _ => false

def isProtectedControlEvent : RuntimeEvent → Bool
  | tick .. | routeTick .. | routeSelected .. | loopObserved .. => true
  | plain .loopPlanned _ | plain .planningCompleted _ | plain .loopActed _
  | plain .loopVerified _ | plain .verifierPolicyUpdated _ | plain .loopRewarded _ => true
  | _ => false

/-- Nobody has to receive these. -/
def isSilent (event : RuntimeEvent) : Bool :=
  ["debug", "runtime_state_updated", "code", "edit", "analysis", "cargo", "file", "bash",
    "llm"].contains event.eventKindStr

end RuntimeEvent

def isRecoveryKind (kind : String) : Bool :=
  kind = "recovery_event" || kind = "reset_event" || kind = "override_event"

def recoverySignalReason : RuntimeEvent → Option String
  | .errorOccurred err => if isRecoveryKind err.kind then some err.kind else none
  | .debug event => if isRecoveryKind event.kind then some event.kind else none
  | _ => none

def isFatalMessage (message : String) : Bool :=
  let msg := message.toList
  Text.contains "duplicate event within dedup window" msg
    || Text.contains "illegal transition" msg
    || Text.contains "missing required successor" msg
    || Text.contains "invalid_retry" msg
    || Text.contains "id is empty" msg
    || Text.contains "payload input/output/delta must be non-null" msg
    || Text.contains "delta is zero / empty" msg

def fatalInvariantReason : RuntimeEvent → Option String
  | .code _ _ (.invariantViolation message) _ =>
    if isFatalMessage message then some message else none
  | _ => none

structure LocatedEvent where
  event : RuntimeEvent
  file : String
  line : Nat
  parentIds : List String

/-! ### The form on the wire -/

/-- What `CanonPayloadShape`, generated for each event, makes of it. -/
structure PayloadShape where
  input : Json
  output : Json
  delta : Json
  data : Json

/-- The variants `runtime_event_to_wire` has no arm for are not written. -/
def PlainKind.isWritten : PlainKind → Bool
  | loopPlanned | planningCompleted | loopActed | loopVerified | verifierPolicyUpdated
  | loopRewarded | capabilityCompleted | capabilityInvoked | capabilityResolved | promptLoaded
  | toolCall | toolResult | goalNodeCreated | goalNodeRetracted | goalNodeRewritten
  | goalEdgeDefined | goalGraphCheckpointed | goodnessSnapshot | invariantDiscovered | llm => true
  | _ => false

def wireKind : RuntimeEvent → Option EventKind
  -- The start of the runtime is announced by a debug event.
  | .debug event => some (if event.kind = "runtime_started" then .runtimeStarted else .debug)
  | .nodeFailed .. => none
  | .plain kind _ => if kind.isWritten then some kind.kind else none
  | event => some event.kind

def wireActor : RuntimeEvent → String
  | .code .. => "rustc"
  | .loopObserved .. => "observe"
  | .routeTick .. | .routeSelected .. | .tick .. => "supervisor"
  | .debug event => event.source
  | .plain .loopPlanned _ | .plain .planningCompleted _ => "plan"
  | .plain .loopActed _ => "act"
  | .plain .loopVerified _ | .plain .verifierPolicyUpdated _ => "verify"
  | .plain .loopRewarded _ => "reward"
  | .plain .capabilityInvoked _ | .plain .capabilityResolved _ => "capability_graph"
  | .plain .toolCall _ | .plain .toolResult _ => "agent-consumer"
  | .plain .goalNodeCreated _ | .plain .goalNodeRetracted _ | .plain .goalNodeRewritten _
  | .plain .goalEdgeDefined _ | .plain .goalGraphCheckpointed _ => "goal_graph"
  | .plain .invariantDiscovered _ => "invariant-engine"
  | _ => "event-runtime"

def isRootKind (kind : EventKind) : Bool :=
  [EventKind.tick, .promptLoaded, .agentRegistered, .systemConfigLoaded, .runtimeStarted].contains
    kind

/-- `none` for an event that is not written; an error for one without parents. -/
def runtimeEventToWire (shape : RuntimeEvent → PayloadShape) (event : RuntimeEvent)
    (parentIds : List String) (eventId : String) (file : String) (line now : Nat) :
    Except String (Option CanonEvent) :=
  match wireKind event with
  | none => .ok none
  | some kind =>
    if parentIds.isEmpty && !isRootKind kind then
      .error (s!"missing_parent_ids for non-root event kind={kind.asStr} id={eventId} "
        ++ s!"(emitted from {file}:{line})")
    else
      .ok (some
        { id := eventId
          parentIds := parentIds
          actor := wireActor event
          kind := kind
          ts := now
          payload :=
            { input := (shape event).input
              output := (shape event).output
              delta := (shape event).delta
              payloadMeta := { file := file, line := line }
              data := (shape event).data }
          prevEventId := none })

theorem runtimeEventToWire_kind {shape : RuntimeEvent → PayloadShape} {event : RuntimeEvent}
    {parentIds : List String} {eventId file : String} {line now : Nat} {wire : CanonEvent}
    (h : runtimeEventToWire shape event parentIds eventId file line now = .ok (some wire)) :
    wireKind event = some wire.kind := by
  unfold runtimeEventToWire at h
  split at h
  · cases h
  · rename_i kind hkind
    split at h
    · cases h
    · cases h
      exact hkind

/-! ### Facts about kinds -/

theorem wireKind_of_isControl {event : RuntimeEvent} (h : event.isControl = true) :
    wireKind event = some event.kind := by
  cases event <;> first | rfl | cases h

/-- The kinds that may still appear while the runtime is halted. -/
def haltKinds : List EventKind :=
  [.code, .errorOccurred, .debug, .runtimeStateUpdated, .tick, .routeTick, .routeSelected,
    .loopObserved]

theorem kind_mem_haltKinds {event : RuntimeEvent}
    (h : event.isAllowedDuringFatalHalt = true ∨ event.isControl = true) :
    event.kind ∈ haltKinds := by
  cases event <;> rcases h with h | h <;>
    first
      | exact List.elem_iff.mp rfl
      | cases h

end Canon.Runtime
