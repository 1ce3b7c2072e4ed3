import Canon.Lib.Json

/-! # Events of the canonical log

    The wire form of an event (`wire.rs`) and the rules an event has to satisfy
    before it is appended (`invariants.rs`): the control classes, the table of
    allowed transitions and the table of required successors.
-/

namespace Canon.Tlog

/-! ### Kinds -/

inductive EventKind where
  | loopObserved
  | loopPlanned
  | planningCompleted
  | loopActed
  | loopVerified
  | verifierPolicyUpdated
  | loopRewarded
  | goodnessSnapshot
  | invariantDiscovered
  | routeTick
  | routeSelected
  | capabilityInvoked
  | capabilityResolved
  | capabilityCompleted
  | capabilityFailed
  | capabilityRequested
  | goalNodeCreated
  | goalNodeRetracted
  | goalNodeRewritten
  | goalEdgeDefined
  | goalGraphCheckpointed
  | goalSelected
  | toolCall
  | toolResult
  | toolBatchSettled
  | agentRegistered
  | subTaskResult
  | cargo
  | file
  | bash
  | analysis
  | llm
  | runtimeStarted
  | runtimeStateUpdated
  | policyBaselineUpdated
  | systemConfigLoaded
  | promptLoaded
  | rustcCaptureStarted
  | rustcGraphArtifactWritten
  | rustcCaptureCompleted
  | rustcCaptureFailed
  | nodeReady
  | nodeStarted
  | nodeCompleted
  | nodeFailed
  | tick
  | code
  | edit
  | debug
  | errorOccurred
  | supervisorEvent
deriving DecidableEq, Repr, Inhabited

inductive EventClass where
  | control
  | effect
deriving DecidableEq, Repr

namespace EventKind

/-- The wire name of a kind. -/
def asStr : EventKind → String
  | loopObserved => "loop_observed"
  | loopPlanned => "loop_planned"
  | planningCompleted => "planning_completed"
  | loopActed => "loop_acted"
  | loopVerified => "loop_verified"
  | verifierPolicyUpdated => "verifier_policy_updated"
  | loopRewarded => "loop_rewarded"
  | goodnessSnapshot => "goodness_snapshot"
  | invariantDiscovered => "invariant_discovered"
  | routeTick => "route_tick"
  | routeSelected => "route_selected"
  | capabilityInvoked => "capability_invoked"
  | capabilityResolved => "capability_resolved"
  | capabilityCompleted => "capability_completed"
  | capabilityFailed => "capability_failed"
  | capabilityRequested => "capability_requested"
  | goalNodeCreated => "goal_node_created"
  | goalNodeRetracted => "goal_node_retracted"
  | goalNodeRewritten => "goal_node_rewritten"
  | goalEdgeDefined => "goal_edge_defined"
  | goalGraphCheckpointed => "goal_graph_checkpointed"
  | goalSelected => "goal_selected"
  | toolCall => "tool_call"
  | toolResult => "tool_result"
  | toolBatchSettled => "tool_batch_settled"
  | agentRegistered => "agent_registered"
  | subTaskResult => "sub_task_result"
  | cargo => "cargo"
  | file => "file"
  | bash => "bash"
  | analysis => "analysis"
  | llm => "llm"
  | runtimeStarted => "runtime_started"
  | runtimeStateUpdated => "runtime_state_updated"
  | policyBaselineUpdated => "policy_baseline_updated"
  | systemConfigLoaded => "system_config_loaded"
  | promptLoaded => "prompt_loaded"
  | rustcCaptureStarted => "rustc_capture_started"
  | rustcGraphArtifactWritten => "rustc_graph_artifact_written"
  | rustcCaptureCompleted => "rustc_capture_completed"
  | rustcCaptureFailed => "rustc_capture_failed"
  | nodeReady => "node_ready"
  | nodeStarted => "node_started"
  | nodeCompleted => "node_completed"
  | nodeFailed => "node_failed"
  | tick => "tick"
  | code => "code"
  | edit => "edit"
  | debug => "debug"
  | errorOccurred => "error_occurred"
  | supervisorEvent => "supervisor_event"

/-- Only the routing loop is control; everything else is an effect. -/
def eventClass : EventKind → EventClass
  | tick | routeTick | routeSelected | loopObserved | planningCompleted | loopActed
  | loopVerified | verifierPolicyUpdated | loopRewarded => .control
  | _ => .effect

def allowedNext : EventKind → List EventKind
  | tick => [routeTick]
  | routeTick => [routeSelected, loopObserved]
  | routeSelected =>
      [loopObserved, planningCompleted, loopActed, loopVerified, verifierPolicyUpdated,
        loopRewarded]
  | loopObserved => [routeSelected]
  | planningCompleted => [routeSelected]
  | loopActed => [routeSelected, loopVerified]
  | loopVerified => [verifierPolicyUpdated]
  | verifierPolicyUpdated => [loopRewarded]
  | loopRewarded => [routeSelected, loopObserved]
  | _ => []

end EventKind

/-! ### Events -/

structure CanonPayloadMeta where
  file : String
  line : Nat
deriving Repr, Inhabited, DecidableEq

structure CanonPayload where
  input : Json
  output : Json
  delta : Json
  payloadMeta : CanonPayloadMeta
  data : Json
deriving Repr, Inhabited

structure CanonEvent where
  id : String
  parentIds : List String
  actor : String
  kind : EventKind
  ts : Nat
  payload : CanonPayload
  prevEventId : Option String
deriving Repr, Inhabited

/-- Control-class events are the ones the transition tables talk about. -/
def CanonEvent.isControl (e : CanonEvent) : Bool := e.kind.eventClass = .control

/-! ### Checks made before an append -/

def isZeroDelta : Json → Bool
  | .null => true
  | .arr items => items.isEmpty
  | .obj entries => entries.isEmpty
  | _ => false

def validateEvent (event : CanonEvent) : Except String Unit :=
  if event.id.isEmpty then
    .error "invariant violation: id is empty"
  else if event.payload.input.isNull || event.payload.output.isNull
      || event.payload.delta.isNull then
    .error "invariant violation: payload input/output/delta must be non-null"
  else if isZeroDelta event.payload.delta then
    match event.kind with
    | .tick | .routeTick | .routeSelected => .ok ()
    | _ => .error "invariant violation: delta is zero / empty"
  else .ok ()

def routeSelectedTarget (event : CanonEvent) : Option String :=
  ((event.payload.data.get "approved_route").bind Json.asStr).or
    ((event.payload.output.get "approved_route").bind Json.asStr)

def requiredSuccessorKind (kind : EventKind) (approvedRoute : Option String) :
    Option EventKind :=
  if kind.eventClass ≠ .control then none
  else
    match kind with
    | .routeTick => some .routeSelected
    | .routeSelected =>
      match approvedRoute with
      | some "observe" => some .loopObserved
      | some "plan" => some .planningCompleted
      | some "act" => some .loopActed
      | some "verify" => some .loopVerified
      | some "conclude" => some .loopRewarded
      | _ => none
    | .loopObserved => some .routeSelected
    | .planningCompleted => some .routeSelected
    | .loopActed => some .routeSelected
    | .loopVerified => some .verifierPolicyUpdated
    | .verifierPolicyUpdated => some .loopRewarded
    | .loopRewarded => some .routeSelected
    | _ => none

def validateTransition (prev next : CanonEvent) : Except String Unit :=
  if prev.kind.eventClass ≠ .control || next.kind.eventClass ≠ .control then .ok ()
  else if prev.kind.allowedNext.contains next.kind then .ok ()
  else
    .error ("invariant violation: illegal transition " ++ prev.kind.asStr ++ " -> "
      ++ next.kind.asStr)

/-- An obligation on the control chain: what has to come after `parent`.  The
    writer's own `PendingState` has the same fields. -/
structure PendingTransition where
  expected : EventKind
  parent : String
  sourceKind : EventKind
  note : String
deriving DecidableEq, Repr

def isRecoveryEvent (event : CanonEvent) : Bool :=
  match event.kind with
  | .errorOccurred | .debug =>
    match (event.payload.data.get "kind").bind Json.asStr with
    | some kind => kind = "recovery_event" || kind = "reset_event" || kind = "override_event"
    | none => false
  | _ => false

/-- The note of an obligation whose kind alone decides it. -/
def successorNote : EventKind → String
  | .loopObserved => "post-observe routing"
  | .planningCompleted => "post-plan routing"
  | .loopActed => "post-act routing"
  | .loopVerified => "verifier policy update must follow verify"
  | .verifierPolicyUpdated => "reward must follow verifier policy update"
  | .loopRewarded => "post-reward routing"
  | _ => ""

def requiredSuccessor (event : CanonEvent) : Option PendingTransition :=
  if event.kind.eventClass ≠ .control then none
  else
    match event.kind with
    | .routeTick =>
      some { expected := .loopObserved, parent := event.id, sourceKind := event.kind,
             note := "route tick must open exactly one observe cycle before route selection" }
    | .routeSelected =>
      (routeSelectedTarget event).bind fun approved =>
        (requiredSuccessorKind event.kind (some approved)).map fun expected =>
          { expected := expected, parent := event.id, sourceKind := event.kind,
            note := "approved_route=" ++ approved }
    | .loopObserved | .planningCompleted | .loopActed | .loopVerified
    | .verifierPolicyUpdated | .loopRewarded =>
      (requiredSuccessorKind event.kind none).map fun expected =>
        { expected := expected, parent := event.id, sourceKind := event.kind,
          note := successorNote event.kind }
    | _ => none

/-! ### The two tables agree -/

/-- Every obligation names its own event and that event's kind. -/
theorem requiredSuccessor_source {e : CanonEvent} {p : PendingTransition}
    (h : requiredSuccessor e = some p) : p.parent = e.id ∧ p.sourceKind = e.kind := by
  unfold requiredSuccessor at h
  split at h
  · cases h
  · split at h <;> simp only [Option.some.injEq, Option.bind_eq_some_iff,
      Option.map_eq_some_iff, reduceCtorEq] at h
    · subst h; exact ⟨rfl, rfl⟩
    · obtain ⟨_, _, _, _, rfl⟩ := h; exact ⟨rfl, rfl⟩
    all_goals (obtain ⟨_, _, rfl⟩ := h; exact ⟨rfl, rfl⟩)

theorem requiredSuccessorKind_mem_allowedNext {kind next : EventKind} {route : Option String}
    (h : requiredSuccessorKind kind route = some next) : next ∈ kind.allowedNext := by
  unfold requiredSuccessorKind at h
  split at h
  · cases h
  · cases kind <;> simp only [Option.some.injEq, reduceCtorEq] at h <;>
      first
        | (subst h; decide)
        | (split at h <;> simp only [Option.some.injEq, reduceCtorEq] at h <;> subst h <;> decide)

/-- What an obligation asks for is a transition the other table allows. -/
theorem requiredSuccessor_mem_allowedNext {e : CanonEvent} {p : PendingTransition}
    (h : requiredSuccessor e = some p) : p.expected ∈ e.kind.allowedNext := by
  unfold requiredSuccessor at h
  split at h
  · cases h
  · split at h <;> rename_i hk <;> simp only [Option.some.injEq, Option.bind_eq_some_iff,
      Option.map_eq_some_iff, reduceCtorEq] at h
    · subst h
      show EventKind.loopObserved ∈ e.kind.allowedNext
      rw [hk]; decide
    · obtain ⟨_, _, _, hnext, rfl⟩ := h
      exact requiredSuccessorKind_mem_allowedNext hnext
    all_goals
      obtain ⟨_, hnext, rfl⟩ := h
      exact requiredSuccessorKind_mem_allowedNext hnext

theorem validateTransition_ok_iff {prev next : CanonEvent} :
    validateTransition prev next = .ok () ↔
      (prev.isControl = true → next.isControl = true → next.kind ∈ prev.kind.allowedNext) := by
  unfold validateTransition CanonEvent.isControl
  by_cases hp : prev.kind.eventClass = .control <;>
    by_cases hn : next.kind.eventClass = .control <;>
    by_cases hm : next.kind ∈ prev.kind.allowedNext <;> simp [hp, hn, hm]

end Canon.Tlog
