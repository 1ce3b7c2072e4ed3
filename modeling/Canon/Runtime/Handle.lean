import Canon.Runtime.Append

/-! # Handling an event

    `handle_runtime_event_located_with_parents` and `drain_emitted_events`, which call each
    other: handling an event ends in draining what the consumers emitted meanwhile, and
    draining handles one emitted event after the other.

    `handleCore` is the part of the first in front of the drain.  What another thread emits
    while an event is handled counts as emitted by a consumer.
-/

namespace Canon.Runtime

open Canon.Tlog

/-! ### Mode and parents -/

/-- A recovery signal ends the halt; a fatal violation begins one. -/
def modeAfter (mode : RuntimeMode) (event : RuntimeEvent) : RuntimeMode :=
  let mode := if (recoverySignalReason event).isSome then .running else mode
  match fatalInvariantReason event with
  | some reason => .fatalInvariantHalt reason
  | none => mode

def changesMode (event : RuntimeEvent) : Bool :=
  (recoverySignalReason event).isSome || (fatalInvariantReason event).isSome

def runtimeModeUpdatePayload : RuntimeMode → Json
  | .running => .obj [("fatal_invariant", .bool false), ("runtime_mode", .str "running")]
  | .fatalInvariantHalt reason =>
    .obj [("fatal_invariant", .bool true), ("fatal_invariant_reason", .str reason),
      ("runtime_mode", .str "fatal_invariant_halt")]

def isLawfulRootSeed : RuntimeEvent → Bool
  | .tick .. | .routeTick .. | .routeSelected .. => true
  | _ => false

/-- `validate_before_append`: the error, if there is one. -/
def validateBeforeAppend (event : RuntimeEvent) (parentIds : List String) : Option String :=
  let kind := event.eventKindStr
  if kind = "" then some "invalid_event_kind"
  else if kind ≠ "root" && !isLawfulRootSeed event && parentIds.isEmpty then
    some "missing_parent_ids"
  else if kind = "effect" && parentIds.isEmpty then some "orphan_effect_event"
  else none

/-- The panic of a route tick that names no tick. -/
def missingTickParent (event : RuntimeEvent) (parentIds : List String) : Option String :=
  match event with
  | .routeTick tick _ =>
    if parentIds.isEmpty then some s!"[FATAL] RouteTick emitted without parent_ids (tick={tick})"
    else none
  | _ => none

/-- The error event made of a failure. -/
def derivedEvent : RuntimeEvent → Option RuntimeEvent
  | .capabilityFailed requestId capability error =>
    some (.errorOccurred (newErrorOccurred "capability_failed" "event-runtime" error "error"
      (.obj [("capability", .str capability), ("request_id", .str requestId)])))
  | .nodeFailed error context =>
    some (.errorOccurred (newErrorOccurred "node_failed" "agent-consumer"
      (error.getD "node_failed") "error" context))
  | .code _ _ (.panicCaptured message context) _ =>
    some (.errorOccurred (newErrorOccurred "panic_captured" "rustc" message "error" context))
  | .code _ _ (.invariantViolation message) _ =>
    some (.errorOccurred (newErrorOccurred "invariant_violation" "rustc" message "error"
      (.obj [])))
  | _ => none

section Handle

variable {κ η ι : Type}

def EventRuntime.parentsFor (rt : EventRuntime κ η ι) (parentIds : List String) : List String :=
  if parentIds.isEmpty then rt.lastWrittenEventId.toList else parentIds

/-- A halted runtime blocks what is neither on its list nor a control event. -/
def EventRuntime.blocks (rt : EventRuntime κ η ι) (event : RuntimeEvent) : Bool :=
  rt.isFatalHaltActive && !event.isAllowedDuringFatalHalt && !event.isControl

variable (env : RuntimeEnv κ η ι)
variable (rt : EventRuntime κ η ι) (event : RuntimeEvent) (parentIds : List String)
    (eventId : String)

/-- The event is on its way: its mode holds from here on, and it has an id. -/
def enter :
    EventRuntime κ η ι :=
  { rt with
    mode := modeAfter rt.mode event
    observedEvents := rt.observedEvents ++ [event]
    dispatchedIds := insert (env.fresh rt.calls).eventId rt.dispatchedIds
    calls := rt.calls + 1
    trail := rt.trail ++ [.handled event parentIds rt.lastLoopObservedTick] }

/-! ### Dispatch -/

def dispatchLive :
    Step κ η ι :=
  let d := dispatch env.bus rt.emitterReplayBlocked rt.bus event eventId
  let rt := ({ rt with bus := d.bus } : EventRuntime κ η ι).emitAll d.emitted
  match d.panicked with
  | some message => .panic rt message
  | none => .ok { rt with dispatches := rt.dispatches ++ [(rt.isFatalHaltActive, event)] }

/-- The event itself; a loud one that nobody receives is an error. -/
def dispatchPrimary :
    Step κ η ι :=
  let received := (dispatch env.bus rt.emitterReplayBlocked rt.bus event eventId).delivered
  (dispatchLive env rt event eventId).andThen fun rt =>
    if received.isEmpty && !event.isSilent then
      { runtime := rt, status := .err "dispatch failure: no consumers received event" }
    else .ok rt

/-- A change of mode is told to the consumers, but not to the log. -/
def dispatchModeUpdate (rt : EventRuntime κ η ι) :
    Step κ η ι :=
  if changesMode event then
    dispatchLive env rt (.runtimeStateUpdated (runtimeModeUpdatePayload rt.mode)) eventId
  else .ok rt

def keepRuntimeState (rt : EventRuntime κ η ι) : EventRuntime κ η ι :=
  match event with
  | .runtimeStateUpdated payload => { rt with runtimeState := payload }
  | _ => rt

def dispatchDerived (rt : EventRuntime κ η ι) :
    Step κ η ι :=
  match derivedEvent event with
  | some err => dispatchLive env (keepRuntimeState event rt) err eventId
  | none => .ok (keepRuntimeState event rt)

def dispatchAll (fresh : Fresh) (event : RuntimeEvent) (rt : EventRuntime κ η ι) : Step κ η ι :=
  ((dispatchPrimary env rt event fresh.eventId).andThen
    (dispatchModeUpdate env event fresh.modeUpdateId)).andThen
      (dispatchDerived env event fresh.derivedId)

/-! ### Handling and draining -/

/-- `drains` says that the emitted events are drained next. -/
structure Handled (κ η ι : Type) where
  step : Step κ η ι
  drains : Bool

def handleCore (file : String) (line : Nat) (parentIds : List String) : Handled κ η ι :=
  let parentIds := rt.parentsFor parentIds
  match missingTickParent event parentIds with
  | some message => { step := .panic rt message, drains := false }
  | none =>
    if rt.blocks event then { step := .ok rt, drains := false }
    else
      let fresh := env.fresh rt.calls
      let rt := enter env rt event parentIds
      match if event.isControl then none else validateBeforeAppend event parentIds with
      | some reason =>
        -- Rejected in front of the log, and the runtime halts.
        { step := .ok { rt with mode := .fatalInvariantHalt reason }, drains := false }
      | none =>
        let s := appendRuntimeEvent env fresh rt event file line parentIds
        if s.runtime.bus.syncConsumers.isEmpty then { step := s, drains := false }
        else { step := s.andThen (dispatchAll env fresh event), drains := true }

/-- While a replay is on, only control and debug events leave the queue alive. -/
def EventRuntime.drops : Bool :=
  rt.emitterReplayBlocked && !event.passesReplay

/-- `drain_emitted_events`.  The first inner drain is the one an event ends with, the
    second one is the rest of the loop. -/
def drain : Nat → EventRuntime κ η ι → Step κ η ι
  | 0, rt => { runtime := rt, status := .unfinished }
  | fuel + 1, rt =>
    match rt.emitterRx with
    | [] => .ok rt
    | l :: rest =>
      let rt := { rt with emitterRx := rest }
      if rt.drops l.event then drain fuel rt
      else
        let h := handleCore env rt l.event l.file l.line l.parentIds
        (if h.drains then h.step.andThen (drain fuel) else h.step).andThen (drain fuel)

def handle (fuel : Nat) (rt : EventRuntime κ η ι) (event : RuntimeEvent) (file : String)
    (line : Nat) (parentIds : List String) : Step κ η ι :=
  let h := handleCore env rt event file line parentIds
  if h.drains then h.step.andThen (drain env fuel) else h.step

/-! ### What the dispatches do -/

/-- Only the bus, the queue and the list of dispatches change, and what was dispatched is
    `event` or comes with it. -/
structure DispatchedFor (event : RuntimeEvent) (rt rt' : EventRuntime κ η ι) : Prop where
  same : SameLog rt rt'
  runtimeTick : rt'.runtimeTick = rt.runtimeTick
  dispatches : ∀ d ∈ rt'.dispatches, d ∈ rt.dispatches ∨
    d.1 = rt.isFatalHaltActive ∧
      (d.2 = event ∨ d.2.kind = .runtimeStateUpdated ∨ d.2.kind = .errorOccurred)

theorem DispatchedFor.refl (rt : EventRuntime κ η ι) :
    DispatchedFor event rt rt :=
  ⟨.refl rt, rfl, fun _ hd => .inl hd⟩

theorem DispatchedFor.trans {event : RuntimeEvent} {rt rt' rt'' : EventRuntime κ η ι}
    (h : DispatchedFor event rt rt') (h' : DispatchedFor event rt' rt'') :
    DispatchedFor event rt rt'' := by
  refine ⟨h.same.trans h'.same, h'.runtimeTick.trans h.runtimeTick, ?_⟩
  intro d hd
  rcases h'.dispatches d hd with hd | ⟨hhalted, hkind⟩
  · exact h.dispatches d hd
  · refine .inr ⟨?_, hkind⟩
    rw [hhalted, EventRuntime.isFatalHaltActive, EventRuntime.isFatalHaltActive, h.same.mode]

theorem dispatchLive_for {event e : RuntimeEvent}
    (h : e = event ∨ e.kind = .runtimeStateUpdated ∨ e.kind = .errorOccurred)
    (rt : EventRuntime κ η ι) (eventId : String) :
    DispatchedFor event rt (dispatchLive env rt e eventId).runtime := by
  unfold dispatchLive
  dsimp only
  split
  · exact ⟨⟨rfl, rfl, rfl, rfl, rfl⟩, rfl, fun _ hd => .inl hd⟩
  · refine ⟨⟨rfl, rfl, rfl, rfl, rfl⟩, rfl, ?_⟩
    intro d hd
    rcases List.mem_append.mp hd with hd | hd
    · exact .inl hd
    · rw [List.mem_singleton.mp hd]
      exact .inr ⟨rfl, h⟩

theorem derivedEvent_kind {event err : RuntimeEvent} (h : derivedEvent event = some err) :
    err.kind = .errorOccurred := by
  unfold derivedEvent at h
  split at h <;> cases h <;> rfl

theorem keepRuntimeState_for (event e : RuntimeEvent) (rt : EventRuntime κ η ι) :
    DispatchedFor event rt (keepRuntimeState e rt) := by
  cases e <;> exact ⟨⟨rfl, rfl, rfl, rfl, rfl⟩, rfl, fun _ hd => .inl hd⟩

theorem dispatchAll_for (fresh : Fresh) (event : RuntimeEvent) (rt : EventRuntime κ η ι) :
    DispatchedFor event rt (dispatchAll env fresh event rt).runtime := by
  unfold dispatchAll
  refine Step.andThen_runtime (I := DispatchedFor event rt) ?_ ?_
  · refine Step.andThen_runtime (I := DispatchedFor event rt) ?_ ?_
    · unfold dispatchPrimary
      refine Step.andThen_runtime (I := DispatchedFor event rt)
        (dispatchLive_for env (.inl rfl) rt _) ?_
      intro rt' h
      split <;> exact h
    · intro rt' h
      unfold dispatchModeUpdate
      split
      · exact h.trans (dispatchLive_for env (.inr (.inl rfl)) rt' _)
      · exact h
  · intro rt' h
    unfold dispatchDerived
    have hkept := h.trans (keepRuntimeState_for event event rt')
    split
    · rename_i err herr
      exact hkept.trans (dispatchLive_for env (.inr (.inr (derivedEvent_kind herr))) _ _)
    · exact hkept

/-! ### What handling an event does -/

/-- What the part in front of the drain can do. -/
inductive CoreEnd (rt : EventRuntime κ η ι) (event : RuntimeEvent) (file : String) (line : Nat)
    (parentIds : List String) : Step κ η ι → Prop where
  | skipped (status : Status) (why : rt.blocks event = true ∨
        event.kind = .routeTick ∧ rt.parentsFor parentIds = []) :
      CoreEnd rt event file line parentIds { runtime := rt, status := status }
  | rejected (reason : String) (open_ : rt.blocks event = false)
      (control : event.isControl = false)
      (invalid : validateBeforeAppend event (rt.parentsFor parentIds) = some reason) :
      CoreEnd rt event file line parentIds
        (.ok { enter env rt event (rt.parentsFor parentIds) with
          mode := .fatalInvariantHalt reason })
  | appended (s : Step κ η ι) (open_ : rt.blocks event = false)
      (valid : event.isControl = true ∨
        validateBeforeAppend event (rt.parentsFor parentIds) = none)
      (dispatched : DispatchedFor event
        (appendRuntimeEvent env (env.fresh rt.calls) (enter env rt event (rt.parentsFor parentIds))
          event file line (rt.parentsFor parentIds)).runtime s.runtime)
      (returned : s.status.returned = true →
        (appendRuntimeEvent env (env.fresh rt.calls) (enter env rt event (rt.parentsFor parentIds))
          event file line (rt.parentsFor parentIds)).status.returned = true) :
      CoreEnd rt event file line parentIds s

theorem handleCore_end (file : String) (line : Nat) (parentIds : List String) :
    CoreEnd env rt event file line parentIds
      (handleCore env rt event file line parentIds).step := by
  unfold handleCore
  dsimp only
  split
  · rename_i message hmissing
    refine .skipped _ (.inr ?_)
    unfold missingTickParent at hmissing
    split at hmissing
    · split at hmissing
      · exact ⟨rfl, List.isEmpty_iff.mp ‹_›⟩
      · cases hmissing
    · cases hmissing
  · split
    · exact .skipped _ (.inl ‹_›)
    · rename_i hblocks
      rw [Bool.not_eq_true] at hblocks
      split
      · rename_i reason hinvalid
        cases hcontrol : event.isControl with
        | true => simp [hcontrol] at hinvalid
        | false =>
          simp only [hcontrol, Bool.false_eq_true, if_false] at hinvalid
          exact .rejected reason hblocks hcontrol hinvalid
      · rename_i hvalid
        have hvalid : event.isControl = true ∨
            validateBeforeAppend event (rt.parentsFor parentIds) = none := by
          cases hcontrol : event.isControl with
          | true => exact .inl rfl
          | false =>
            simp only [hcontrol, Bool.false_eq_true, if_false] at hvalid
            exact .inr hvalid
        split
        · exact .appended _ hblocks hvalid (.refl event _) id
        · refine .appended _ hblocks hvalid ?_ ?_
          · exact Step.andThen_runtime (.refl event _) fun rt' h =>
              h.trans (dispatchAll_for env _ event rt')
          · intro hreturned
            by_cases hok : (appendRuntimeEvent env (env.fresh rt.calls)
                (enter env rt event (rt.parentsFor parentIds)) event file line
                (rt.parentsFor parentIds)).status = .ok
            · rw [hok]
              rfl
            · rwa [Step.andThen_of_ne_ok hok] at hreturned

theorem handleCore_runtimeTick (file : String) (line : Nat) (parentIds : List String) :
    (handleCore env rt event file line parentIds).step.runtime.runtimeTick = rt.runtimeTick := by
  have hend := handleCore_end env rt event file line parentIds
  generalize (handleCore env rt event file line parentIds).step = out at hend ⊢
  cases hend with
  | skipped status why => rfl
  | rejected reason hopen hcontrol hinvalid => rfl
  | appended out hopen hvalid hdispatched hreturned =>
    exact hdispatched.runtimeTick.trans (appendRuntimeEvent_sameBus ..).runtimeTick

/-! ### What draining keeps -/

variable {I D : EventRuntime κ η ι → Prop}

/-- What taking an event from the queue and handling it keeps, draining keeps. -/
theorem drain_keeps (hweaken : ∀ rt, I rt → D rt)
    (hqueue : ∀ rt queue, I rt → I { rt with emitterRx := queue })
    (hcore : ∀ rt event file line parentIds, I rt →
      (handleCore env rt event file line parentIds).step.Keeps I D)
    (fuel : Nat) (rt : EventRuntime κ η ι) (h : I rt) : (drain env fuel rt).Keeps I D := by
  induction fuel generalizing rt with
  | zero => exact .of_forall hweaken h
  | succ fuel ih =>
    unfold drain
    split
    · exact .of_forall hweaken h
    · rename_i l rest hrx
      have hpopped := hqueue rt rest h
      dsimp only
      split
      · exact ih _ hpopped
      · have hhandled := hcore _ l.event l.file l.line l.parentIds hpopped
        refine Step.Keeps.andThen ?_ ih
        split
        · exact hhandled.andThen ih
        · exact hhandled

theorem handle_keeps (hweaken : ∀ rt, I rt → D rt)
    (hqueue : ∀ rt queue, I rt → I { rt with emitterRx := queue })
    (hcore : ∀ rt event file line parentIds, I rt →
      (handleCore env rt event file line parentIds).step.Keeps I D)
    (fuel : Nat) (rt : EventRuntime κ η ι) (event : RuntimeEvent) (file : String) (line : Nat)
    (parentIds : List String) (h : I rt) :
    (handle env fuel rt event file line parentIds).Keeps I D := by
  have hhandled := hcore rt event file line parentIds h
  unfold handle
  dsimp only
  split
  · exact hhandled.andThen (drain_keeps env hweaken hqueue hcore fuel)
  · exact hhandled

end Handle

end Canon.Runtime
