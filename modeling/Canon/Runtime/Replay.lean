import Canon.Tlog.Replayed
import Canon.Runtime.Live

/-! # Replay of a log

    `process_path` and `process_events` of the runtime's `lib.rs`.  An entry of the log
    that the runtime did not dispatch itself goes to the consumers through
    `handle_replayed_event`, which writes nothing and lifts the replay flag when it is done.

    A compiler event takes another way.  It is handled like a live one, and the append
    does not look at the flag.
-/

namespace Canon.Runtime

open Canon.Tlog

/-! ### Entries -/

inductive AnyEvent where
  | canon (event : CanonEvent)
  | code (event : KernelEvent)

/-- A runtime together with what serde makes of the data of an entry. -/
structure ReplayEnv (κ η ι : Type) extends RuntimeEnv κ η ι where
  parseRustcEventValue : Json → Option KernelEvent
  parseErrorOccurred : Json → Option ErrorOccurred
  parseCapabilityFailed : Json → Option (String × String × String)
  parseLoopObserved : Json → Option (Nat × Json)
  parseRouteSelected : Json → Option (Nat × Json)
  parseRouteTick : Json → Option (Nat × Bool)
  parsePlain : PlainKind → Json → Option Json

def extractRustcEvent (parse : Json → Option KernelEvent) (canon : CanonEvent) :
    Option KernelEvent :=
  if canon.kind = .code then parse canon.payload.data else none

section Process

variable {κ η ι : Type} (env : ReplayEnv κ η ι)
variable (fuel : Nat) (canon : CanonEvent) (rt : EventRuntime κ η ι)

def replayedPlain (kind : PlainKind) (canon : CanonEvent) : Option RuntimeEvent :=
  (env.parsePlain kind canon.payload.data).map (.plain kind)

/-- What is replayed for an entry that is no compiler event.  One more arm of the source
    waits for `runtime_state.updated`, which no kind is called. -/
def replayedEvent : Option RuntimeEvent :=
  let data := canon.payload.data
  match canon.kind with
  | .edit => replayedPlain env .edit canon
  | .promptLoaded =>
    if canon.actor ≠ "event-runtime" then
      some (.plain .promptLoaded (.obj [("payload", (data.get "data").getD data)]))
    else none
  | .capabilityCompleted => replayedPlain env .capabilityCompleted canon
  | .capabilityFailed =>
    (env.parseCapabilityFailed data).map fun p => .capabilityFailed p.1 p.2.1 p.2.2
  | .errorOccurred => (env.parseErrorOccurred data).map .errorOccurred
  | .loopObserved => (env.parseLoopObserved data).map fun p => .loopObserved p.1 p.2
  | .loopPlanned => replayedPlain env .loopPlanned canon
  | .planningCompleted => replayedPlain env .planningCompleted canon
  | .routeSelected => (env.parseRouteSelected data).map fun p => .routeSelected p.1 p.2
  | .loopActed => replayedPlain env .loopActed canon
  | .loopVerified => replayedPlain env .loopVerified canon
  | .verifierPolicyUpdated => replayedPlain env .verifierPolicyUpdated canon
  | .loopRewarded => replayedPlain env .loopRewarded canon
  | .agentRegistered => replayedPlain env .agentRegistered canon
  | .subTaskResult => replayedPlain env .subTaskResult canon
  | .routeTick => (env.parseRouteTick data).map fun p => .routeTick p.1 p.2
  | .invariantDiscovered => replayedPlain env .invariantDiscovered canon
  | _ => none

/-! ### One replayed event -/

/-- The error event of a failed capability is not made again, only noted. -/
def suppressedDerived : RuntimeEvent → List RuntimeEvent
  | .capabilityFailed .. =>
    [.debug
      { source := "event-runtime"
        kind := "replay_suppressed_derived_event"
        payload := .obj [("replayed_kind", .str "capability_failed"),
          ("suppressed_kind", .str "error_occurred")] }]
  | _ => []

/-- `handle_replayed_event`.  It leaves the flag down, be it up or not when it begins. -/
def handleReplayedEvent (event : RuntimeEvent) : Step κ η ι :=
  let eventId := (env.fresh rt.calls).eventId
  let rt := { rt with observedEvents := rt.observedEvents ++ [event], calls := rt.calls + 1 }
  if rt.bus.syncConsumers.isEmpty then
    { runtime := rt
      status := .err ("replay dispatch failure: no consumers registered for kind="
        ++ event.eventKindStr) }
  else
    let received := (dispatch env.bus true rt.bus event eventId).delivered
    (dispatchLive env.toRuntimeEnv { rt with emitterReplayBlocked := true } event eventId).andThen
      fun rt =>
    let rt := { rt with emitterReplayBlocked := false }
    if received.isEmpty && !event.isSilent then
      { runtime := rt
        status := .err (s!"replay dispatch failure: event kind={event.eventKindStr} id={eventId} "
          ++ "delivered to 0 consumers") }
    else
      .ok { keepRuntimeState event rt with
        observedEvents := rt.observedEvents ++ suppressedDerived event }

def replay (event : RuntimeEvent) (rt : EventRuntime κ η ι) : Step κ η ι :=
  (handleReplayedEvent env rt event).andThen (drain env.toRuntimeEnv fuel)

/-- An observation that was kept back follows the route of its tick. -/
def replayPending (event : RuntimeEvent) (rt : EventRuntime κ η ι) : Step κ η ι :=
  match event, rt.pendingLoopObserved with
  | .routeSelected tick _, some (observed, data) =>
    if observed = tick then
      replay env fuel (.loopObserved observed data) { rt with pendingLoopObserved := none }
    else .ok rt
  | _, _ => .ok rt

/-! ### The log -/

/-- The writer learns of the entry; a writer that never gave back its lock is waited for. -/
def notifyWriter : Step κ η ι :=
  match rt.tlog with
  | none => .ok rt
  | some log =>
    match log.writer with
    | none => { runtime := rt, status := .stuck }
    | some writer =>
      .ok { rt with tlog := some { log with writer := some (notifyReplayedEvent writer canon) } }

def replayCanon : Step κ η ι :=
  match extractRustcEvent env.parseRustcEventValue canon with
  | some kernel =>
    (handleKernelEvent env.toRuntimeEnv fuel rt kernel).andThen (drain env.toRuntimeEnv fuel)
  | none =>
    match replayedEvent env canon with
    | some event => (replay env fuel event rt).andThen (replayPending env fuel event)
    | none => .ok rt

/-- One turn of the loop of `process_events`. -/
def processEvent : AnyEvent → Step κ η ι
  | .code _ => .ok rt
  | .canon canon =>
    if canon.id ∈ rt.dispatchedIds then
      .ok { rt with dispatchedIds := rt.dispatchedIds.erase canon.id }
    else (notifyWriter canon rt).andThen (replayCanon env fuel canon)

def replayMachine : Machine (Step κ η ι) AnyEvent where
  step s event := s.andThen fun rt => processEvent env fuel rt event

/-- The stages of the loop run with an emitter that drops everything, so what they do does
    not reach the runtime.  What their subprocesses do outside it is left out. -/
def driveLoop : Step κ η ι :=
  let drained := rt.observedEvents
  let rt := { rt with observedEvents := [] }
  if drained.isEmpty || rt.emitterReplayBlocked then .ok rt else drain env.toRuntimeEnv fuel rt

def processEvents (events : List AnyEvent) : Step κ η ι :=
  ((replayMachine env fuel).run (drain env.toRuntimeEnv fuel rt) events).andThen
    (driveLoop env fuel)

/-- `process_path` on what the reader gave. -/
def processPath : Except String (List AnyEvent) → Step κ η ι
  | .error message => { runtime := rt, status := .err message }
  | .ok events =>
    let s := processEvents env fuel { rt with emitterReplayBlocked := true } events
    if s.status.returned then
      { s with runtime := { s.runtime with emitterReplayBlocked := false } }
    else s

end Process

/-! ### What a replay may meet -/

/-- A decision the bus has nothing to report about, or panics over. -/
def isSettled (decision : HookDecision) (event : RuntimeEvent) : Bool :=
  match decision with
  | .allow => true
  | .deny _ => event.isProtectedControlEvent
  | .mutate replacement =>
    event.isProtectedControlEvent || replacement.isProtectedControlEvent

/-- The hooks are asked about one event after the other. -/
def hooksPass {κ η : Type} (env : BusEnv κ η) : List η → List RuntimeEvent → Bool
  | _, [] => true
  | hooks, event :: rest =>
    let asked := runPre env hooks event
    isSettled asked.2.decision event && hooksPass env asked.1 rest

/-- Consumers that emit only when no replay is on: they emit nothing in it, and an error
    they answer with is not one that the emitter lets through. -/
structure SilentInReplay {κ η : Type} (env : BusEnv κ η) : Prop where
  emitted : ∀ consumer event eventId, (env.onEvent true consumer event eventId).2.2 = []
  error : ∀ consumer event eventId err file line,
    (env.onEvent true consumer event eventId).2.1 = .error err file line →
      err.passesReplay = false

section ReadOnly

variable {κ η ι : Type}

/-- The events to be replayed for an entry. -/
def replaysOf (env : ReplayEnv κ η ι) (rt : EventRuntime κ η ι) (canon : CanonEvent) :
    List RuntimeEvent :=
  match replayedEvent env canon with
  | none => []
  | some event =>
    match event, rt.pendingLoopObserved with
    | .routeSelected tick _, some (observed, data) =>
      if observed = tick then [event, .loopObserved observed data] else [event]
    | _, _ => [event]

/-- An entry whose turn writes nothing: a compiler event that is refused, or comes before
    anything was written, or an event the hooks have nothing against. -/
def PassiveEntry (env : ReplayEnv κ η ι) (rt : EventRuntime κ η ι) (canon : CanonEvent) : Prop :=
  match extractRustcEvent env.parseRustcEventValue canon with
  | some kernel =>
    rt.lastWrittenEventId = none ∨ ¬ Accepted rt.state (numberEvent rt kernel).2
  | none =>
    rt.bus.syncConsumers = [] ∨ hooksPass env.bus rt.bus.hooks (replaysOf env rt canon) = true

/-- The turn comes only if the runtime did not dispatch the entry itself. -/
def Passive (env : ReplayEnv κ η ι) (rt : EventRuntime κ η ι) : AnyEvent → Prop
  | .code _ => True
  | .canon canon => canon.id ∈ rt.dispatchedIds ∨ PassiveEntry env rt canon

/-! ### What stays as it was -/

/-- The log is as it was, on disk and by its events. -/
structure SameFiles (rt rt' : EventRuntime κ η ι) : Prop where
  dir : rt'.tlog.map (·.dir) = rt.tlog.map (·.dir)
  log : rt'.log = rt.log

theorem SameFiles.of_tlog {rt rt' : EventRuntime κ η ι} (h : rt'.tlog = rt.tlog) :
    SameFiles rt rt' :=
  ⟨by rw [h], by rw [EventRuntime.log, EventRuntime.log, h]⟩

theorem SameFiles.trans {rt rt' rt'' : EventRuntime κ η ι} (h : SameFiles rt rt')
    (h' : SameFiles rt' rt'') : SameFiles rt rt'' :=
  ⟨h'.dir.trans h.dir, h'.log.trans h.log⟩

/-- Besides, nothing waits to be handled. -/
structure Idle (rt rt' : EventRuntime κ η ι) : Prop where
  files : SameFiles rt rt'
  queue : rt'.emitterRx = []

theorem Idle.frame {rt rt' r : EventRuntime κ η ι} (h : Idle rt rt')
    (htlog : r.tlog = rt'.tlog) (hqueue : r.emitterRx = rt'.emitterRx) : Idle rt r :=
  ⟨h.files.trans (.of_tlog htlog), hqueue.trans h.queue⟩

/-- Draining an empty queue changes nothing. -/
theorem drain_ends_of_empty (env : RuntimeEnv κ η ι) (fuel : Nat) {I D : EventRuntime κ η ι → Prop}
    {rt : EventRuntime κ η ι} (hempty : rt.emitterRx = []) (hI : I rt) (hD : D rt) :
    (drain env fuel rt).Ends I D := by
  cases fuel with
  | zero => exact ⟨hD, fun hok => by cases hok⟩
  | succ fuel =>
    unfold drain
    rw [hempty]
    exact ⟨hD, fun _ => hI⟩

theorem Idle.drain {rt rt' : EventRuntime κ η ι} (h : Idle rt rt') (env : RuntimeEnv κ η ι)
    (fuel : Nat) : (drain env fuel rt').Ends (Idle rt) (SameFiles rt) :=
  drain_ends_of_empty env fuel h.queue h h.files

/-- With the flag up, a queue of events that do not pass it empties without a trace. -/
theorem drain_drops (env : RuntimeEnv κ η ι) (fuel : Nat) {rt : EventRuntime κ η ι}
    (hblocked : rt.emitterReplayBlocked = true)
    (hqueue : ∀ l ∈ rt.emitterRx, l.event.passesReplay = false) :
    (drain env fuel rt).Ends (Idle rt) (SameFiles rt) := by
  induction fuel generalizing rt with
  | zero => exact ⟨.of_tlog rfl, fun h => by cases h⟩
  | succ fuel ih =>
    unfold drain
    split
    · rename_i hempty
      exact ⟨.of_tlog rfl, fun _ => ⟨.of_tlog rfl, hempty⟩⟩
    · rename_i l rest hrx
      have hdrops : ({ rt with emitterRx := rest } : EventRuntime κ η ι).drops l.event = true := by
        have hl := hqueue l (by rw [hrx]; exact List.mem_cons_self)
        simp [EventRuntime.drops, hblocked, hl]
      dsimp only
      rw [if_pos hdrops]
      have hrest : (drain env fuel { rt with emitterRx := rest }).Ends
          (Idle { rt with emitterRx := rest }) (SameFiles { rt with emitterRx := rest }) :=
        ih hblocked fun l' hl' => hqueue l' (by rw [hrx]; exact List.mem_cons_of_mem l hl')
      have hpopped : SameFiles rt { rt with emitterRx := rest } := .of_tlog rfl
      exact ⟨hpopped.trans hrest.always, fun hok =>
        ⟨hpopped.trans (hrest.ok hok).files, (hrest.ok hok).queue⟩⟩

/-! ### A replayed event -/

theorem SilentInReplay.deliver {env : BusEnv κ η} (h : SilentInReplay env) (event : RuntimeEvent)
    (eventId : String) (consumers : List κ) :
    ∀ l ∈ (deliver env true event eventId consumers).2, l.event.passesReplay = false := by
  induction consumers with
  | nil => simp [Canon.Runtime.deliver]
  | cons consumer rest ih =>
    intro l hl
    unfold Canon.Runtime.deliver at hl
    dsimp only at hl
    rw [h.emitted consumer event eventId, List.nil_append, List.mem_append] at hl
    rcases hl with hl | hl
    · cases hanswer : (env.onEvent true consumer event eventId).2.1 with
      | noOp reason =>
        rw [hanswer] at hl
        cases hl
      | error err file line =>
        rw [hanswer, List.mem_singleton] at hl
        rw [hl]
        exact h.error consumer event eventId err file line hanswer
    · exact ih l hl

theorem reportDecision_of_isSettled (bus : Bus κ η) {report : PreHookReport}
    {event : RuntimeEvent} (h : isSettled report.decision event = true) (eventId : String)
    (hgoes : (reportDecision bus report event eventId).2 = none) :
    (reportDecision bus report event eventId).1 = [] := by
  unfold reportDecision at hgoes ⊢
  cases hdecision : report.decision with
  | allow => rfl
  | deny reason =>
    rw [hdecision, isSettled] at h
    simp [hdecision, h] at hgoes
  | mutate replacement =>
    rw [hdecision, isSettled] at h
    simp [hdecision, h] at hgoes

/-- A dispatch in a replay that does not panic puts nothing into the queue. -/
theorem SilentInReplay.dispatch {env : BusEnv κ η} (h : SilentInReplay env) (bus : Bus κ η)
    {event : RuntimeEvent}
    (hsettled : isSettled (runPre env bus.hooks event).2.decision event = true)
    (eventId : String) (hgoes : (dispatch env true bus event eventId).panicked = none) :
    ∀ l ∈ (dispatch env true bus event eventId).emitted, l.event.passesReplay = false := by
  unfold Canon.Runtime.dispatch at hgoes ⊢
  dsimp only at hgoes ⊢
  split at hgoes
  · cases hgoes
  · rename_i hnone
    rw [reportDecision_of_isSettled bus hsettled eventId hnone]
    exact h.deliver event eventId bus.syncConsumers

theorem dispatch_hooks (env : BusEnv κ η) (replaying : Bool) (bus : Bus κ η)
    (event : RuntimeEvent) (eventId : String) :
    (dispatch env replaying bus event eventId).bus.hooks = (runPre env bus.hooks event).1 := by
  unfold dispatch
  dsimp only
  split <;> rfl

/-- What the replay of `event` leaves to a second one. -/
structure Replayed (env : BusEnv κ η) (rt₀ rt : EventRuntime κ η ι) (event : RuntimeEvent)
    (rt' : EventRuntime κ η ι) : Prop where
  idle : Idle rt₀ rt'
  consumers : rt'.bus.syncConsumers.length = rt.bus.syncConsumers.length
  hooks : rt'.bus.hooks = (runPre env rt.bus.hooks event).1
  pendingLoopObserved : rt'.pendingLoopObserved = rt.pendingLoopObserved

theorem keepRuntimeState_replayed {env : BusEnv κ η} {rt₀ rt rt' : EventRuntime κ η ι}
    {event : RuntimeEvent} (h : Replayed env rt₀ rt event rt') (e : RuntimeEvent) :
    Replayed env rt₀ rt event (keepRuntimeState e rt') := by
  cases e <;> exact ⟨h.idle.frame rfl rfl, h.consumers, h.hooks, h.pendingLoopObserved⟩

variable {env : ReplayEnv κ η ι}
variable {event : RuntimeEvent}

/-- The dispatch of a replayed event, with the flag up. -/
theorem Idle.dispatchLive {rt₀ rt : EventRuntime κ η ι} (h : Idle rt₀ rt)
    (hsilent : SilentInReplay env.bus) (hblocked : rt.emitterReplayBlocked = true)
    {event : RuntimeEvent}
    (hsettled : isSettled (runPre env.bus rt.bus.hooks event).2.decision event = true)
    (eventId : String) :
    (dispatchLive env.toRuntimeEnv rt event eventId).Ends (Replayed env.bus rt₀ rt event)
      (SameFiles rt₀) := by
  unfold Canon.Runtime.dispatchLive
  rw [hblocked]
  dsimp only
  split
  · exact ⟨h.files.trans (.of_tlog rfl), fun hok => by cases hok⟩
  · rename_i hgoes
    have hkept : (Canon.Runtime.dispatch env.bus true rt.bus event eventId).emitted.filter
        (fun l => !true || l.event.passesReplay) = [] := by
      rw [List.filter_eq_nil_iff]
      intro l hl
      simp [hsilent.dispatch rt.bus hsettled eventId hgoes l hl]
    refine ⟨h.files.trans (.of_tlog rfl), fun _ => ⟨⟨h.files.trans (.of_tlog rfl), ?_⟩,
      dispatch_consumers_length true rt.bus event eventId,
      dispatch_hooks env.bus true rt.bus event eventId, rfl⟩⟩
    simp only [EventRuntime.emitAll, Step.ok, h.queue, List.nil_append]
    exact hkept

theorem Idle.handleReplayedEvent {rt₀ rt : EventRuntime κ η ι} (h : Idle rt₀ rt)
    (hsilent : SilentInReplay env.bus) {event : RuntimeEvent}
    (hsettled : rt.bus.syncConsumers = [] ∨
      isSettled (runPre env.bus rt.bus.hooks event).2.decision event = true) :
    (handleReplayedEvent env rt event).Ends (Replayed env.bus rt₀ rt event) (SameFiles rt₀) := by
  unfold Canon.Runtime.handleReplayedEvent
  dsimp only
  split
  · exact ⟨h.files.trans (.of_tlog rfl), fun hok => by cases hok⟩
  · rename_i hconsumers
    have hsettled : isSettled (runPre env.bus rt.bus.hooks event).2.decision event = true := by
      rcases hsettled with hnone | hsettled
      · exact absurd (by rw [hnone]; rfl) hconsumers
      · exact hsettled
    have hready := h.frame (r := { rt with
      observedEvents := rt.observedEvents ++ [event], calls := rt.calls + 1
      emitterReplayBlocked := true }) rfl rfl
    apply (hready.dispatchLive hsilent rfl hsettled _).andThen
    intro rt' hrt'
    have hlowered : Replayed env.bus rt₀ rt event { rt' with emitterReplayBlocked := false } :=
      ⟨hrt'.idle.frame rfl rfl, hrt'.consumers, hrt'.hooks, hrt'.pendingLoopObserved⟩
    split
    · exact ⟨hlowered.idle.files, fun hok => by cases hok⟩
    · have hkept := keepRuntimeState_replayed hlowered event
      exact ⟨hkept.idle.files.trans (.of_tlog rfl), fun _ =>
        ⟨hkept.idle.frame rfl rfl, hkept.consumers, hkept.hooks, hkept.pendingLoopObserved⟩⟩

theorem Idle.replay {rt₀ rt : EventRuntime κ η ι} (h : Idle rt₀ rt)
    (hsilent : SilentInReplay env.bus) (fuel : Nat) {event : RuntimeEvent}
    (hsettled : rt.bus.syncConsumers = [] ∨
      isSettled (runPre env.bus rt.bus.hooks event).2.decision event = true) :
    (replay env fuel event rt).Ends (Replayed env.bus rt₀ rt event) (SameFiles rt₀) := by
  apply (h.handleReplayedEvent hsilent hsettled).andThen
  intro rt' hrt'
  exact drain_ends_of_empty env.toRuntimeEnv fuel hrt'.idle.queue hrt' hrt'.idle.files

theorem replaysOf_cons (rt : EventRuntime κ η ι) {canon : CanonEvent}
    (h : replayedEvent env canon = some event) :
    ∃ rest, replaysOf env rt canon = event :: rest := by
  unfold replaysOf
  rw [h]
  dsimp only
  split
  · split
    · exact ⟨_, rfl⟩
    · exact ⟨_, rfl⟩
  · exact ⟨_, rfl⟩

/-- An entry that is replayed, and the observation that waited for it. -/
theorem Idle.replays {rt₀ rt : EventRuntime κ η ι} (h : Idle rt₀ rt)
    (hsilent : SilentInReplay env.bus) (fuel : Nat) {canon : CanonEvent}
    (hevent : replayedEvent env canon = some event)
    (hpass : rt.bus.syncConsumers = [] ∨
      hooksPass env.bus rt.bus.hooks (replaysOf env rt canon) = true) :
    ((Canon.Runtime.replay env fuel event rt).andThen (replayPending env fuel event)).Ends
      (Idle rt₀) (SameFiles rt₀) := by
  have hfirst : rt.bus.syncConsumers = [] ∨
      isSettled (runPre env.bus rt.bus.hooks event).2.decision event = true := by
    rcases hpass with hnone | hpass
    · exact .inl hnone
    · obtain ⟨rest, hrest⟩ := replaysOf_cons rt hevent
      rw [hrest, hooksPass, Bool.and_eq_true] at hpass
      exact .inr hpass.1
  apply (h.replay hsilent fuel hfirst).andThen
  intro rt' hrt'
  unfold replayPending
  split
  · rename_i tick data observed obs hpending
    split
    · rename_i htick
      -- The hooks were asked about the route before.
      have hsecond : rt'.bus.syncConsumers = [] ∨ isSettled
          (runPre env.bus rt'.bus.hooks (.loopObserved observed obs)).2.decision
          (.loopObserved observed obs) = true := by
        rcases hpass with hnone | hpass
        · refine .inl (List.length_eq_zero_iff.mp ?_)
          rw [hrt'.consumers, hnone, List.length_nil]
        · rw [hrt'.pendingLoopObserved] at hpending
          simp only [replaysOf, hevent, hpending, if_pos htick, hooksPass, Bool.and_eq_true]
            at hpass
          rw [hrt'.hooks]
          exact .inr hpass.2.1
      have hready := hrt'.idle.frame (r := { rt' with pendingLoopObserved := none }) rfl rfl
      have hobserved := hready.replay hsilent fuel hsecond
      exact ⟨hobserved.always, fun hok => (hobserved.ok hok).idle⟩
    · exact ⟨hrt'.idle.files, fun _ => hrt'.idle⟩
  · exact ⟨hrt'.idle.files, fun _ => hrt'.idle⟩

/-! ### A compiler event -/

theorem validateBeforeAppend_nil (h : event.isControl = false) :
    validateBeforeAppend event [] ≠ none := by
  have hkind : event.eventKindStr ≠ "root" := by
    unfold RuntimeEvent.eventKindStr
    cases event.kind <;> decide
  have hseed : isLawfulRootSeed event = false := by
    cases event <;> first | rfl | cases h
  unfold validateBeforeAppend
  dsimp only
  split
  · simp
  · simp [hkind, hseed]

/-- Before anything was written, an event that is no control event does not reach the
    append. -/
theorem Idle.handleOrphan {rt₀ rt : EventRuntime κ η ι} (h : Idle rt₀ rt)
    (hunwritten : rt.lastWrittenEventId = none) (env : RuntimeEnv κ η ι) (fuel : Nat)
    (hcontrol : event.isControl = false) (file : String) (line : Nat) :
    (handle env fuel rt event file line []).Ends
      (fun rt' => Idle rt₀ rt' ∧ rt'.lastWrittenEventId = none) (SameFiles rt₀) := by
  have hparents : rt.parentsFor [] = [] := by simp [EventRuntime.parentsFor, hunwritten]
  have hcore : Idle rt₀ (handleCore env rt event file line []).step.runtime ∧
      (handleCore env rt event file line []).step.runtime.lastWrittenEventId = none := by
    have hend := handleCore_end env rt event file line []
    generalize (handleCore env rt event file line []).step = out at hend ⊢
    cases hend with
    | skipped status why => exact ⟨h, hunwritten⟩
    | rejected reason hopen _ hinvalid => exact ⟨h.frame rfl rfl, hunwritten⟩
    | appended out hopen hvalid hdispatched hreturned =>
      rw [hparents, hcontrol] at hvalid
      rcases hvalid with hvalid | hvalid
      · cases hvalid
      · exact absurd hvalid (validateBeforeAppend_nil hcontrol)
  have hends : (handleCore env rt event file line []).step.Ends
      (fun rt' => Idle rt₀ rt' ∧ rt'.lastWrittenEventId = none) (SameFiles rt₀) :=
    ⟨hcore.1.files, fun _ => hcore⟩
  unfold handle
  dsimp only
  split
  · apply hends.andThen
    rintro rt' ⟨hidle, hunwritten⟩
    exact drain_ends_of_empty env fuel hidle.queue ⟨hidle, hunwritten⟩ hidle.files
  · exact hends

theorem Idle.handleOrphans {rt₀ rt : EventRuntime κ η ι} (h : Idle rt₀ rt)
    (hunwritten : rt.lastWrittenEventId = none) (env : RuntimeEnv κ η ι) (fuel : Nat)
    {events : List RuntimeEvent} (hcontrol : ∀ event ∈ events, event.isControl = false) :
    (handleAll env fuel events rt).Ends (Idle rt₀) (SameFiles rt₀) := by
  induction events generalizing rt with
  | nil => exact ⟨h.files, fun _ => h⟩
  | cons event rest ih =>
    apply (h.handleOrphan hunwritten env fuel (hcontrol event List.mem_cons_self) "" 0).andThen
    rintro rt' ⟨hidle, hunwritten⟩
    exact ih hidle hunwritten fun e he => hcontrol e (List.mem_cons_of_mem event he)

theorem accepted_of_applyDelta {computeInvariantHash : Nat → Nat → Nat → String}
    {state state' : RustcState} {delta : EventDelta}
    (h : applyDelta computeInvariantHash state delta = .ok state') : Accepted state delta := by
  unfold applyDelta at h
  split at h
  · cases h
  · rename_i hpass
    by_cases hstart : delta.event.isSessionStart = true
    · exact .inl hstart
    · exact .inr (by by_contra hid; exact hpass ⟨Nat.not_lt.mp hid, hstart⟩)

theorem analysesFor_control (tick : Nat) (kernel : KernelEvent) :
    ∀ event ∈ analysesFor tick kernel, event.isControl = false := by
  cases kernel <;> simp [analysesFor, RuntimeEvent.isControl]

theorem Idle.handleKernelEvent {rt₀ rt : EventRuntime κ η ι} (h : Idle rt₀ rt)
    (env : RuntimeEnv κ η ι) (fuel : Nat) (kernel : KernelEvent)
    (hpassive : rt.lastWrittenEventId = none ∨ ¬ Accepted rt.state (numberEvent rt kernel).2) :
    (handleKernelEvent env fuel rt kernel).Ends (Idle rt₀) (SameFiles rt₀) := by
  have hnumbered : Idle rt₀ (numberEvent rt kernel).1 ∧
      (numberEvent rt kernel).1.state = rt.state ∧
      (numberEvent rt kernel).1.lastWrittenEventId = rt.lastWrittenEventId := by
    unfold numberEvent
    split <;> exact ⟨h.frame rfl rfl, rfl, rfl⟩
  obtain ⟨hidle, hstate, hwritten⟩ := hnumbered
  unfold Canon.Runtime.handleKernelEvent
  dsimp only
  rw [hstate]
  split
  · exact ⟨hidle.files, fun hok => by cases hok⟩
  · rename_i state happlied
    rcases hpassive with hunwritten | hrefused
    · have hready := hidle.frame (r := { (numberEvent rt kernel).1 with state := state }) rfl rfl
      apply hready.handleOrphans (hwritten.trans hunwritten) env fuel
      intro event hevent
      rcases List.mem_cons.mp hevent with rfl | hevent
      · rfl
      · exact analysesFor_control _ kernel event hevent
    · exact absurd (accepted_of_applyDelta happlied) hrefused

/-! ### The log -/

/-- What concerns the log alone does not change whether an entry is passive. -/
theorem passiveEntry_tlog (rt : EventRuntime κ η ι) (tlog : Option LogState)
    (canon : CanonEvent) :
    PassiveEntry env { rt with tlog := tlog } canon ↔ PassiveEntry env rt canon := by
  have hdelta : ∀ kernel, (numberEvent { rt with tlog := tlog } kernel).2 =
      (numberEvent rt kernel).2 := by
    intro kernel
    unfold numberEvent
    split <;> rfl
  unfold PassiveEntry
  split
  · rw [hdelta]
  · exact Iff.rfl

theorem Idle.notifyWriter {rt₀ rt : EventRuntime κ η ι} (h : Idle rt₀ rt) {canon : CanonEvent}
    (hpassive : PassiveEntry env rt canon) :
    (notifyWriter canon rt).Ends (fun rt' => Idle rt₀ rt' ∧ PassiveEntry env rt' canon)
      (SameFiles rt₀) := by
  unfold Canon.Runtime.notifyWriter
  split
  · exact ⟨h.files, fun _ => ⟨h, hpassive⟩⟩
  · rename_i log hlog
    split
    · exact ⟨h.files, fun hok => by cases hok⟩
    · rename_i writer hwriter
      have hfiles : SameFiles rt
          { rt with tlog := some { log with writer := some (notifyReplayedEvent writer canon) } } :=
        ⟨by rw [hlog]; rfl, by rw [EventRuntime.log, EventRuntime.log, hlog]; rfl⟩
      exact ⟨h.files.trans hfiles, fun _ =>
        ⟨⟨h.files.trans hfiles, h.queue⟩, (passiveEntry_tlog rt _ canon).mpr hpassive⟩⟩

theorem Idle.replayCanon {rt₀ rt : EventRuntime κ η ι} (h : Idle rt₀ rt)
    (hsilent : SilentInReplay env.bus) (fuel : Nat) {canon : CanonEvent}
    (hpassive : PassiveEntry env rt canon) :
    (replayCanon env fuel canon rt).Ends (Idle rt₀) (SameFiles rt₀) := by
  unfold PassiveEntry at hpassive
  unfold Canon.Runtime.replayCanon
  split
  · rename_i kernel hkernel
    rw [hkernel] at hpassive
    exact (h.handleKernelEvent env.toRuntimeEnv fuel kernel hpassive).andThen fun rt' hrt' =>
      hrt'.drain env.toRuntimeEnv fuel
  · rename_i hkernel
    rw [hkernel] at hpassive
    split
    · rename_i event hevent
      exact h.replays hsilent fuel hevent hpassive
    · exact ⟨h.files, fun _ => h⟩

theorem Idle.processEvent {rt₀ rt : EventRuntime κ η ι} (h : Idle rt₀ rt)
    (hsilent : SilentInReplay env.bus) (fuel : Nat) {event : AnyEvent}
    (hpassive : Passive env rt event) :
    (processEvent env fuel rt event).Ends (Idle rt₀) (SameFiles rt₀) := by
  cases event with
  | code event => exact ⟨h.files, fun _ => h⟩
  | canon canon =>
    unfold Canon.Runtime.processEvent
    dsimp only
    split
    · exact ⟨h.files.trans (.of_tlog rfl), fun _ => h.frame rfl rfl⟩
    · rename_i hforeign
      have hentry := hpassive.resolve_left hforeign
      apply (h.notifyWriter hentry).andThen
      rintro rt' ⟨hidle, hentry⟩
      exact hidle.replayCanon hsilent fuel hentry

theorem Idle.driveLoop {rt₀ rt : EventRuntime κ η ι} (h : Idle rt₀ rt) (fuel : Nat) :
    (driveLoop env fuel rt).Ends (Idle rt₀) (SameFiles rt₀) := by
  have hcleared := h.frame (r := { rt with observedEvents := [] }) rfl rfl
  unfold Canon.Runtime.driveLoop
  dsimp only
  split
  · exact ⟨hcleared.files, fun _ => hcleared⟩
  · exact hcleared.drain env.toRuntimeEnv fuel

variable (env)

/-- The turn of every entry is passive where it begins. -/
def PassiveAlong (fuel : Nat) (rt : EventRuntime κ η ι) (events : List AnyEvent) : Prop :=
  (replayMachine env fuel).Along
    (fun s event => s.status = .ok → Passive env s.runtime event)
    (drain env.toRuntimeEnv fuel rt) events

variable {env}

theorem processEvents_sameFiles (hsilent : SilentInReplay env.bus) (fuel : Nat)
    {rt : EventRuntime κ η ι} {events : List AnyEvent} (hblocked : rt.emitterReplayBlocked = true)
    (hqueue : ∀ l ∈ rt.emitterRx, l.event.passesReplay = false)
    (hpassive : PassiveAlong env fuel rt events) :
    SameFiles rt (processEvents env fuel rt events).runtime := by
  have hrun : ((replayMachine env fuel).run (drain env.toRuntimeEnv fuel rt) events).Ends
      (Idle rt) (SameFiles rt) := by
    refine (replayMachine env fuel).run_invariant_of_along
      (I := fun s => s.Ends (Idle rt) (SameFiles rt)) ?_
      (drain_drops env.toRuntimeEnv fuel hblocked hqueue) hpassive
    intro s event hs hguard
    show (s.andThen fun rt => processEvent env fuel rt event).Ends _ _
    by_cases hok : s.status = .ok
    · rw [Step.andThen_of_ok hok]
      exact (hs.ok hok).processEvent hsilent fuel (hguard hok)
    · rw [Step.andThen_of_ne_ok hok]
      exact hs
  have hdriven : (processEvents env fuel rt events).Ends (Idle rt) (SameFiles rt) :=
    hrun.andThen fun rt' hrt' => hrt'.driveLoop fuel
  exact hdriven.always

variable (env)

/-- **Replay is read-only**, with consumers that are silent in it, if nothing that passes the
    flag waits in the queue and the turn of every entry is passive. -/
theorem replay_read_only (hsilent : SilentInReplay env.bus) (fuel : Nat)
    (rt : EventRuntime κ η ι) (events : List AnyEvent)
    (hqueue : ∀ l ∈ rt.emitterRx, l.event.passesReplay = false)
    (hpassive : PassiveAlong env fuel { rt with emitterReplayBlocked := true } events) :
    SameFiles rt (processPath env fuel rt (.ok events)).runtime := by
  have hraised : SameFiles rt { rt with emitterReplayBlocked := true } := .of_tlog rfl
  have hprocessed := hraised.trans (processEvents_sameFiles hsilent fuel rfl hqueue hpassive)
  unfold processPath
  dsimp only
  split
  · exact hprocessed.trans (.of_tlog rfl)
  · exact hprocessed

end ReadOnly

/-! ### A log with a compiler event -/

def quietReplayEnv : ReplayEnv Unit Unit Unit where
  toRuntimeEnv := quietEnv
  parseRustcEventValue data :=
    (((data.get "SessionStart").bind (·.get "project")).bind Json.asStr).map fun project =>
      .other (.sessionStart project)
  parseErrorOccurred _ := none
  parseCapabilityFailed _ := none
  parseLoopObserved data := ((data.get "tick").bind Json.asU64).map (·, data)
  parseRouteSelected _ := none
  parseRouteTick _ := none
  parsePlain _ _ := none

theorem silentInReplay_quiet : SilentInReplay quietReplayEnv.bus :=
  ⟨fun _ _ _ => rfl, fun _ _ _ _ _ _ h => by cases h⟩

/-- The compiler opens a session, and the tick is observed. -/
def foreignEntries : List AnyEvent :=
  [.canon (sampleEvent "code-1" .code 3 (.obj [("SessionStart", .obj [("project", .str "p")])])),
    .canon (sampleEvent "obs-1" .loopObserved 4 (.obj [("tick", .nat 1)]))]

/-- A runtime that has written nothing replays them and stays silent. -/
theorem replay_read_only_at_start :
    SameFiles quietRuntime
      (processPath quietReplayEnv 3 quietRuntime (.ok foreignEntries)).runtime :=
  replay_read_only quietReplayEnv silentInReplay_quiet 3 quietRuntime foreignEntries
    (fun _ h => by cases h)
    ⟨fun _ => .inr (.inl rfl), fun _ => .inr (.inr rfl), trivial⟩

/-- A runtime that has a beat behind it appends the first one again. -/
theorem code_event_appended_by_replay :
    SilentInReplay quietReplayEnv.bus ∧
      ¬ ∀ (calls : List (Call × Nat)) (events : List AnyEvent),
        (processPath quietReplayEnv 5 ((liveMachine quietEnv).run (.ok quietRuntime) calls).runtime
          (.ok events)).runtime.log =
        ((liveMachine quietEnv).run (.ok quietRuntime) calls).runtime.log := by
  refine ⟨silentInReplay_quiet, ?_⟩
  intro hall
  have hsame := congrArg List.length (hall [(.emitTick, 5)] foreignEntries)
  revert hsame
  decide +kernel

end Canon.Runtime
