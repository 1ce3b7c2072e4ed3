import Canon.Runtime.Handle

/-! # Live runs

    The calls of `EventRuntime` on the live path: what emits an event, handles a compiler
    event, beats or drains.  A live run is a list of such calls with the emissions of other
    threads between them.
-/

namespace Canon.Runtime

open Canon.Tlog

def satSuccU64 (n : Nat) : Nat := min (n + 1) (2 ^ 64 - 1)

section Calls

variable {κ η ι : Type} (env : RuntimeEnv κ η ι)
variable (fuel : Nat) (rt : EventRuntime κ η ι)

/-! ### Emitting -/

/-- An observation that is emitted directly opens its cycle.  The tick counts as observed
    from here on. -/
def openCycle : RuntimeEvent → EventRuntime κ η ι
  | .loopObserved tick _ =>
    { rt with lastRouteTickEmitted := tick, lastLoopObservedTick := some tick }
  | _ => rt

def emitEventWithParents (event : RuntimeEvent) (parentIds : List String) (file : String)
    (line : Nat) : Step κ η ι :=
  (handle env fuel rt event file line parentIds).andThen (drain env fuel)

def emitEventLocated (event : RuntimeEvent) (file : String) (line : Nat) : Step κ η ι :=
  emitEventWithParents env fuel rt event [] file line

def emitEvent (event : RuntimeEvent) : Step κ η ι :=
  emitEventLocated env fuel (openCycle rt event) event "" 0

def emitDebugEvent (source kind : String) (payload : Json) : Step κ η ι :=
  emitEventLocated env fuel rt (.debug { source := source, kind := kind, payload := payload }) "" 0

/-! ### Compiler events -/

/-- The counters move on, and the event gets its number and tick. -/
def numberEvent (event : KernelEvent) :
    EventRuntime κ η ι × EventDelta :=
  if event.rustcEvent.isSessionStart then
    ({ rt with tick := 0 }, { id := 0, tick := 0, event := event.rustcEvent })
  else
    ({ rt with tick := satSuccU64 rt.tick, nextId := satSuccU64 rt.nextId },
      { id := rt.nextId, tick := satSuccU64 rt.tick, event := event.rustcEvent })

/-- A finished compilation unit asks for two analyses. -/
def analysesFor (tick : Nat) : KernelEvent → List RuntimeEvent
  | .compilationUnitFinished crateName =>
    [.plain .analysis (.obj [("Run", .obj
        [("batch_id", .null), ("crate_name", .str crateName), ("queued", .bool true),
         ("request_id", .str s!"analysis-{crateName}-{tick}")])]),
     .plain .analysis (.obj [("Workspace", .obj
        [("queued", .bool true), ("request_id", .str s!"analysis-workspace-{tick}")])])]
  | _ => []

def handleAll (fuel : Nat) : List RuntimeEvent → EventRuntime κ η ι → Step κ η ι
  | [], rt => .ok rt
  | event :: rest, rt => (handle env fuel rt event "" 0 []).andThen (handleAll fuel rest)

def handleKernelEvent (event : KernelEvent) :
    Step κ η ι :=
  let numbered := numberEvent rt event
  let rt := numbered.1
  let delta := numbered.2
  match applyDelta env.computeInvariantHash rt.state delta with
  | .error err => { runtime := rt, status := .err err }
  | .ok state =>
    handleAll env fuel (.code delta.id delta.tick event state :: analysesFor rt.tick event)
      { rt with state := state }

/-! ### The heartbeat -/

/-- A route tick that left no id of its own behind is emitted again. -/
def repairRouteTick (tickEventId : String) (rt : EventRuntime κ η ι) :
    Step κ η ι :=
  match rt.lastWrittenEventId with
  | none => .panic rt "[FATAL] RouteTick must produce event_id"
  | some routeTickEventId =>
    if routeTickEventId = tickEventId then
      emitEventWithParents env fuel { rt with lastWrittenEventId := none }
        (.routeTick rt.runtimeTick true) [tickEventId] "canon-utils/canon-runtime/src/lib.rs" 475
    else .ok rt

def finishTick : Step κ η ι :=
  let rt := { rt with lastRouteTickEmitted := rt.runtimeTick }
  (emitEvent env fuel rt (.runtimeStateUpdated
    (.obj [("runtime_tick", .nat rt.runtimeTick), ("state", rt.runtimeState)]))).andThen fun rt =>
  if rt.observedEvents.isEmpty then
    .panic rt s!"[FATAL] No RuntimeEvent emitted for tick {rt.runtimeTick}"
  else
    (drain env fuel rt).andThen fun rt =>
    if rt.routeTickAppendSeen then .ok rt
    else .panic rt s!"[FATAL] RouteTick was not durably appended for tick {rt.runtimeTick}"

def emitTick : Step κ η ι :=
  (drain env fuel rt).andThen fun rt =>
  let rt :=
    { rt with runtimeTick := satSuccU64 rt.runtimeTick, routeTickAppendSeen := false }
  (emitEvent env fuel rt (.tick rt.runtimeTick true)).andThen fun rt =>
  match rt.lastWrittenEventId with
  | none => .panic rt "[FATAL] Tick must produce event_id"
  | some tickEventId =>
    (emitEvent env fuel rt (.routeTick rt.runtimeTick true)).andThen fun rt =>
    (repairRouteTick env fuel tickEventId rt).andThen (finishTick env fuel)

/-! ### Runs -/

def EventRuntime.reset : EventRuntime κ η ι :=
  { rt with
    state := emptyState
    tick := 0
    runtimeTick := 0
    runtimeState := .obj []
    lastRouteTickEmitted := 0
    emitterReplayBlocked := false
    observedEvents := []
    dispatchedIds := ∅
    lastKindHash := .empty
    lastEventIdPerKind := .empty
    lastWrittenEventId := none
    mode := .running }

inductive Call where
  | emitEvent (event : RuntimeEvent)
  | emitEventLocated (event : RuntimeEvent) (file : String) (line : Nat)
  | emitEventWithParents (event : RuntimeEvent) (parentIds : List String) (file : String)
      (line : Nat)
  | emitDebugEvent (source kind : String) (payload : Json)
  | handleKernelEvent (event : KernelEvent)
  | emitTick
  | flushEmittedEvents
  | takeObservedEvents
  | reset
  /-- Another thread emits. -/
  | emitted (located : LocatedEvent)

def call : Call → Step κ η ι
  | .emitEvent event => emitEvent env fuel rt event
  | .emitEventLocated event file line => emitEventLocated env fuel rt event file line
  | .emitEventWithParents event parentIds file line =>
    emitEventWithParents env fuel rt event parentIds file line
  | .emitDebugEvent source kind payload => emitDebugEvent env fuel rt source kind payload
  | .handleKernelEvent event => handleKernelEvent env fuel rt event
  | .emitTick => emitTick env fuel rt
  | .flushEmittedEvents => drain env fuel rt
  | .takeObservedEvents => .ok { rt with observedEvents := [] }
  | .reset => .ok rt.reset
  | .emitted located => .ok (rt.emitAll [located])

/-- Calls, each with the fuel it gets.  Nothing follows one that did not return. -/
def liveMachine : Machine (Step κ η ι) (Call × Nat) where
  step s c := if s.status.returned then call env c.2 s.runtime c.1 else s

/-- `EventRuntime::new` with its consumers and hooks, after `set_tlog_path`. -/
def EventRuntime.new (bus : Bus κ η) (engine : ι) (log : LogState) : EventRuntime κ η ι where
  state := emptyState
  bus := bus
  tlog := some log
  nextId := 0
  tick := 0
  runtimeTick := 0
  runtimeState := .obj []
  lastRouteTickEmitted := 0
  emitterRx := []
  emitterReplayBlocked := false
  observedEvents := []
  dispatchedIds := ∅
  lastKindHash := .empty
  lastEventIdPerKind := .empty
  lastWrittenEventId := none
  lastLoopObservedTick := none
  pendingLoopObserved := none
  routeTickAppendSeen := false
  invariantEngine := engine
  mode := .running
  calls := 0
  trail := []
  dispatches := []

/-! ### What a call keeps -/

/-- `I` depends on the log and on what was appended, handled and dispatched, and handling an
    event keeps it; `D` is what is left of it when a call does not return. -/
structure Kept (I D : EventRuntime κ η ι → Prop) : Prop where
  weaken : ∀ rt, I rt → D rt
  frame : ∀ {rt rt' : EventRuntime κ η ι}, I rt → SameLog rt rt' →
    rt'.dispatches = rt.dispatches → I rt'
  core : ∀ rt event file line parentIds, I rt →
    (handleCore env rt event file line parentIds).step.Keeps I D

variable {env} {I D : EventRuntime κ η ι → Prop}

/-- The log, its cursors and the trail are the same. -/
structure SameRecords (rt rt' : EventRuntime κ η ι) : Prop where
  tlog : rt'.tlog = rt.tlog
  lastEventIdPerKind : rt'.lastEventIdPerKind = rt.lastEventIdPerKind
  lastLoopObservedTick : rt'.lastLoopObservedTick = rt.lastLoopObservedTick
  trail : rt'.trail = rt.trail

theorem SameLog.records {rt rt' : EventRuntime κ η ι} (h : SameLog rt rt') : SameRecords rt rt' :=
  ⟨h.tlog, h.lastEventIdPerKind, h.lastLoopObservedTick, h.trail⟩

/-- A property of the records is kept if appending an event that came in keeps it; `entered`
    is for an event that is rejected before it is appended. -/
theorem Kept.of_append (weaken : ∀ rt, I rt → D rt)
    (frame : ∀ {rt rt' : EventRuntime κ η ι}, I rt → SameRecords rt rt' → I rt')
    (frameD : ∀ {rt rt' : EventRuntime κ η ι}, D rt → SameRecords rt rt' → D rt')
    (entered : ∀ rt event parentIds, I rt → event.isControl = false →
      I (enter env rt event parentIds))
    (append : ∀ rt event file line parentIds, I rt →
      (appendRuntimeEvent env (env.fresh rt.calls) (enter env rt event parentIds) event file line
        parentIds).Keeps I D) : Kept env I D where
  weaken := weaken
  frame h same _ := frame h same.records
  core rt event file line parentIds h := by
    have hend := handleCore_end env rt event file line parentIds
    generalize (handleCore env rt event file line parentIds).step = out at hend ⊢
    cases hend with
    | skipped status why => exact .of_forall weaken h
    | rejected reason hopen hcontrol hinvalid =>
      exact .of_forall weaken (frame (entered rt event _ h hcontrol) ⟨rfl, rfl, rfl, rfl⟩)
    | appended out hopen hvalid hdispatched hreturned =>
      have happend := append rt event file line (rt.parentsFor parentIds) h
      exact ⟨frameD happend.always hdispatched.same.records, fun hout =>
        frame (happend.returned (hreturned hout)) hdispatched.same.records⟩

theorem Kept.drain (k : Kept env I D) (fuel : Nat) (rt : EventRuntime κ η ι) (h : I rt) :
    (drain env fuel rt).Keeps I D :=
  drain_keeps env k.weaken (fun _ _ h => k.frame h ⟨rfl, rfl, rfl, rfl, rfl⟩ rfl) k.core fuel rt h

theorem Kept.handle (k : Kept env I D) (fuel : Nat) (rt : EventRuntime κ η ι)
    (event : RuntimeEvent) (file : String) (line : Nat) (parentIds : List String) (h : I rt) :
    (handle env fuel rt event file line parentIds).Keeps I D :=
  handle_keeps env k.weaken (fun _ _ h => k.frame h ⟨rfl, rfl, rfl, rfl, rfl⟩ rfl) k.core fuel rt
    event file line parentIds h

theorem Kept.emitEventWithParents (k : Kept env I D) (fuel : Nat) (rt : EventRuntime κ η ι)
    (event : RuntimeEvent) (parentIds : List String) (file : String) (line : Nat) (h : I rt) :
    (emitEventWithParents env fuel rt event parentIds file line).Keeps I D :=
  (k.handle fuel rt event file line parentIds h).andThen (k.drain fuel)

theorem Kept.handleAll (k : Kept env I D) (fuel : Nat) (events : List RuntimeEvent)
    (rt : EventRuntime κ η ι) (h : I rt) : (handleAll env fuel events rt).Keeps I D := by
  induction events generalizing rt with
  | nil => exact .of_forall k.weaken h
  | cons event rest ih => exact (k.handle fuel rt event "" 0 [] h).andThen ih

theorem Kept.handleKernelEvent (k : Kept env I D) (fuel : Nat) (rt : EventRuntime κ η ι)
    (event : KernelEvent) (h : I rt) : (handleKernelEvent env fuel rt event).Keeps I D := by
  have hnumbered : I (numberEvent rt event).1 := by
    unfold numberEvent
    split <;> exact k.frame h ⟨rfl, rfl, rfl, rfl, rfl⟩ rfl
  unfold Canon.Runtime.handleKernelEvent
  dsimp only
  split
  · exact .of_forall k.weaken hnumbered
  · exact k.handleAll fuel _ _ (k.frame hnumbered ⟨rfl, rfl, rfl, rfl, rfl⟩ rfl)

theorem Kept.repairRouteTick (k : Kept env I D) (fuel : Nat) (tickEventId : String)
    (rt : EventRuntime κ η ι) (h : I rt) : (repairRouteTick env fuel tickEventId rt).Keeps I D := by
  unfold Canon.Runtime.repairRouteTick
  split
  · exact .of_forall k.weaken h
  · split
    · exact k.emitEventWithParents fuel _ _ _ _ _ (k.frame h ⟨rfl, rfl, rfl, rfl, rfl⟩ rfl)
    · exact .of_forall k.weaken h

theorem Kept.finishTick (k : Kept env I D) (fuel : Nat) (rt : EventRuntime κ η ι) (h : I rt) :
    (finishTick env fuel rt).Keeps I D := by
  unfold Canon.Runtime.finishTick
  refine Step.Keeps.andThen ?_ ?_
  · exact k.emitEventWithParents fuel _ _ _ _ _ (k.frame h ⟨rfl, rfl, rfl, rfl, rfl⟩ rfl)
  · intro rt h
    split
    · exact .of_forall k.weaken h
    · apply (k.drain fuel rt h).andThen
      intro rt h
      split <;> exact .of_forall k.weaken h

theorem Kept.emitTick (k : Kept env I D) (fuel : Nat) (rt : EventRuntime κ η ι) (h : I rt) :
    (emitTick env fuel rt).Keeps I D := by
  unfold Canon.Runtime.emitTick
  apply (k.drain fuel rt h).andThen
  intro rt h
  refine Step.Keeps.andThen ?_ ?_
  · exact k.emitEventWithParents fuel _ _ _ _ _ (k.frame h ⟨rfl, rfl, rfl, rfl, rfl⟩ rfl)
  · intro rt h
    split
    · exact .of_forall k.weaken h
    · apply (k.emitEventWithParents fuel rt _ _ _ _ h).andThen
      intro rt h
      exact (k.repairRouteTick fuel _ rt h).andThen (k.finishTick fuel)

/-- The two calls that change more than `Kept` allows have their own premises. -/
theorem Kept.call (k : Kept env I D) {fuel : Nat} {rt : EventRuntime κ η ι} {c : Call} (h : I rt)
    (hopen : ∀ event, c = .emitEvent event → I (openCycle rt event))
    (hreset : c = .reset → I rt.reset) : (call env fuel rt c).Keeps I D := by
  cases c with
  | emitEvent event => exact k.emitEventWithParents fuel _ event _ _ _ (hopen event rfl)
  | emitEventLocated event file line => exact k.emitEventWithParents fuel rt event _ _ _ h
  | emitEventWithParents event parentIds file line =>
    exact k.emitEventWithParents fuel rt event _ _ _ h
  | emitDebugEvent source kind payload => exact k.emitEventWithParents fuel rt _ _ _ _ h
  | handleKernelEvent event => exact k.handleKernelEvent fuel rt event h
  | emitTick => exact k.emitTick fuel rt h
  | flushEmittedEvents => exact k.drain fuel rt h
  | takeObservedEvents => exact .of_forall k.weaken (k.frame h ⟨rfl, rfl, rfl, rfl, rfl⟩ rfl)
  | reset => exact .of_forall k.weaken (hreset rfl)
  | emitted located => exact .of_forall k.weaken (k.frame h ⟨rfl, rfl, rfl, rfl, rfl⟩ rfl)

/-- Opening a cycle and a reset keep `I`, under what `G` says about the call. -/
theorem Kept.live_of_along (k : Kept env I D) {G : Step κ η ι → Call × Nat → Prop}
    (hopen : ∀ s event fuel, I s.runtime → G s (.emitEvent event, fuel) →
      I (openCycle s.runtime event))
    (hreset : ∀ rt, I rt → I rt.reset) {s : Step κ η ι} (h : s.Keeps I D)
    {calls : List (Call × Nat)} (hguard : (liveMachine env).Along G s calls) :
    ((liveMachine env).run s calls).Keeps I D := by
  refine (liveMachine env).run_invariant_of_along (G := G) ?_ h hguard
  intro s c hs hg
  show (if s.status.returned then Canon.Runtime.call env c.2 s.runtime c.1 else s).Keeps I D
  split
  · rename_i hreturned
    have hI := hs.returned hreturned
    refine k.call hI ?_ fun _ => hreset _ hI
    intro event hevent
    exact hopen s event c.2 hI (by rw [← hevent]; exact hg)
  · exact hs

/-- What handling keeps, and what looks neither at the observed tick nor at what a reset
    clears, holds along every live run. -/
theorem Kept.live (k : Kept env I D)
    (hmark : ∀ rt tick, I rt → I { rt with lastLoopObservedTick := tick })
    (hreset : ∀ rt, I rt → I rt.reset) {rt : EventRuntime κ η ι} (h : I rt)
    (calls : List (Call × Nat)) : ((liveMachine env).run (.ok rt) calls).Keeps I D := by
  refine k.live_of_along (G := fun _ _ => True) ?_ hreset (.of_forall k.weaken h)
    ((liveMachine env).along_of_forall fun _ _ => trivial)
  intro s event _ hI _
  cases event with
  | loopObserved tick data =>
    exact k.frame (hmark _ (some tick) hI) ⟨rfl, rfl, rfl, rfl, rfl⟩ rfl
  | _ => exact hI

end Calls

/-! ### A quiet runtime -/

def quietBus : BusEnv Unit Unit where
  onEvent _ consumer _ _ := (consumer, .noOp "quiet", [])
  onPre hook _ := (hook, .allow)
  hookName _ := "quiet"

def quietShape : RuntimeEvent → PayloadShape
  | .tick tick emitted | .routeTick tick emitted =>
    { input := .obj [("tick", .nat tick)]
      output := .obj [("emitted", .bool emitted)]
      delta := .obj [("emitted", .bool emitted)]
      data := .obj [("emitted", .bool emitted), ("tick", .nat tick)] }
  | .debug event =>
    { input := .obj [("kind", .str event.kind), ("source", .str event.source)]
      output := .obj [("payload", event.payload)]
      delta := .obj [("payload", event.payload)]
      data := .obj [("kind", .str event.kind), ("payload", event.payload),
        ("source", .str event.source)] }
  | .loopObserved tick data =>
    { input := .obj [("goal_text", .null), ("tick", .nat tick)]
      output := .obj [("error_count", .nat 0), ("warning_count", .nat 0)]
      delta := .obj [("compiler_errors", .arr [])]
      data := data }
  | .code id tick _ state =>
    { input := .obj [("id", .nat id), ("tick", .nat tick)]
      output := .obj []
      delta := .obj [("graph_version", .nat state.graphVersion)]
      data := .obj [("tick", .nat tick)] }
  | .runtimeStateUpdated payload =>
    { input := .obj []
      output := .obj [("payload", payload)]
      delta := .obj [("payload", payload)]
      data := .obj [("payload", payload)] }
  | _ => { input := .obj [], output := .obj [], delta := .obj [("none", .null)], data := .obj [] }

/-- It tells ticks apart, and texts of different lengths. -/
def quietHash (kind : EventKind) (data : Json) : Nat :=
  10000 * kind.asStr.length + 100 * ((data.get "tick").bind Json.asU64).getD 0
    + (((data.get "payload").bind Json.asStr).map String.length).getD 0

/-- Consumers that do nothing, ids and a clock that count the events, and events that are
    printed as their ids. -/
def quietEnv : RuntimeEnv Unit Unit Unit where
  bus := quietBus
  gate :=
    { serde :=
        { toStr := fun event => event.id.toList, fromStr := fun _ => none
          legacyFromStr := fun _ => none, kindFromStr := fun _ => none, freshId := fun _ => "" }
      contentHash := fun kind data _ => quietHash kind data }
  shape := quietShape
  dataHash := quietHash
  observe engine _ := (engine, true, [])
  computeInvariantHash _ _ _ := ""
  fresh n :=
    { eventId := "e-" ++ toString n, modeUpdateId := "m-" ++ toString n
      derivedId := "d-" ++ toString n, now := n
      write :=
        { parentId := "p-" ++ toString n, violationId := "v-" ++ toString n, now := n } }

/-- One consumer, no hooks, and an empty log. -/
def quietRuntime : EventRuntime Unit Unit Unit :=
  .new { syncConsumers := [()], hooks := [] } () (.opened quietEnv.gate Dir.empty .default)

end Canon.Runtime
