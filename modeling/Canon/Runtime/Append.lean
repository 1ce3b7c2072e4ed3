import Canon.Tlog.Gate
import Canon.Runtime.Bus

/-! # State of the runtime and the append

    `EventRuntime` of the runtime's `lib.rs` and `append_runtime_event`, which puts an
    event into its wire form, asks the invariant engine and the gates of the runtime, and
    writes it.

    What the runtime handles and appends is kept in `trail`, and what it dispatches in
    `dispatches`; neither is part of the source.
-/

namespace Canon.Runtime

open Canon.Tlog

/-! ### State -/

inductive RuntimeMode where
  | running
  | fatalInvariantHalt (reason : String)
deriving DecidableEq, Repr

/-- One call of the writer: what was to be written, the log before it, and the answer. -/
structure Append where
  halted : Bool
  event : RuntimeEvent
  wire : CanonEvent
  before : LogState
  outcome : Outcome
  wrote : List CanonEvent

inductive Record where
  /-- An event that is neither blocked nor refused at the door, with the parents it gets
      and the tick that was observed last. -/
  | handled (event : RuntimeEvent) (parentIds : List String) (marker : Option Nat)
  | appended (append : Append)

/-- `tlog` is the log directory with its writer, once `set_tlog_path` was called. -/
structure EventRuntime (κ η ι : Type) where
  state : RustcState
  bus : Bus κ η
  tlog : Option LogState
  nextId : Nat
  tick : Nat
  runtimeTick : Nat
  runtimeState : Json
  lastRouteTickEmitted : Nat
  emitterRx : List LocatedEvent
  emitterReplayBlocked : Bool
  observedEvents : List RuntimeEvent
  dispatchedIds : Finset String
  lastKindHash : FMap EventKind Nat
  lastEventIdPerKind : FMap EventKind String
  lastWrittenEventId : Option String
  lastLoopObservedTick : Option Nat
  pendingLoopObserved : Option (Nat × Json)
  routeTickAppendSeen : Bool
  invariantEngine : ι
  mode : RuntimeMode
  /-- How many events were handled so far; it numbers what comes from outside. -/
  calls : Nat
  trail : List Record
  /-- The events handed to the bus, each with whether the runtime was halted then. -/
  dispatches : List (Bool × RuntimeEvent)

/-- What one handled event gets from its surroundings: ids for the event, for a mode
    update and for a derived event, the clock, and what the writer takes. -/
structure Fresh where
  eventId : String
  modeUpdateId : String
  derivedId : String
  now : Nat
  write : Surroundings

/-- The surroundings of a runtime.  `observe` is the statistical part of the invariant
    engine, which learns with floating point thresholds: whether it lets an event pass,
    and what it emits. -/
structure RuntimeEnv (κ η ι : Type) where
  bus : BusEnv κ η
  gate : Env
  shape : RuntimeEvent → PayloadShape
  dataHash : EventKind → Json → Nat
  observe : ι → CanonEvent → ι × Bool × List LocatedEvent
  computeInvariantHash : Nat → Nat → Nat → String
  fresh : Nat → Fresh

/-! ### Steps -/

/-- How a call ends.  `stuck` never returns; `unfinished` is still at work when the fuel
    is used up. -/
inductive Status where
  | ok
  | err (message : String)
  | panicked (message : String)
  | stuck
  | unfinished
deriving DecidableEq, Repr

/-- The caller gets the runtime back, be it with an error. -/
def Status.returned : Status → Bool
  | .ok | .err _ => true
  | _ => false

structure Step (κ η ι : Type) where
  runtime : EventRuntime κ η ι
  status : Status

namespace Step

variable {κ η ι : Type}
variable {s : Step κ η ι} (rt : EventRuntime κ η ι)

def ok : Step κ η ι := { runtime := rt, status := .ok }

def panic (message : String) : Step κ η ι :=
  { runtime := rt, status := .panicked message }

def andThen (s : Step κ η ι) (k : EventRuntime κ η ι → Step κ η ι) : Step κ η ι :=
  match s.status with
  | .ok => k s.runtime
  | _ => s

@[simp] theorem ok_runtime : (ok rt).runtime = rt := rfl

@[simp] theorem ok_status : (ok rt).status = .ok := rfl

@[simp] theorem panic_runtime (message : String) :
    (panic rt message).runtime = rt := rfl

@[simp] theorem panic_status (message : String) :
    (panic rt message).status = .panicked message := rfl

theorem andThen_of_ok (h : s.status = .ok) (k : EventRuntime κ η ι → Step κ η ι) :
    s.andThen k = k s.runtime := by
  simp [andThen, h]

theorem andThen_of_ne_ok (h : s.status ≠ .ok) (k : EventRuntime κ η ι → Step κ η ι) :
    s.andThen k = s := by
  unfold andThen
  split
  · exact absurd ‹_› h
  · rfl

variable {k : EventRuntime κ η ι → Step κ η ι}

/-- What both parts keep, a sequence keeps. -/
theorem andThen_runtime {I : EventRuntime κ η ι → Prop} (hs : I s.runtime)
    (hk : ∀ rt, I rt → I (k rt).runtime) : I (s.andThen k).runtime := by
  unfold andThen
  split
  · exact hk _ hs
  · exact hs

/-- `I` holds of a runtime that was given back, and `D` of any. -/
structure Keeps (I D : EventRuntime κ η ι → Prop) (s : Step κ η ι) : Prop where
  always : D s.runtime
  returned : s.status.returned = true → I s.runtime

theorem Keeps.of_forall {I D : EventRuntime κ η ι → Prop} (hweaken : ∀ rt, I rt → D rt)
    (h : I s.runtime) : Keeps I D s :=
  ⟨hweaken _ h, fun _ => h⟩

theorem Keeps.andThen {I D : EventRuntime κ η ι → Prop} (hs : Keeps I D s)
    (hk : ∀ rt, I rt → Keeps I D (k rt)) : Keeps I D (s.andThen k) := by
  by_cases h : s.status = .ok
  · rw [andThen_of_ok h]
    exact hk _ (hs.returned (by rw [h]; rfl))
  · rw [andThen_of_ne_ok h]
    exact hs

/-- `I` holds after success, and `D` in any case. -/
structure Ends (I D : EventRuntime κ η ι → Prop) (s : Step κ η ι) : Prop where
  always : D s.runtime
  ok : s.status = .ok → I s.runtime

theorem Ends.andThen {I J D : EventRuntime κ η ι → Prop} (hs : Ends I D s)
    (hk : ∀ rt, I rt → Ends J D (k rt)) : Ends J D (s.andThen k) := by
  by_cases h : s.status = .ok
  · rw [andThen_of_ok h]
    exact hk _ (hs.ok h)
  · rw [andThen_of_ne_ok h]
    exact ⟨hs.always, fun hok => absurd hok h⟩

end Step

/-! ### The emitter -/

section Append

variable {κ η ι : Type}

def EventRuntime.isFatalHaltActive (rt : EventRuntime κ η ι) : Bool := rt.mode ≠ .running

/-- The events persisted through the runtime. -/
def EventRuntime.log (rt : EventRuntime κ η ι) : List CanonEvent :=
  (rt.tlog.map (·.log)).getD []

/-- While a replay is on, the emitter keeps back everything but control and debug
    events. -/
def EventRuntime.emitAll (rt : EventRuntime κ η ι) (emitted : List LocatedEvent) :
    EventRuntime κ η ι :=
  { rt with
    emitterRx := rt.emitterRx ++
      emitted.filter fun l => !rt.emitterReplayBlocked || l.event.passesReplay }

/-! ### The append -/

variable (env : RuntimeEnv κ η ι)
variable (fresh : Fresh) (rt : EventRuntime κ η ι) (log : LogState) (writer : Writer)
    (event : RuntimeEvent) (wire : CanonEvent)

/-- A second observation of the tick that was observed last. -/
def observedAgain : RuntimeEvent → Bool
  | .loopObserved tick _ => rt.lastLoopObservedTick = some tick
  | _ => false

def markObserved : RuntimeEvent → EventRuntime κ η ι
  | .loopObserved tick _ => { rt with lastLoopObservedTick := some tick }
  | _ => rt

/-- The dedup gate is for effect events only. -/
def isDeduplicated : Bool :=
  wire.kind ≠ .routeTick && wire.kind.eventClass ≠ .control && !event.isControl

/-- The same data as the last event of the kind. -/
def sameAsLast : Bool :=
  rt.lastKindHash wire.kind = some (env.dataHash wire.kind wire.payload.data)

/-- The write at the end of an append.  The chain of the kind moves on before the writer
    has answered. -/
def writeWire : Step κ η ι :=
  let wire := { wire with prevEventId := rt.lastEventIdPerKind wire.kind }
  let r := writeCanonEvent env.gate fresh.write log.dir writer wire
  let rt := { rt with
    lastEventIdPerKind := rt.lastEventIdPerKind.insert wire.kind wire.id
    lastWrittenEventId := some wire.id
    tlog := some
      { dir := r.dir
        writer := if r.outcome = .stuck then none else some r.writer
        log := log.log ++ r.wrote }
    trail := rt.trail ++ [.appended
      { halted := rt.isFatalHaltActive, event := event, wire := wire, before := log
        outcome := r.outcome, wrote := r.wrote }] }
  match r.outcome with
  | .ok => .ok { rt with
      routeTickAppendSeen := rt.routeTickAppendSeen || event.kind = .routeTick }
  | .err message =>
    .panic rt (s!"[FATAL] append failure (no retry allowed) kind={wire.kind.asStr} "
      ++ s!"id={wire.id} err={message}")
  | .stuck => { runtime := rt, status := .stuck }

/-- The gates of the runtime, and the write behind them. -/
def gateAndWrite : Step κ η ι :=
  if observedAgain rt event then .ok rt
  else
    let rt := markObserved rt event
    if isDeduplicated event wire then
      if sameAsLast env rt wire then .ok rt
      else
        writeWire env fresh
          { rt with lastKindHash :=
              rt.lastKindHash.insert wire.kind (env.dataHash wire.kind wire.payload.data) }
          log writer event wire
    else writeWire env fresh rt log writer event wire

/-- `append_runtime_event`.  There is no writer any more after a call of it that never
    returned. -/
def appendRuntimeEvent (file : String) (line : Nat) (parentIds : List String) : Step κ η ι :=
  match rt.tlog with
  | none =>
    .panic rt s!"FATAL: tlog_path is None during append_runtime_event for kind={event.eventKindStr}"
  | some log =>
    match log.writer with
    | none => { runtime := rt, status := .stuck }
    | some writer =>
      if event.kind = .routeTick && parentIds.isEmpty then
        .panic rt "[FATAL] RouteTick missing parent_ids (must reference Tick)"
      else
        match runtimeEventToWire env.shape event parentIds fresh.eventId file line fresh.now with
        | .error err =>
          if event.isControl then
            .panic rt (s!"[FATAL] runtime_event_to_wire error for control event: "
              ++ s!"kind={event.eventKindStr} parents={parentIds} err={err}")
          else .ok rt
        | .ok none =>
          if event.isControl then
            .panic rt (s!"[FATAL] runtime_event_to_wire returned None for control event: "
              ++ s!"kind={event.eventKindStr} parents={parentIds}")
          else .ok rt
        | .ok (some wire) =>
          let seen := env.observe rt.invariantEngine wire
          let rt := ({ rt with invariantEngine := seen.1 } : EventRuntime κ η ι).emitAll seen.2.2
          -- A control event is written although the engine rejects it.
          if !seen.2.1 && !event.isControl then .ok rt
          else gateAndWrite env fresh rt log writer event wire

/-! ### What an append does -/

/-- The two runtimes have the same log, have appended and handled the same events, and
    would write the next one alike. -/
structure SameLog (rt rt' : EventRuntime κ η ι) : Prop where
  tlog : rt'.tlog = rt.tlog
  lastEventIdPerKind : rt'.lastEventIdPerKind = rt.lastEventIdPerKind
  lastLoopObservedTick : rt'.lastLoopObservedTick = rt.lastLoopObservedTick
  mode : rt'.mode = rt.mode
  trail : rt'.trail = rt.trail

theorem SameLog.refl : SameLog rt rt := ⟨rfl, rfl, rfl, rfl, rfl⟩

theorem SameLog.trans {rt rt' rt'' : EventRuntime κ η ι} (h : SameLog rt rt')
    (h' : SameLog rt' rt'') : SameLog rt rt'' where
  tlog := h'.tlog.trans h.tlog
  lastEventIdPerKind := h'.lastEventIdPerKind.trans h.lastEventIdPerKind
  lastLoopObservedTick := h'.lastLoopObservedTick.trans h.lastLoopObservedTick
  mode := h'.mode.trans h.mode
  trail := h'.trail.trans h.trail

@[simp] theorem markObserved_tlog :
    (markObserved rt event).tlog = rt.tlog := by
  cases event <;> rfl

@[simp] theorem markObserved_lastEventIdPerKind :
    (markObserved rt event).lastEventIdPerKind = rt.lastEventIdPerKind := by
  cases event <;> rfl

@[simp] theorem markObserved_mode :
    (markObserved rt event).mode = rt.mode := by
  cases event <;> rfl

@[simp] theorem markObserved_trail :
    (markObserved rt event).trail = rt.trail := by
  cases event <;> rfl

theorem SameLog.markObserved {rt rt' : EventRuntime κ η ι} (h : SameLog rt rt')
    (event : RuntimeEvent) : SameLog (markObserved rt event) (markObserved rt' event) := by
  cases event <;> first | exact h | exact ⟨h.tlog, h.lastEventIdPerKind, rfl, h.mode, h.trail⟩

/-- What one append can do: leave the log alone, or write the wire form of the event. -/
inductive AppendEnd (fresh : Fresh) (rt : EventRuntime κ η ι) (event : RuntimeEvent)
    (file : String) (line : Nat) (parentIds : List String) : Step κ η ι → Prop where
  | unwritten (s : Step κ η ι) (same : SameLog rt s.runtime)
      -- A control event is lost only as a second observation, without a writer or without
      -- parents.
      (lost : event.isControl = true → observedAgain rt event = true ∨
        rt.tlog.bind (·.writer) = none ∨ event.kind ≠ .tick ∧ parentIds = []) :
      AppendEnd fresh rt event file line parentIds s
  | written (rt' : EventRuntime κ η ι) (log : LogState) (writer : Writer) (wire : CanonEvent)
      (same : SameLog (markObserved rt event) rt') (first : observedAgain rt event = false)
      (tlog : rt.tlog = some log) (writer_eq : log.writer = some writer)
      (wire_eq : runtimeEventToWire env.shape event parentIds fresh.eventId file line fresh.now =
        .ok (some wire)) :
      AppendEnd fresh rt event file line parentIds
        (writeWire env fresh rt' log writer event wire)

theorem runtimeEventToWire_of_isControl (shape : RuntimeEvent → PayloadShape)
    {event : RuntimeEvent} (h : event.isControl = true) (parentIds : List String)
    (eventId file : String) (line now : Nat) (hparents : event.kind = .tick ∨ parentIds ≠ []) :
    ∃ wire, runtimeEventToWire shape event parentIds eventId file line now = .ok (some wire) := by
  have hkind := wireKind_of_isControl h
  have hroot : (parentIds.isEmpty && !isRootKind event.kind) = false := by
    rcases hparents with htick | hne
    · rw [htick]
      simp [isRootKind]
    · cases parentIds with
      | nil => exact absurd rfl hne
      | cons p ps => rfl
  unfold runtimeEventToWire
  rw [hkind]
  exact ⟨_, if_neg (by simp [hroot])⟩

theorem SameLog.observedAgain {rt rt' : EventRuntime κ η ι} (h : SameLog rt rt')
    (event : RuntimeEvent) : observedAgain rt' event = observedAgain rt event := by
  cases event with
  | loopObserved tick data => simp only [Canon.Runtime.observedAgain, h.lastLoopObservedTick]
  | _ => rfl

/-- The gates behind the wire form: `rt` has been through the invariant engine. -/
theorem gateAndWrite_end {fresh : Fresh} {rt rt' : EventRuntime κ η ι} {event : RuntimeEvent}
    {file : String} {line : Nat} {parentIds : List String} {log : LogState} {writer : Writer}
    {wire : CanonEvent} (same : SameLog rt rt') (tlog : rt.tlog = some log)
    (writer_eq : log.writer = some writer)
    (wire_eq : runtimeEventToWire env.shape event parentIds fresh.eventId file line fresh.now =
      .ok (some wire)) :
    AppendEnd env fresh rt event file line parentIds
      (gateAndWrite env fresh rt' log writer event wire) := by
  unfold gateAndWrite
  rw [same.observedAgain]
  cases hagain : observedAgain rt event with
  | true => exact .unwritten _ same fun _ => .inl hagain
  | false =>
    simp only [Bool.false_eq_true, if_false]
    have hmarked := same.markObserved event
    by_cases hdedup : isDeduplicated event wire = true
    · rw [if_pos hdedup]
      -- Only an event that is not a control event gets here, so nothing was marked.
      have hcontrol : event.isControl = false := by
        simp only [isDeduplicated, Bool.and_eq_true, Bool.not_eq_true'] at hdedup
        exact hdedup.2
      have hunmarked : markObserved rt event = rt := by
        cases event <;> first | rfl | cases hcontrol
      split
      · rw [hunmarked] at hmarked
        exact .unwritten _ hmarked fun h => by simp [hcontrol] at h
      · refine .written _ log writer wire (hmarked.trans ?_) hagain tlog writer_eq wire_eq
        exact ⟨rfl, rfl, rfl, rfl, rfl⟩
    · rw [if_neg hdedup]
      exact .written _ log writer wire hmarked hagain tlog writer_eq wire_eq

theorem appendRuntimeEvent_end (file : String) (line : Nat) (parentIds : List String) :
    AppendEnd env fresh rt event file line parentIds
      (appendRuntimeEvent env fresh rt event file line parentIds) := by
  unfold appendRuntimeEvent
  cases htlog : rt.tlog with
  | none => exact .unwritten _ (.refl rt) fun _ => .inr (.inl (by simp [htlog]))
  | some log =>
    dsimp only
    cases hwriter : log.writer with
    | none => exact .unwritten _ (.refl rt) fun _ => .inr (.inl (by simp [htlog, hwriter]))
    | some writer =>
      dsimp only
      split
      · rename_i hroute
        rw [Bool.and_eq_true, decide_eq_true_eq, List.isEmpty_iff] at hroute
        exact .unwritten _ (.refl rt) fun _ => .inr (.inr ⟨by simp [hroute.1], hroute.2⟩)
      -- A control event has no wire form only if it has no parents.
      · have hlost : (∀ wire, runtimeEventToWire env.shape event parentIds fresh.eventId file line
              fresh.now ≠ .ok (some wire)) → event.isControl = true →
            event.kind ≠ .tick ∧ parentIds = [] := by
          intro hnone hcontrol
          by_contra hparents
          obtain ⟨wire, hwire⟩ := runtimeEventToWire_of_isControl env.shape hcontrol parentIds
            fresh.eventId file line fresh.now (by tauto)
          exact hnone wire hwire
        split
        · rename_i err herr
          have hnone := hlost (by simp [herr])
          split <;> exact .unwritten _ (.refl rt) fun h => .inr (.inr (hnone h))
        · rename_i herr
          have hnone := hlost (by simp [herr])
          split <;> exact .unwritten _ (.refl rt) fun h => .inr (.inr (hnone h))
        · rename_i wire hwire
          split
          · rename_i hreject
            rw [Bool.and_eq_true, Bool.not_eq_true', Bool.not_eq_true'] at hreject
            exact .unwritten _ ⟨htlog.symm, rfl, rfl, rfl, rfl⟩ fun h => by simp [hreject.2] at h
          · exact gateAndWrite_end env ⟨htlog.symm, rfl, rfl, rfl, rfl⟩ htlog hwriter hwire

/-! ### What a write does -/

/-- The wire form with its place in the chain of its kind. -/
def linkWire : CanonEvent :=
  { wire with prevEventId := rt.lastEventIdPerKind wire.kind }

/-- What a write leaves on the trail. -/
def appendOf : Append :=
  let r := writeCanonEvent env.gate fresh.write log.dir writer (linkWire rt wire)
  { halted := rt.isFatalHaltActive, event := event, wire := linkWire rt wire, before := log
    outcome := r.outcome, wrote := r.wrote }

theorem writeWire_trail :
    (writeWire env fresh rt log writer event wire).runtime.trail =
      rt.trail ++ [.appended (appendOf env fresh rt log writer event wire)] := by
  unfold writeWire
  dsimp only
  split <;> rfl

theorem writeWire_log :
    ((writeWire env fresh rt log writer event wire).runtime.tlog.map (·.log)) =
      some (log.log ++ (appendOf env fresh rt log writer event wire).wrote) := by
  unfold writeWire
  dsimp only
  split <;> rfl

theorem writeWire_lastLoopObservedTick :
    (writeWire env fresh rt log writer event wire).runtime.lastLoopObservedTick =
      rt.lastLoopObservedTick := by
  unfold writeWire
  dsimp only
  split <;> rfl

theorem writeWire_lastEventIdPerKind :
    (writeWire env fresh rt log writer event wire).runtime.lastEventIdPerKind =
      rt.lastEventIdPerKind.insert wire.kind wire.id := by
  unfold writeWire
  dsimp only
  split <;> rfl

/-- The writer is there as long as it returns. -/
theorem writeWire_writer {fresh : Fresh} {rt : EventRuntime κ η ι} {log : LogState}
    {writer : Writer} {event : RuntimeEvent} {wire : CanonEvent}
    (h : (appendOf env fresh rt log writer event wire).outcome = .ok) :
    ((writeWire env fresh rt log writer event wire).runtime.tlog.bind (·.writer)).isSome =
      true := by
  unfold appendOf linkWire at h
  unfold writeWire
  dsimp only at h ⊢
  rw [h]
  rfl

/-- The runtime panics over an error of the writer. -/
theorem writeWire_returned :
    (writeWire env fresh rt log writer event wire).status.returned = true ↔
      (appendOf env fresh rt log writer event wire).outcome = .ok := by
  unfold writeWire appendOf linkWire
  dsimp only
  split <;> rename_i hout <;> simp [hout, Status.returned, Step.ok, Step.panic]

/-- An append leaves the bus, the mode and the tick alone. -/
structure SameBus (rt rt' : EventRuntime κ η ι) : Prop where
  bus : rt'.bus = rt.bus
  dispatches : rt'.dispatches = rt.dispatches
  mode : rt'.mode = rt.mode
  runtimeTick : rt'.runtimeTick = rt.runtimeTick

theorem SameBus.markObserved {rt rt' : EventRuntime κ η ι} (h : SameBus rt rt')
    (event : RuntimeEvent) : SameBus rt (markObserved rt' event) := by
  cases event <;> exact ⟨h.bus, h.dispatches, h.mode, h.runtimeTick⟩

theorem SameBus.writeWire {rt rt' : EventRuntime κ η ι} (h : SameBus rt rt') (fresh : Fresh)
    (log : LogState) (writer : Writer) (event : RuntimeEvent) (wire : CanonEvent) :
    SameBus rt (writeWire env fresh rt' log writer event wire).runtime := by
  unfold Canon.Runtime.writeWire
  dsimp only
  split <;> exact ⟨h.bus, h.dispatches, h.mode, h.runtimeTick⟩

theorem SameBus.gateAndWrite {rt rt' : EventRuntime κ η ι} (h : SameBus rt rt') (fresh : Fresh)
    (log : LogState) (writer : Writer) (event : RuntimeEvent) (wire : CanonEvent) :
    SameBus rt (gateAndWrite env fresh rt' log writer event wire).runtime := by
  unfold Canon.Runtime.gateAndWrite
  dsimp only
  have hmarked := h.markObserved event
  split
  · exact h
  · split
    · split
      · exact hmarked
      · refine SameBus.writeWire env ?_ fresh log writer event wire
        exact ⟨hmarked.bus, hmarked.dispatches, hmarked.mode, hmarked.runtimeTick⟩
    · exact SameBus.writeWire env hmarked ..

theorem appendRuntimeEvent_sameBus (file : String) (line : Nat) (parentIds : List String) :
    SameBus rt (appendRuntimeEvent env fresh rt event file line parentIds).runtime := by
  have hrefl : SameBus rt rt := ⟨rfl, rfl, rfl, rfl⟩
  unfold appendRuntimeEvent
  split
  · exact hrefl
  · split
    · exact hrefl
    · split
      · exact hrefl
      · split
        · split <;> exact hrefl
        · split <;> exact hrefl
        · dsimp only
          split
          · exact ⟨rfl, rfl, rfl, rfl⟩
          · refine SameBus.gateAndWrite env ?_ fresh _ _ event _
            exact ⟨rfl, rfl, rfl, rfl⟩

end Append

end Canon.Runtime
