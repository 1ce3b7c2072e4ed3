import Canon.Runtime.Live

/-! # The heartbeat

    `emit_tick` puts a tick and a route tick into the log, whatever the control chain is
    waiting for.  The writer treats them as control events like any other: behind a control
    event, or while a successor is required, it refuses them, and the runtime panics.

    * `HeartbeatFit`: when the writer takes one,
    * `BeatGoes`: both appends of a call, each with the state in front of it,
    * `BeatReady`: the same in terms of the state in front of the call, if nobody answers the
      tick,
    * `heartbeat_kept_iff`: when tick and route tick are in the log after the call.
-/

namespace Canon.Runtime

open Canon.Tlog

variable {wire : CanonEvent}

/-! ### Fitness -/

/-- The writer is ready for a tick or a route tick: the last event is an effect, or a tick
    in front of a route tick, and nothing else is required. -/
structure HeartbeatFit (env : Env) (w : Writer) (wire : CanonEvent) : Prop where
  retry : checkInvalidRetry env w wire = none
  valid : validateEvent wire = .ok ()
  last : ∀ prev ∈ w.lastEvent,
    prev.kind.eventClass = .effect ∨ prev.kind = .tick ∧ wire.kind = .routeTick
  pending : ∀ req ∈ w.pending, req.expected = wire.kind
  clock : w.lastTs ≤ wire.ts

def IsBeat (kind : EventKind) : Prop := kind = .tick ∨ kind = .routeTick

instance (kind : EventKind) : Decidable (IsBeat kind) := inferInstanceAs (Decidable (_ ∨ _))

theorem IsBeat.isControl {kind : EventKind} (h : IsBeat kind) : kind.eventClass = .control := by
  rcases h with rfl | rfl <;> rfl

/-- Only a tick lets a beat follow it at once, and only a route tick. -/
theorem allowedNext_beat {kind next : EventKind} (h : IsBeat next) :
    (kind.eventClass ≠ .control ∨ kind.allowedNext.contains next = true) ↔
      kind.eventClass = .effect ∨ kind = .tick ∧ next = .routeTick := by
  rcases h with rfl | rfl <;> cases kind <;> decide

theorem transitionError_beat {w : Writer} (h : IsBeat wire.kind) :
    transitionError w wire = none ↔ ∀ prev ∈ w.lastEvent,
      prev.kind.eventClass = .effect ∨ prev.kind = .tick ∧ wire.kind = .routeTick := by
  unfold transitionError
  cases hlast : w.lastEvent with
  | none => simp
  | some prev =>
    simp only [Option.mem_def, Option.some.injEq, forall_eq', ← allowedNext_beat h,
      validateTransition, h.isControl]
    by_cases hclass : prev.kind.eventClass = .control
    · by_cases hnext : wire.kind ∈ prev.kind.allowedNext
      · simp [hclass, hnext]
      · simp [hclass, hnext]
    · simp [hclass]

theorem checkPending_beat {pending : Option PendingTransition} (h : IsBeat wire.kind) :
    (∀ req, checkPending pending wire ≠ .violated req) ↔
      ∀ req ∈ pending, req.expected = wire.kind := by
  unfold checkPending
  cases pending with
  | none => simp
  | some req =>
    have hobserved : wire.kind ≠ .loopObserved := by rcases h with h | h <;> simp [h]
    have hselected : wire.kind ≠ .routeSelected := by rcases h with h | h <;> simp [h]
    by_cases hexpected : req.expected = wire.kind
    · simp [h.isControl, hexpected]
    · simp [h.isControl, hexpected, Ne.symm hexpected, hobserved, hselected]

theorem accepts_of_valid {w : Writer} (h : validateEvent wire = .ok ()) :
    Accepts w wire ↔ w.lastTs ≤ wire.ts := by
  unfold validateEvent at h
  split at h
  · cases h
  · split at h
    · cases h
    · rename_i hnull
      simp only [Bool.or_eq_true, not_or, Bool.not_eq_true] at hnull
      exact ⟨fun hacc => hacc.1, fun hts => ⟨hts, hnull.1.1, hnull.1.2, hnull.2⟩⟩

theorem heartbeatFit_iff (env : Env) (w : Writer) (h : IsBeat wire.kind) :
    HeartbeatFit env w wire ↔
      PassesChecks env w wire ∧ (Suppressed env w wire ∨ Accepts w wire) := by
  have hsuppressed : ¬ Suppressed env w wire := fun hs => hs.1 h.isControl
  constructor
  · rintro ⟨hretry, hvalid, hlast, hpending, hclock⟩
    exact ⟨⟨hretry, hvalid, (transitionError_beat h).mpr hlast, (checkPending_beat h).mpr hpending⟩,
      .inr ((accepts_of_valid hvalid).mpr hclock)⟩
  · rintro ⟨⟨hretry, hvalid, hlast, hpending⟩, hend⟩
    exact ⟨hretry, hvalid, (transitionError_beat h).mp hlast, (checkPending_beat h).mp hpending,
      (accepts_of_valid hvalid).mp (hend.resolve_left hsuppressed)⟩

/-- The writer behind a beat it was ready for. -/
theorem HeartbeatFit.written {env : Env} {w : Writer} (h : HeartbeatFit env w wire)
    (hbeat : IsBeat wire.kind) (sur : Surroundings) (dir : Dir) :
    let r := writeCanonEvent env sur dir w wire
    r.outcome = .ok ∧ r.wrote = [normalizeDelta wire] ∧
      r.writer.rejectedEdges = w.rejectedEdges ∧
      r.writer.lastEvent = some (normalizeDelta wire) ∧
      r.writer.pending = pendingAfter w.pending wire ∧ r.writer.lastTs = max w.lastTs wire.ts := by
  have hpasses := ((heartbeatFit_iff env w hbeat).mp h).1
  have hshape := writeCanonEvent_shape env sur dir w wire
  generalize writeCanonEvent env sur dir w wire = r at hshape ⊢
  cases hshape with
  | refused held message parent f why => exact absurd hpasses why.fails
  | remembered passes suppressed => exact absurd hbeat.isControl suppressed.1
  | append w' touched passes unsuppressed =>
    have hacc : Accepts w' wire := by
      rw [touched.same]
      exact (accepts_of_valid h.valid).mpr h.clock
    rw [persistWith_inner, persist_of_accepts hacc]
    refine ⟨rfl, rfl, ?_, rfl, ?_, ?_⟩
    · rw [touched.same]
    · show pendingAfter w'.pending wire = pendingAfter w.pending wire
      simp only [pendingAfter, hbeat.isControl, if_true]
    · show max w'.lastTs wire.ts = max w.lastTs wire.ts
      rw [touched.same]

/-! ### What a beat leaves behind -/

section Beats

variable {κ η ι : Type}

/-- The event was written behind the first `n` entries of the trail: the writer took it, and
    its record is in the log. -/
def Persisted (n : Nat) (event : RuntimeEvent) (rt : EventRuntime κ η ι) : Prop :=
  ∃ a, .appended a ∈ rt.trail.drop n ∧ a.event = event ∧ a.wire.kind = event.kind ∧
    a.outcome = .ok ∧ normalizeDelta a.wire ∈ rt.log

/-- Trail and log are longer, or the same. -/
structure Grown (rt rt' : EventRuntime κ η ι) : Prop where
  trail : rt.trail <+: rt'.trail
  log : rt.log <+: rt'.log

theorem Grown.refl (rt : EventRuntime κ η ι) : Grown rt rt :=
  ⟨List.prefix_rfl, List.prefix_rfl⟩

theorem Grown.trans {rt rt' rt'' : EventRuntime κ η ι} (h : Grown rt rt') (h' : Grown rt' rt'') :
    Grown rt rt'' :=
  ⟨h.trail.trans h'.trail, h.log.trans h'.log⟩

theorem Persisted.grow {n : Nat} {event : RuntimeEvent} {rt rt' : EventRuntime κ η ι}
    (h : Persisted n event rt) (g : Grown rt rt') : Persisted n event rt' := by
  obtain ⟨a, ha, hevent, hkind, hout, hlog⟩ := h
  refine ⟨a, ?_, hevent, hkind, hout, g.log.subset hlog⟩
  obtain ⟨extra, hextra⟩ := g.trail
  rw [← hextra, List.drop_append]
  exact List.mem_append_left _ ha

theorem Grown.of_same {rt rt' : EventRuntime κ η ι} (htlog : rt'.tlog = rt.tlog)
    (htrail : rt'.trail = rt.trail) : Grown rt rt' := by
  constructor
  · rw [htrail]
  · rw [EventRuntime.log, EventRuntime.log, htlog]

variable (env : RuntimeEnv κ η ι)
variable (rt : EventRuntime κ η ι) (event : RuntimeEvent)

theorem grown_append (fresh : Fresh) (rt : EventRuntime κ η ι) (event : RuntimeEvent)
    (file : String) (line : Nat) (parentIds : List String) :
    Grown rt (appendRuntimeEvent env fresh rt event file line parentIds).runtime := by
  have hend := appendRuntimeEvent_end env fresh rt event file line parentIds
  generalize appendRuntimeEvent env fresh rt event file line parentIds = s at hend ⊢
  cases hend with
  | unwritten s same lost => exact .of_same same.tlog same.trail
  | written rt' log writer wire same first tlog writer_eq wire_eq =>
    constructor
    · rw [writeWire_trail, same.trail, markObserved_trail]
      exact List.prefix_append _ _
    · rw [EventRuntime.log, EventRuntime.log, writeWire_log, tlog]
      exact List.prefix_append _ _

theorem grown_kept (rt₀ : EventRuntime κ η ι) : Kept env (Grown rt₀) (Grown rt₀) := by
  have hframe : ∀ {rt rt' : EventRuntime κ η ι}, Grown rt₀ rt → SameRecords rt rt' →
      Grown rt₀ rt' := fun h same => h.trans (.of_same same.tlog same.trail)
  have henter : ∀ (rt : EventRuntime κ η ι) (event : RuntimeEvent) (parentIds : List String),
      Grown rt₀ rt → Grown rt₀ (enter env rt event parentIds) :=
    fun rt event parentIds h => h.trans ⟨List.prefix_append _ _, List.prefix_rfl⟩
  refine .of_append (fun _ h => h) hframe hframe (fun rt event ids h _ => henter rt event ids h) ?_
  intro rt event file line parentIds h
  exact .of_forall (fun _ h => h) ((henter rt event parentIds h).trans (grown_append ..))

/-! ### One beat -/

/-- The append of a beat that is emitted now. -/
def beatStep : Step κ η ι :=
  appendRuntimeEvent env (env.fresh rt.calls) (enter env rt event (rt.parentsFor [])) event "" 0
    (rt.parentsFor [])

theorem grown_beatStep :
    Grown rt (beatStep env rt event).runtime := by
  have henter : Grown rt (enter env rt event (rt.parentsFor [])) :=
    ⟨List.prefix_append _ _, List.prefix_rfl⟩
  exact henter.trans (grown_append ..)

/-- The beat is on its way, and the invariant engine has seen it. -/
def seen (wire : CanonEvent) :
    EventRuntime κ η ι :=
  ({ enter env rt event (rt.parentsFor []) with
    invariantEngine := (env.observe rt.invariantEngine wire).1 } :
    EventRuntime κ η ι).emitAll (env.observe rt.invariantEngine wire).2.2

/-- What follows the append: the consumers hear of the beat, and what they emit is drained. -/
def answers (fuel : Nat) (fresh : Fresh) (event : RuntimeEvent) (rt : EventRuntime κ η ι) :
    Step κ η ι :=
  (if rt.bus.syncConsumers.isEmpty then .ok rt
    else (dispatchAll env fresh event rt).andThen (drain env fuel)).andThen (drain env fuel)

/-- The beat gets to the writer as `wire`, and the writer is ready for it. -/
structure BeatFits (rt : EventRuntime κ η ι) (event : RuntimeEvent) (log : LogState)
    (writer : Writer) (wire : CanonEvent) : Prop where
  tlog : rt.tlog = some log
  writer_eq : log.writer = some writer
  wire_eq : runtimeEventToWire env.shape event (rt.parentsFor []) (env.fresh rt.calls).eventId "" 0
    (env.fresh rt.calls).now = .ok (some wire)
  parents : event.kind = .tick ∨ rt.parentsFor [] ≠ []
  fit : HeartbeatFit env.gate writer (linkWire rt wire)

variable {env}
variable {writer : Writer} {wire : CanonEvent} {log : LogState}

theorem isControl_of_isBeat {event : RuntimeEvent} (h : IsBeat event.kind) :
    event.isControl = true := by
  cases event with
  | plain kind data => rcases h with h | h <;> cases kind <;> cases h
  | _ => first | rfl | (rcases h with h | h <;> cases h)

/-- A beat passes the gates of the runtime. -/
theorem beatStep_eq {rt : EventRuntime κ η ι} {event : RuntimeEvent} (hbeat : IsBeat event.kind)
    (htlog : rt.tlog = some log)
    (hwriter : log.writer = some writer) (hparents : event.kind = .tick ∨ rt.parentsFor [] ≠ [])
    (hwire : runtimeEventToWire env.shape event (rt.parentsFor []) (env.fresh rt.calls).eventId "" 0
      (env.fresh rt.calls).now = .ok (some wire)) :
    beatStep env rt event =
      writeWire env (env.fresh rt.calls) (seen env rt event wire) log writer event wire := by
  have hcontrol := isControl_of_isBeat hbeat
  have hagain : ∀ rt : EventRuntime κ η ι, observedAgain rt event = false ∧
      markObserved rt event = rt := by
    intro rt
    cases event <;> first | exact ⟨rfl, rfl⟩ | (rcases hbeat with h | h <;> cases h)
  have hroute : (decide (event.kind = .routeTick) && (rt.parentsFor []).isEmpty) = false := by
    rcases hparents with h | h
    · simp [h]
    · simp [h]
  have hentered : (enter env rt event (rt.parentsFor [])).tlog = some log := htlog
  unfold beatStep appendRuntimeEvent
  rw [hentered]
  dsimp only
  rw [hwriter]
  dsimp only
  rw [hroute, hwire]
  simp only [hcontrol, Bool.not_true, Bool.and_false, Bool.false_eq_true, if_false, gateAndWrite,
    isDeduplicated, (hagain _).1, (hagain _).2]
  rfl

/-- The writer takes a beat exactly if it is ready for it. -/
theorem writeWire_beat {fresh : Fresh} (rt : EventRuntime κ η ι) (event : RuntimeEvent)
    (hkind : IsBeat (linkWire rt wire).kind) :
    (appendOf env fresh rt log writer event wire).outcome = .ok ↔
      HeartbeatFit env.gate writer (linkWire rt wire) := by
  rw [heartbeatFit_iff env.gate writer hkind]
  exact writeCanonEvent_ok_iff env.gate fresh.write log.dir writer (linkWire rt wire)

theorem writeWire_ok {fresh : Fresh} {rt : EventRuntime κ η ι} {event : RuntimeEvent} :
    (writeWire env fresh rt log writer event wire).status = .ok ↔
      (appendOf env fresh rt log writer event wire).outcome = .ok := by
  unfold writeWire appendOf linkWire
  dsimp only
  split <;> rename_i hout <;> simp [hout, Step.ok, Step.panic]

/-- The runtime behind a write that succeeds. -/
theorem writeWire_of_ok {fresh : Fresh} (rt : EventRuntime κ η ι) (event : RuntimeEvent)
    (hout : (writeCanonEvent env.gate fresh.write log.dir writer (linkWire rt wire)).outcome = .ok)
    :
    let r := writeCanonEvent env.gate fresh.write log.dir writer (linkWire rt wire)
    writeWire env fresh rt log writer event wire = .ok { rt with
      lastEventIdPerKind := rt.lastEventIdPerKind.insert wire.kind wire.id
      lastWrittenEventId := some wire.id
      tlog := some { dir := r.dir, writer := some r.writer, log := log.log ++ r.wrote }
      trail := rt.trail ++ [.appended (appendOf env fresh rt log writer event wire)]
      routeTickAppendSeen := rt.routeTickAppendSeen || event.kind = .routeTick } := by
  unfold linkWire at hout
  unfold writeWire appendOf linkWire
  simp only [hout, reduceCtorEq, if_false]

section One

variable {rt : EventRuntime κ η ι} {event : RuntimeEvent} {log : LogState} {writer : Writer}
  {wire : CanonEvent}

theorem BeatFits.kind (h : BeatFits env rt event log writer wire) (hbeat : IsBeat event.kind) :
    wire.kind = event.kind := by
  have hwire := runtimeEventToWire_kind h.wire_eq
  rw [wireKind_of_isControl (isControl_of_isBeat hbeat)] at hwire
  exact (Option.some.inj hwire).symm

/-- What a beat that the writer is ready for leaves behind. -/
structure AfterBeat (rt : EventRuntime κ η ι) (event : RuntimeEvent) (writer : Writer)
    (wire : CanonEvent) (rt' : EventRuntime κ η ι) : Prop where
  trail : ∃ a, rt'.trail = rt.trail ++
      [.handled event (rt.parentsFor []) rt.lastLoopObservedTick, .appended a] ∧
    a.event = event ∧ a.wire.kind = event.kind ∧ a.outcome = .ok ∧ normalizeDelta a.wire ∈ rt'.log
  writer : ∃ log w, rt'.tlog = some log ∧ log.writer = some w ∧
    w.rejectedEdges = writer.rejectedEdges ∧ w.lastEvent =
      some (normalizeDelta (linkWire rt wire)) ∧
    w.pending = pendingAfter writer.pending (linkWire rt wire) ∧
    w.lastTs = max writer.lastTs wire.ts
  lastWritten : rt'.lastWrittenEventId = some wire.id
  chain : rt'.lastEventIdPerKind = rt.lastEventIdPerKind.insert wire.kind wire.id
  calls : rt'.calls = rt.calls + 1
  runtimeTick : rt'.runtimeTick = rt.runtimeTick

/-- A beat that the writer is ready for is persisted. -/
theorem BeatFits.after (h : BeatFits env rt event log writer wire) (hbeat : IsBeat event.kind) :
    (beatStep env rt event).status = .ok ∧
      AfterBeat rt event writer wire (beatStep env rt event).runtime ∧
      (beatStep env rt event).runtime.bus = rt.bus ∧
      (beatStep env rt event).runtime.emitterReplayBlocked = rt.emitterReplayBlocked ∧
      (beatStep env rt event).runtime.emitterRx = rt.emitterRx ++
        (env.observe rt.invariantEngine wire).2.2.filter
          fun l => !rt.emitterReplayBlocked || l.event.passesReplay := by
  have hkind : IsBeat (linkWire rt wire).kind := by
    show IsBeat wire.kind
    rw [h.kind hbeat]
    exact hbeat
  obtain ⟨hout, hwrote, hedges, hlast, hpending, hts⟩ :=
    h.fit.written hkind (env.fresh rt.calls).write log.dir
  rw [beatStep_eq hbeat h.tlog h.writer_eq h.parents h.wire_eq,
    writeWire_of_ok (seen env rt event wire) event hout]
  refine ⟨rfl, ⟨⟨_, List.append_assoc _ _ _, rfl, h.kind hbeat, hout, ?_⟩,
    ⟨_, _, rfl, rfl, hedges, hlast, hpending, hts⟩, rfl, rfl, rfl, rfl⟩, rfl, rfl, rfl⟩
  show _ ∈ log.log ++ (writeCanonEvent env.gate _ log.dir writer (linkWire rt wire)).wrote
  rw [hwrote]
  exact List.mem_append_right log.log (List.mem_singleton.mpr rfl)

theorem AfterBeat.persisted {rt' : EventRuntime κ η ι}
    (h : AfterBeat rt event writer wire rt') {n : Nat} (hn : n ≤ rt.trail.length) :
    Persisted n event rt' := by
  obtain ⟨a, htrail, hevent, hkind, hout, hlog⟩ := h.trail
  refine ⟨a, ?_, hevent, hkind, hout, hlog⟩
  rw [htrail, List.drop_append_of_le_length hn]
  simp

/-- Any other beat ends the call, and leaves no trace of success. -/
theorem beatStep_unfit (h : ∀ log writer wire, ¬ BeatFits env rt event log writer wire)
    (hbeat : IsBeat event.kind) :
    (beatStep env rt event).status ≠ .ok ∧
      ∃ extra, (beatStep env rt event).runtime.trail = rt.trail ++ extra ∧
        ∀ a, .appended a ∈ extra → a.outcome ≠ .ok := by
  have hcontrol := isControl_of_isBeat hbeat
  -- Without an append only the handling is on the trail.
  have hhandled : ∃ extra, (enter env rt event (rt.parentsFor [])).trail = rt.trail ++ extra ∧
      ∀ a, .appended a ∈ extra → a.outcome ≠ .ok :=
    ⟨_, rfl, fun a ha => by simp at ha⟩
  by_cases hparents : event.kind = .tick ∨ rt.parentsFor [] ≠ []
  · obtain ⟨wire, hwire⟩ := runtimeEventToWire_of_isControl env.shape hcontrol (rt.parentsFor [])
      (env.fresh rt.calls).eventId "" 0 (env.fresh rt.calls).now hparents
    cases htlog : rt.tlog with
    | none =>
      have hstep : (beatStep env rt event).status ≠ .ok ∧
          (beatStep env rt event).runtime = enter env rt event (rt.parentsFor []) := by
        simp [beatStep, appendRuntimeEvent, enter, htlog]
      exact ⟨hstep.1, hstep.2 ▸ hhandled⟩
    | some log =>
      cases hwriter : log.writer with
      | none =>
        have hstep : (beatStep env rt event).status ≠ .ok ∧
            (beatStep env rt event).runtime = enter env rt event (rt.parentsFor []) := by
          simp [beatStep, appendRuntimeEvent, enter, htlog, hwriter]
        exact ⟨hstep.1, hstep.2 ▸ hhandled⟩
      | some writer =>
        have hkind : wire.kind = event.kind := by
          have hwire := runtimeEventToWire_kind hwire
          rw [wireKind_of_isControl hcontrol] at hwire
          exact (Option.some.inj hwire).symm
        have hout : (appendOf env (env.fresh rt.calls) (seen env rt event wire) log writer event
            wire).outcome ≠ .ok := by
          intro hok
          refine h log writer wire ⟨htlog, hwriter, hwire, hparents, ?_⟩
          have hlinked : IsBeat (linkWire (seen env rt event wire) wire).kind := by
            show IsBeat wire.kind
            rw [hkind]
            exact hbeat
          exact (writeWire_beat (seen env rt event wire) event hlinked).mp hok
        rw [beatStep_eq hbeat htlog hwriter hparents hwire]
        have htrail := writeWire_trail env (env.fresh rt.calls) (seen env rt event wire) log writer
          event wire
        refine ⟨fun hok => hout (writeWire_ok.mp hok), _, htrail.trans (List.append_assoc _ _ _),
          ?_⟩
        intro a ha
        rw [List.mem_append, List.mem_singleton, List.mem_singleton] at ha
        obtain rfl := Record.appended.inj (ha.resolve_left (by simp))
        exact hout
  -- A route tick without parents.
  · rw [not_or, not_not] at hparents
    have hroute : event.kind = .routeTick := hbeat.resolve_left hparents.1
    have hstep : (beatStep env rt event).status ≠ .ok ∧
        (beatStep env rt event).runtime = enter env rt event (rt.parentsFor []) := by
      unfold beatStep appendRuntimeEvent
      split
      · simp
      · split
        · simp
        · simp [hroute, hparents.2]
    exact ⟨hstep.1, hstep.2 ▸ hhandled⟩

/-- Emitting a beat is its append, and what follows. -/
theorem emitEvent_beat (hbeat : IsBeat event.kind)
    (hparents : event.kind = .tick ∨ rt.parentsFor [] ≠ []) (fuel : Nat) :
    emitEvent env fuel rt event =
      (beatStep env rt event).andThen (answers env fuel (env.fresh rt.calls) event) := by
  have hcontrol := isControl_of_isBeat hbeat
  have hopen : openCycle rt event = rt := by
    cases event <;> first | rfl | (rcases hbeat with h | h <;> cases h)
  have hmissing : missingTickParent event (rt.parentsFor []) = none := by
    cases event with
    | routeTick tick emitted =>
      rcases hparents with h | h
      · cases h
      · simp [missingTickParent, h]
    | _ => rfl
  have hblocks : rt.blocks event = false := by simp [EventRuntime.blocks, hcontrol]
  show (handle env fuel (openCycle rt event) event "" 0 []).andThen (drain env fuel) = _
  rw [hopen]
  unfold handle handleCore
  simp only [hmissing, hblocks, hcontrol, Bool.false_eq_true, if_false, if_true]
  have hstep : appendRuntimeEvent env (env.fresh rt.calls) (enter env rt event (rt.parentsFor []))
      event "" 0 (rt.parentsFor []) = beatStep env rt event := rfl
  rw [hstep]
  generalize beatStep env rt event = s
  by_cases hempty : s.runtime.bus.syncConsumers.isEmpty = true
  · simp only [hempty, if_true, Bool.false_eq_true, if_false]
    by_cases hok : s.status = .ok
    · rw [Step.andThen_of_ok hok, Step.andThen_of_ok hok]
      simp only [answers, hempty, if_true]
      rfl
    · rw [Step.andThen_of_ne_ok hok, Step.andThen_of_ne_ok hok]
  · simp only [hempty, if_false, if_true, Bool.false_eq_true]
    by_cases hok : s.status = .ok
    · rw [Step.andThen_of_ok hok, Step.andThen_of_ok hok]
      simp only [answers, hempty, if_false, Bool.false_eq_true]
    · rw [Step.andThen_of_ne_ok hok, Step.andThen_of_ne_ok hok, Step.andThen_of_ne_ok hok,
        Step.andThen_of_ne_ok hok]

end One

/-! ### Both beats -/

/-- The runtime when the tick is emitted. -/
def EventRuntime.openTick (rt : EventRuntime κ η ι) : EventRuntime κ η ι :=
  { rt with runtimeTick := satSuccU64 rt.runtimeTick, routeTickAppendSeen := false }

def EventRuntime.tickEvent (rt : EventRuntime κ η ι) : RuntimeEvent := .tick rt.runtimeTick true

def EventRuntime.routeTickEvent (rt : EventRuntime κ η ι) : RuntimeEvent :=
  .routeTick rt.runtimeTick true

variable (env)

/-- The call puts its tick and its route tick into the log. -/
def BeatKept (fuel : Nat) (rt : EventRuntime κ η ι) : Prop :=
  Persisted rt.trail.length rt.openTick.tickEvent (emitTick env fuel rt).runtime ∧
    Persisted rt.trail.length rt.openTick.routeTickEvent (emitTick env fuel rt).runtime

/-- What was emitted before is drained and leaves `rt₁`, where the writer is ready for the
    tick; what is emitted for the tick is drained and leaves `rt₂`, where it is ready for the
    route tick. -/
structure BeatGoes (fuel : Nat) (rt rt₁ rt₂ : EventRuntime κ η ι) : Prop where
  drained : drain env fuel rt = .ok rt₁
  tick : ∃ log writer wire, BeatFits env rt₁.openTick rt₁.openTick.tickEvent log writer wire
  answered : answers env fuel (env.fresh rt₁.calls) rt₁.openTick.tickEvent
    (beatStep env rt₁.openTick rt₁.openTick.tickEvent).runtime = .ok rt₂
  routeTick : ∃ log writer wire, BeatFits env rt₂ rt₂.routeTickEvent log writer wire

/-- Nothing is left to drain, and nobody emits anything for the tick. -/
structure Unanswered (rt : EventRuntime κ η ι) : Prop where
  queue : rt.emitterRx = []
  engine : ∀ wire, (env.observe rt.invariantEngine wire).2.2 = []
  emitted : (dispatch env.bus rt.emitterReplayBlocked rt.bus rt.openTick.tickEvent
    (env.fresh rt.calls).eventId).emitted = []
  panicked : (dispatch env.bus rt.emitterReplayBlocked rt.bus rt.openTick.tickEvent
    (env.fresh rt.calls).eventId).panicked = none

/-- The writer is ready for the tick, and for the route tick behind it. -/
structure BeatReady (rt : EventRuntime κ η ι) (log : LogState) (writer : Writer)
    (tick route : CanonEvent) : Prop where
  fits : BeatFits env rt.openTick rt.openTick.tickEvent log writer tick
  route_eq : runtimeEventToWire env.shape rt.openTick.routeTickEvent [tick.id]
    (env.fresh (rt.calls + 1)).eventId "" 0 (env.fresh (rt.calls + 1)).now = .ok (some route)
  retry : checkInvalidRetry env.gate writer (linkWire rt route) = none
  valid : validateEvent (linkWire rt route) = .ok ()
  clock : tick.ts ≤ route.ts

theorem drain_runtimeTick (fuel : Nat) {t : Nat} {rt : EventRuntime κ η ι}
    (h : rt.runtimeTick = t) : (drain env fuel rt).runtime.runtimeTick = t :=
  (drain_keeps env (I := fun rt => rt.runtimeTick = t) (D := fun rt => rt.runtimeTick = t)
    (fun _ h => h) (fun _ _ h => h)
    (fun rt event file line ids h =>
      .of_forall (fun _ h => h) ((handleCore_runtimeTick env rt event file line ids).trans h))
    fuel rt h).always

theorem answers_runtimeTick (fuel : Nat) (fresh : Fresh) (event : RuntimeEvent) {t : Nat}
    {rt : EventRuntime κ η ι} (h : rt.runtimeTick = t) :
    (answers env fuel fresh event rt).runtime.runtimeTick = t := by
  have hdrain : ∀ rt : EventRuntime κ η ι, rt.runtimeTick = t →
      (drain env fuel rt).runtime.runtimeTick = t := fun rt h => drain_runtimeTick env fuel h
  unfold answers
  refine Step.andThen_runtime (I := fun rt => rt.runtimeTick = t) ?_ hdrain
  split
  · exact h
  · exact Step.andThen_runtime (I := fun rt => rt.runtimeTick = t)
      ((dispatchAll_for env fresh event rt).runtimeTick.trans h) hdrain

theorem grown_answers (fuel : Nat) (fresh : Fresh) (event : RuntimeEvent)
    (rt : EventRuntime κ η ι) : Grown rt (answers env fuel fresh event rt).runtime := by
  have hdrain : ∀ rt', Grown rt rt' → Grown rt (drain env fuel rt').runtime :=
    fun rt' h => ((grown_kept env rt).drain fuel rt' h).always
  unfold answers
  refine Step.andThen_runtime (I := Grown rt) ?_ hdrain
  split
  · exact .refl rt
  · refine Step.andThen_runtime (I := Grown rt) ?_ hdrain
    have same := (dispatchAll_for env fresh event rt).same
    exact .of_same same.tlog same.trail

variable {env}

section Call

variable {fuel : Nat} {rt rt₁ rt₂ : EventRuntime κ η ι}

/-- The call up to the append of the route tick. -/
theorem emitTick_eq (hdrained : drain env fuel rt = .ok rt₁)
    (htick : (beatStep env rt₁.openTick rt₁.openTick.tickEvent).status = .ok)
    (hanswered : answers env fuel (env.fresh rt₁.calls) rt₁.openTick.tickEvent
      (beatStep env rt₁.openTick rt₁.openTick.tickEvent).runtime = .ok rt₂)
    {tickEventId : String} (hid : rt₂.lastWrittenEventId = some tickEventId) :
    emitTick env fuel rt =
      ((beatStep env rt₂ rt₂.routeTickEvent).andThen
        (answers env fuel (env.fresh rt₂.calls) rt₂.routeTickEvent)).andThen fun rt =>
          (repairRouteTick env fuel tickEventId rt).andThen (finishTick env fuel) := by
  have hparents : rt₂.parentsFor [] ≠ [] := by simp [EventRuntime.parentsFor, hid]
  have hemitted : emitEvent env fuel rt₁.openTick rt₁.openTick.tickEvent = .ok rt₂ := by
    rw [emitEvent_beat (.inl rfl) (.inl rfl), Step.andThen_of_ok htick]
    exact hanswered
  have hroute : emitEvent env fuel rt₂ rt₂.routeTickEvent = _ :=
    emitEvent_beat (.inr rfl) (.inr hparents) fuel
  unfold emitTick
  rw [hdrained, Step.andThen_of_ok rfl]
  show (emitEvent env fuel rt₁.openTick rt₁.openTick.tickEvent).andThen _ = _
  rw [hemitted, Step.andThen_of_ok rfl]
  dsimp only [Step.ok_runtime]
  rw [hid]
  show (emitEvent env fuel rt₂ rt₂.routeTickEvent).andThen _ = _
  rw [hroute]

variable (env) in
/-- Trail and log grow through the rest of the call. -/
theorem grown_rest (rt : EventRuntime κ η ι) (fuel : Nat) (fresh : Fresh) (event : RuntimeEvent)
    (tickEventId : String) :
    Grown rt ((answers env fuel fresh event rt).andThen fun rt =>
      (repairRouteTick env fuel tickEventId rt).andThen (finishTick env fuel)).runtime := by
  have k := grown_kept env rt
  apply Step.andThen_runtime (I := Grown rt) (grown_answers env fuel fresh event rt)
  intro rt' h
  exact Step.andThen_runtime (I := Grown rt) (k.repairRouteTick fuel tickEventId rt' h).always
    fun rt'' h' => (k.finishTick fuel rt'' h').always

theorem BeatGoes.kept (h : BeatGoes env fuel rt rt₁ rt₂) : BeatKept env fuel rt := by
  obtain ⟨hdrained, ⟨log, writer, tick, hfits⟩, hanswered, ⟨log', writer', route, hroute⟩⟩ := h
  obtain ⟨htick, hafter, -⟩ := hfits.after (.inl rfl)
  obtain ⟨hok, hafter', -⟩ := hroute.after (.inr rfl)
  -- The way to `rt₁`, and from the tick to `rt₂`.
  have hbefore : Grown rt rt₁ := by
    have hdrain := ((grown_kept env rt).drain fuel rt (.refl rt)).always
    rw [hdrained] at hdrain
    exact hdrain
  have hbetween : Grown (beatStep env rt₁.openTick rt₁.openTick.tickEvent).runtime rt₂ := by
    have hgrown := grown_answers env fuel (env.fresh rt₁.calls) rt₁.openTick.tickEvent
      (beatStep env rt₁.openTick rt₁.openTick.tickEvent).runtime
    rw [hanswered] at hgrown
    exact hgrown
  have htick₁ : rt₁.runtimeTick = rt.runtimeTick := by
    have hdrain : _ = rt.runtimeTick := drain_runtimeTick env fuel rfl
    rwa [hdrained] at hdrain
  have htick₂ : rt₂.runtimeTick = rt.openTick.runtimeTick := by
    have hkept := answers_runtimeTick env fuel (env.fresh rt₁.calls) rt₁.openTick.tickEvent
      hafter.runtimeTick
    rw [hanswered] at hkept
    exact hkept.trans (congrArg satSuccU64 htick₁)
  have hopened : rt₁.openTick.tickEvent = rt.openTick.tickEvent := by
    simp only [EventRuntime.tickEvent, EventRuntime.openTick, htick₁]
  have hrouted : rt₂.routeTickEvent = rt.openTick.routeTickEvent := by
    simp only [EventRuntime.routeTickEvent, htick₂]
  have hlength := hbefore.trail.length_le
  have hpersisted : Persisted rt.trail.length rt.openTick.tickEvent
      (beatStep env rt₁.openTick rt₁.openTick.tickEvent).runtime :=
    hopened ▸ hafter.persisted hlength
  have hstep₂ := grown_beatStep env rt₂ rt₂.routeTickEvent
  have hlength₂ : rt.trail.length ≤ rt₂.trail.length := by
    obtain ⟨a, htrail, -⟩ := hafter.trail
    have hle := hbetween.trail.length_le
    rw [htrail, List.length_append] at hle
    exact hlength.trans ((Nat.le_add_right _ _).trans hle)
  obtain ⟨id, hid⟩ : ∃ id, rt₂.lastWrittenEventId = some id := by
    rw [← Option.ne_none_iff_exists']
    intro hnone
    rcases hroute.parents with hkind | hparents
    · cases hkind
    · exact hparents (by simp [EventRuntime.parentsFor, hnone])
  have hrest := grown_rest env (beatStep env rt₂ rt₂.routeTickEvent).runtime fuel
    (env.fresh rt₂.calls) rt₂.routeTickEvent id
  have hcall : (emitTick env fuel rt).runtime = _ :=
    congrArg Step.runtime (emitTick_eq hdrained htick hanswered hid)
  rw [Step.andThen_of_ok hok] at hcall
  have hpersisted₂ := (hafter'.persisted hlength₂).grow hrest
  rw [← hcall, hrouted] at hpersisted₂
  rw [← hcall] at hrest
  exact ⟨(hpersisted.grow (hbetween.trans hstep₂)).grow hrest, hpersisted₂⟩

/-! ### A tick that nobody answers -/

theorem drain_of_empty (h : rt.emitterRx = []) (hfuel : 0 < fuel) :
    drain env fuel rt = .ok rt := by
  obtain ⟨k, rfl⟩ := Nat.exists_eq_succ_of_ne_zero (Nat.pos_iff_ne_zero.mp hfuel)
  unfold drain
  rw [h]

/-- Who is there hears of it. -/
theorem dispatch_heard {replaying : Bool} {bus : Bus κ η} {event : RuntimeEvent} {eventId : String}
    (hpanicked : (dispatch env.bus replaying bus event eventId).panicked = none)
    (hempty : ¬ bus.syncConsumers.isEmpty = true) :
    (dispatch env.bus replaying bus event eventId).delivered.isEmpty = false := by
  unfold dispatch at hpanicked ⊢
  dsimp only at hpanicked ⊢
  split at hpanicked
  · cases hpanicked
  · simpa using hempty

/-- Without an answer the consumers and the list of dispatches are all that changes. -/
theorem answers_unanswered (hfuel : 0 < fuel) (fresh : Fresh) {t : Nat}
    (hqueue : rt.emitterRx = [])
    (hemitted : (dispatch env.bus rt.emitterReplayBlocked rt.bus (.tick t true)
      fresh.eventId).emitted = [])
    (hpanicked : (dispatch env.bus rt.emitterReplayBlocked rt.bus (.tick t true)
      fresh.eventId).panicked = none) :
    ∃ bus dispatches, answers env fuel fresh (.tick t true) rt =
      .ok { rt with bus := bus, dispatches := dispatches } := by
  unfold answers
  by_cases hempty : rt.bus.syncConsumers.isEmpty = true
  · rw [if_pos hempty]
    exact ⟨rt.bus, rt.dispatches, drain_of_empty hqueue hfuel⟩
  · have hheard := dispatch_heard hpanicked hempty
    have hlive : dispatchLive env rt (.tick t true) fresh.eventId =
        .ok { rt with
          bus := (dispatch env.bus rt.emitterReplayBlocked rt.bus (.tick t true) fresh.eventId).bus
          dispatches := rt.dispatches ++ [(rt.isFatalHaltActive, .tick t true)] } := by
      unfold dispatchLive
      simp only [hpanicked, hemitted, EventRuntime.emitAll, List.filter_nil, List.append_nil]
      rfl
    have hall : dispatchAll env fresh (.tick t true) rt =
        dispatchLive env rt (.tick t true) fresh.eventId := by
      unfold dispatchAll dispatchPrimary
      dsimp only
      rw [hlive, hheard]
      rfl
    refine ⟨(dispatch env.bus rt.emitterReplayBlocked rt.bus (.tick t true) fresh.eventId).bus,
      rt.dispatches ++ [(rt.isFatalHaltActive, .tick t true)], ?_⟩
    rw [if_neg hempty, hall, hlive, Step.andThen_of_ok (Step.ok_status _), Step.ok_runtime,
      drain_of_empty (by exact hqueue) hfuel, Step.andThen_of_ok (Step.ok_status _),
        Step.ok_runtime,
      drain_of_empty (by exact hqueue) hfuel]

theorem BeatFits.unique {event : RuntimeEvent} {log log' : LogState} {writer writer' : Writer}
    {wire wire' : CanonEvent} (h : BeatFits env rt event log writer wire)
    (h' : BeatFits env rt event log' writer' wire') :
    log = log' ∧ writer = writer' ∧ wire = wire' := by
  obtain rfl := Option.some.inj (h.tlog.symm.trans h'.tlog)
  refine ⟨rfl, Option.some.inj (h.writer_eq.symm.trans h'.writer_eq), ?_⟩
  exact Option.some.inj (Except.ok.inj (h.wire_eq.symm.trans h'.wire_eq))

/-- Behind its tick the writer is ready for a route tick that is not on record, well formed and
    not before the tick. -/
theorem AfterBeat.ready_iff {log : LogState} {writer : Writer} {tick route : CanonEvent}
    {rt' : EventRuntime κ η ι}
    (hfits : BeatFits env rt.openTick rt.openTick.tickEvent log writer tick)
    (h : AfterBeat rt.openTick rt.openTick.tickEvent writer tick rt')
    (hkind : route.kind = .routeTick) {log' : LogState} {w : Writer} (htlog : rt'.tlog = some log')
    (hwriter : log'.writer = some w) :
    HeartbeatFit env.gate w (linkWire rt' route) ↔
      checkInvalidRetry env.gate writer (linkWire rt route) = none ∧
        validateEvent (linkWire rt route) = .ok () ∧ tick.ts ≤ route.ts := by
  have htick : tick.kind = .tick := hfits.kind (.inl rfl)
  obtain ⟨log₁, w₁, htlog₁, hwriter₁, hedges, hlast, hpending, hts⟩ := h.writer
  obtain rfl := Option.some.inj (htlog.symm.trans htlog₁)
  obtain rfl := Option.some.inj (hwriter.symm.trans hwriter₁)
  have hlink : linkWire rt' route = linkWire rt route := by
    have hne : route.kind ≠ tick.kind := by simp [hkind, htick]
    unfold linkWire
    rw [h.chain, FMap.insert_of_ne _ _ hne]
    rfl
  have hretry : checkInvalidRetry env.gate w (linkWire rt route) =
      checkInvalidRetry env.gate writer (linkWire rt route) := by
    unfold checkInvalidRetry
    rw [hedges]
  rw [hlink]
  constructor
  · intro hfit
    refine ⟨hretry ▸ hfit.retry, hfit.valid, ?_⟩
    have hclock := hfit.clock
    rw [hts] at hclock
    exact le_of_max_le_right hclock
  · rintro ⟨hr, hvalid, hclock⟩
    refine ⟨hretry.trans hr, hvalid, ?_, ?_, ?_⟩
    · intro prev hprev
      rw [hlast, Option.mem_some_iff] at hprev
      right
      rw [← hprev]
      exact ⟨by simpa [linkWire] using htick, hkind⟩
    · intro req hreq
      have hnone : pendingAfter writer.pending (linkWire rt.openTick tick) = none := by
        have hlinked : (linkWire rt.openTick tick).kind = .tick := htick
        simp [pendingAfter, requiredSuccessor, hlinked, EventKind.eventClass]
      rw [hpending, hnone] at hreq
      cases hreq
    · rw [hts]
      exact max_le (hfits.fit.clock.trans hclock) hclock

/-- The runtime in front of the route tick, if nobody answered the tick. -/
theorem BeatFits.unanswered {log : LogState} {writer : Writer} {tick : CanonEvent}
    (hfits : BeatFits env rt.openTick rt.openTick.tickEvent log writer tick) (h : Unanswered env rt)
    (hfuel : 0 < fuel) :
    ∃ rt₂, answers env fuel (env.fresh rt.calls) rt.openTick.tickEvent
        (beatStep env rt.openTick rt.openTick.tickEvent).runtime = .ok rt₂ ∧
      AfterBeat rt.openTick rt.openTick.tickEvent writer tick rt₂ := by
  obtain ⟨-, hafter, hbus, hblocked, hrx⟩ := hfits.after (.inl rfl)
  generalize (beatStep env rt.openTick rt.openTick.tickEvent).runtime = rt'
    at hafter hbus hblocked hrx ⊢
  have hqueue : rt'.emitterRx = [] := by
    rw [hrx]
    show rt.emitterRx ++ List.filter _ (env.observe rt.invariantEngine tick).2.2 = []
    rw [h.engine, h.queue]
    rfl
  obtain ⟨bus, dispatches, hanswered⟩ := answers_unanswered hfuel (env.fresh rt.calls) hqueue
    (by rw [hbus, hblocked]; exact h.emitted) (by rw [hbus, hblocked]; exact h.panicked)
  exact ⟨_, hanswered, hafter.trail, hafter.writer, hafter.lastWritten, hafter.chain, hafter.calls,
    hafter.runtimeTick⟩

/-- If nobody answers the tick, the state in front of the call decides. -/
theorem beatKept_iff_ready (h : Unanswered env rt) (hfuel : 0 < fuel) :
    BeatKept env fuel rt ↔ ∃ log writer tick route, BeatReady env rt log writer tick route := by
  have hdrained : drain env fuel rt = .ok rt := drain_of_empty h.queue hfuel
  by_cases hticked : ∃ log writer wire,
      BeatFits env rt.openTick rt.openTick.tickEvent log writer wire
  · obtain ⟨log, writer, tick, hfits⟩ := hticked
    obtain ⟨rt₂, hanswered, hafter⟩ := hfits.unanswered h hfuel
    have htick := (hfits.after (.inl rfl)).1
    obtain ⟨log₂, w, htlog, hwriter, -⟩ := hafter.writer
    have hevent : rt₂.routeTickEvent = rt.openTick.routeTickEvent :=
      congrArg (fun t => RuntimeEvent.routeTick t true) hafter.runtimeTick
    have hparents : rt₂.parentsFor [] = [tick.id] := by
      simp [EventRuntime.parentsFor, hafter.lastWritten]
    have hready : (∃ log writer wire, BeatFits env rt₂ rt₂.routeTickEvent log writer wire) ↔
        ∃ log writer tick route, BeatReady env rt log writer tick route := by
      constructor
      · rintro ⟨log', w', route, hroute⟩
        have hkind : route.kind = .routeTick := hroute.kind (.inr rfl)
        have hfit := hroute.fit
        rw [hafter.ready_iff hfits hkind hroute.tlog hroute.writer_eq] at hfit
        have hwire := hroute.wire_eq
        rw [hparents, hafter.calls, hevent] at hwire
        exact ⟨log, writer, tick, route, hfits, hwire, hfit.1, hfit.2.1, hfit.2.2⟩
      · rintro ⟨log', w', tick', route, hfits', hwire, hretry, hvalid, hclock⟩
        obtain ⟨rfl, rfl, rfl⟩ := hfits.unique hfits'
        have hkind : route.kind = .routeTick :=
          (Option.some.inj (runtimeEventToWire_kind hwire)).symm
        refine ⟨log₂, w, route, htlog, hwriter, ?_, .inr (by simp [hparents]), ?_⟩
        · rw [hparents, hafter.calls, hevent]
          exact hwire
        · rw [hafter.ready_iff hfits hkind htlog hwriter]
          exact ⟨hretry, hvalid, hclock⟩
    rw [← hready]
    constructor
    · intro hkept
      by_contra hroute
      simp only [not_exists] at hroute
      obtain ⟨hfailed, extra, htrail, hextra⟩ := beatStep_unfit hroute (.inr rfl)
      -- The call ends with the append of the route tick.
      have hcall := emitTick_eq hdrained htick hanswered hafter.lastWritten
      rw [Step.andThen_of_ne_ok hfailed, Step.andThen_of_ne_ok hfailed] at hcall
      obtain ⟨a, ha, haevent, -, haout, -⟩ := hkept.2
      obtain ⟨b, hbefore, hbevent, -⟩ := hafter.trail
      rw [hcall, htrail, hbefore, List.append_assoc] at ha
      rw [show rt.trail.length = rt.openTick.trail.length from rfl, List.drop_left] at ha
      rcases List.mem_append.mp ha with ha | ha
      · simp only [List.mem_cons, reduceCtorEq, Record.appended.injEq, List.not_mem_nil, or_false,
          false_or] at ha
        rw [ha, hbevent] at haevent
        cases haevent
      · exact hextra a ha haout
    · intro hroute
      exact BeatGoes.kept ⟨hdrained, ⟨log, writer, tick, hfits⟩, hanswered, hroute⟩
  · simp only [not_exists] at hticked
    obtain ⟨hfailed, extra, htrail, hextra⟩ := beatStep_unfit hticked (.inl rfl)
    have hcall : emitTick env fuel rt = beatStep env rt.openTick rt.openTick.tickEvent := by
      have hemitted : emitEvent env fuel rt.openTick rt.openTick.tickEvent = _ :=
        emitEvent_beat (.inl rfl) (.inl rfl) fuel
      rw [Step.andThen_of_ne_ok hfailed] at hemitted
      unfold emitTick
      rw [hdrained, Step.andThen_of_ok rfl]
      show (emitEvent env fuel rt.openTick rt.openTick.tickEvent).andThen _ = _
      rw [hemitted, Step.andThen_of_ne_ok hfailed]
    refine iff_of_false ?_ ?_
    · rintro ⟨⟨a, ha, -, -, haout, -⟩, -⟩
      rw [hcall, htrail] at ha
      rw [show rt.trail.length = rt.openTick.trail.length from rfl, List.drop_left] at ha
      exact hextra a ha haout
    · rintro ⟨log, writer, tick, route, hready⟩
      exact hticked log writer tick hready.fits

end Call

variable (env)

/-- **The heartbeat.**  A beat puts its tick and its route tick into the log if the writer is
    ready for either at its turn; and if nobody answers the tick, exactly if it is ready for
    them in the state in front of the call. -/
theorem heartbeat_kept_iff (fuel : Nat) (rt : EventRuntime κ η ι) :
    (∀ rt₁ rt₂, BeatGoes env fuel rt rt₁ rt₂ → BeatKept env fuel rt) ∧
      (Unanswered env rt → 0 < fuel →
        (BeatKept env fuel rt ↔ ∃ log writer tick route, BeatReady env rt log writer tick route)) :=
  ⟨fun _ _ h => h.kept, beatKept_iff_ready⟩

end Beats

/-! ### Two beats in a row -/

instance (env : Env) (w : Writer) (wire : CanonEvent) : Decidable (HeartbeatFit env w wire) :=
  decidable_of_iff
    (checkInvalidRetry env w wire = none ∧ (validateEvent wire).toOption = some () ∧
      (∀ prev ∈ w.lastEvent,
        prev.kind.eventClass = .effect ∨ prev.kind = .tick ∧ wire.kind = .routeTick) ∧
      (∀ req ∈ w.pending, req.expected = wire.kind) ∧ w.lastTs ≤ wire.ts)
    (by
      rw [validateEvent_toOption]
      exact ⟨fun ⟨h₁, h₂, h₃, h₄, h₅⟩ => ⟨h₁, h₂, h₃, h₄, h₅⟩,
        fun h => ⟨h.retry, h.valid, h.last, h.pending, h.clock⟩⟩)

/-- The tick and the route tick of the first beat, as the writer gets them. -/
def firstTick : CanonEvent where
  id := "e-0"
  parentIds := []
  actor := "supervisor"
  kind := .tick
  ts := 0
  payload :=
    { input := .obj [("tick", .nat 1)]
      output := .obj [("emitted", .bool true)]
      delta := .obj [("emitted", .bool true)]
      payloadMeta := { file := "", line := 0 }
      data := .obj [("emitted", .bool true), ("tick", .nat 1)] }
  prevEventId := none

def firstRouteTick : CanonEvent :=
  { firstTick with id := "e-1", parentIds := ["e-0"], kind := .routeTick, ts := 1 }

/-- The first beat of a new runtime. -/
theorem heartbeat_kept_first : BeatKept quietEnv 5 quietRuntime :=
  ((heartbeat_kept_iff quietEnv 5 quietRuntime).2 ⟨rfl, fun _ => rfl, rfl, rfl⟩ (by decide)).mpr
    ⟨_, _, firstTick, firstRouteTick, ⟨rfl, rfl, rfl, .inl rfl, by decide +kernel⟩, rfl,
      by decide +kernel, rfl, by decide⟩

def afterBeat : Step Unit Unit Unit :=
  (liveMachine quietEnv).run (.ok quietRuntime) [(.emitTick, 5)]

def Record.outcome? : Record → Option Outcome
  | .appended a => some a.outcome
  | .handled .. => none

/-- After one beat the writer wants an observation; the tick of a second beat is refused,
    and the runtime panics. -/
theorem second_beat_refused :
    afterBeat.status = .ok ∧ (emitTick quietEnv 5 afterBeat.runtime).status.returned = false ∧
      ¬ BeatKept quietEnv 5 afterBeat.runtime := by
  refine ⟨by decide +kernel, by decide +kernel, ?_⟩
  rintro ⟨⟨a, ha, -, -, hout, -⟩, -⟩
  have hnone : Outcome.ok ∉ ((emitTick quietEnv 5 afterBeat.runtime).runtime.trail.drop
      afterBeat.runtime.trail.length).filterMap Record.outcome? := by decide +kernel
  apply hnone
  rw [← hout]
  exact List.mem_filterMap.mpr ⟨.appended a, ha, rfl⟩

end Canon.Runtime
