import Canon.Tlog.Acceptance

/-! # Two processes on one log

    Another process appends to the same log, and its control events come back
    through `notify_replayed_event`.  The notification sets the obligation of the
    local writer and leaves its last-event slot alone, so the successor it asks for
    is still checked against the last event written here.
-/

namespace Canon.Tlog

def notifyReplayedEvent (w : Writer) (event : CanonEvent) : Writer :=
  if event.kind.eventClass ≠ .control then w else { w with pending := requiredSuccessor event }

theorem notifyReplayedEvent_pending {event : CanonEvent} (h : event.isControl = true)
    (w : Writer) : (notifyReplayedEvent w event).pending = requiredSuccessor event := by
  have hclass : event.kind.eventClass = .control := by simpa [CanonEvent.isControl] using h
  simp [notifyReplayedEvent, hclass]

theorem notifyReplayedEvent_of_effect {event : CanonEvent} (h : event.isControl = false)
    (w : Writer) : notifyReplayedEvent w event = w := by
  have hclass : event.kind.eventClass ≠ .control := by simpa [CanonEvent.isControl] using h
  exact if_pos hclass

/-! ### Runs of both processes -/

inductive SharedOp where
  /-- A local call of `write_canon_event`. -/
  | write (event : CanonEvent) (sur : Surroundings)
  /-- The other process appended `event`, which left the directory as `dir`, and the
      local process was notified. -/
  | replay (event : CanonEvent) (dir : Dir)

/-- The log as the local process sees it. -/
structure SharedState where
  log : LogState
  /-- The last control event of the other process, unless a local control event was
      submitted after it. -/
  replayed : Option CanonEvent

def sharedMachine (env : Env) : Machine SharedState SharedOp where
  step s op :=
    match op with
    | .write event sur =>
      { log := (gateMachine env).step s.log (event, sur)
        replayed := if event.isControl then none else s.replayed }
    | .replay event dir =>
      { log :=
          { dir := dir
            writer := s.log.writer.map (notifyReplayedEvent · event)
            log := s.log.log ++ [event] }
        replayed := if event.isControl then some event else s.replayed }

def SharedState.opened (env : Env) (dir : Dir) (config : SegmentConfig) : SharedState :=
  { log := .opened env dir config, replayed := none }

/-- The obligation that is open is the one of the last replayed event. -/
def Synced (s : SharedState) : Prop :=
  ∀ w e, s.log.writer = some w → s.replayed = some e → w.pending = requiredSuccessor e

theorem Synced.opened (env : Env) (dir : Dir) (config : SegmentConfig) :
    Synced (.opened env dir config) := by
  intro w e _ he
  cases he

theorem Synced.step {env : Env} {s : SharedState} (h : Synced s) (op : SharedOp) :
    Synced ((sharedMachine env).step s op) := by
  cases op with
  | write event sur =>
    intro w' e hw' he
    -- A local control event takes the replayed one away; an effect event keeps the
    -- obligation.
    by_cases hctl : event.isControl = true
    · simp [sharedMachine, hctl] at he
    · have hkept : s.replayed = some e := by simpa [sharedMachine, hctl] using he
      change ((gateMachine env).step s.log (event, sur)).writer = some w' at hw'
      cases hw : s.log.writer with
      | none => simp [gateMachine, hw] at hw'
      | some w =>
        rw [← h w e hw hkept]
        rcases gate_step_cases env hw (event, sur) with hstep | hstep
        · exact absurd hstep.control hctl
        · rcases hstep.pending w' hw' with hsame | ⟨-, hcontrol, -⟩
          · exact hsame
          · exact absurd hcontrol hctl
  | replay event dir =>
    intro w' e hw' he
    obtain ⟨w, hw, rfl⟩ := Option.map_eq_some_iff.mp hw'
    by_cases hctl : event.isControl = true
    · have hlast : event = e := by simpa [sharedMachine, hctl] using he
      rw [notifyReplayedEvent_pending hctl, hlast]
    · have hkept : s.replayed = some e := by simpa [sharedMachine, hctl] using he
      rw [notifyReplayedEvent_of_effect (by simpa using hctl)]
      exact h w e hw hkept

/-! ### The successor of a replayed event -/

/-- The call took the event and put it on disk. -/
structure Taken (event : CanonEvent) (r : WriteResult) : Prop where
  outcome : r.outcome = .ok
  wrote : r.wrote = [normalizeDelta event]

/-- The successor the last replayed event asks for is submitted, well formed and not
    older than what was written here. -/
structure Awaited (s : SharedState) (w : Writer) (event : CanonEvent) : Prop where
  writer : s.log.writer = some w
  successor : ∃ e p, s.replayed = some e ∧ requiredSuccessor e = some p ∧ event.kind = p.expected
  formed : validateEvent event = .ok ()
  fresh : w.lastTs ≤ event.ts

/-- The two processes agree: an awaited successor is taken. -/
def Agrees (env : Env) (s : SharedState) (op : SharedOp) : Prop :=
  ∀ event sur w, op = .write event sur → Awaited s w event →
    Taken event (writeCanonEvent env sur s.log.dir w event)

/-- An awaited successor is no blocked retry and may follow the last local event. -/
def Passes (env : Env) (s : SharedState) (op : SharedOp) : Prop :=
  ∀ event sur w, op = .write event sur → Awaited s w event →
    checkInvalidRetry env w event = none ∧ transitionError w event = none

/-- **Agreement of two processes.**  In every run of both, awaited successors are taken
    exactly when each finds its way past the checks against what was written here. -/
theorem shared_obligations_agree_iff (env : Env) (dir : Dir) (config : SegmentConfig)
    (ops : List SharedOp) :
    (sharedMachine env).Along (Agrees env) (.opened env dir config) ops ↔
      (sharedMachine env).Along (Passes env) (.opened env dir config) ops := by
  refine Machine.along_congr_of_along _ (G := fun _ _ => True) (I := Synced)
    (fun s op h _ => h.step op) ?_ (Synced.opened env dir config) ?_
  · intro s op hsynced _
    refine forall_congr' fun event => forall_congr' fun sur => forall_congr' fun w => ?_
    refine imp_congr_right fun _ => imp_congr_right fun hawaited => ?_
    obtain ⟨e, p, he, hreq, hkind⟩ := hawaited.successor
    have hpending : w.pending = some p := (hsynced w e hawaited.writer he).trans hreq
    have hwritten := written_iff_of_pending hpending hreq env sur s.log.dir hkind hawaited.formed
      hawaited.fresh
    rw [← hwritten]
    exact ⟨fun htaken => ⟨htaken.outcome, htaken.wrote⟩, fun h => ⟨h.1, h.2⟩⟩
  · exact Machine.along_of_forall _ fun _ _ => trivial

/-! ### A successor that is refused -/

def observation : CanonEvent := sampleEvent "obs-1" .loopObserved 3 (.obj [])

def planRoute : CanonEvent :=
  sampleEvent "route-2" .routeSelected 4 (.obj [("approved_route", .str "plan")])

def planEnd : CanonEvent := sampleEvent "plan-1" .planningCompleted 5 (.obj [])

def callAt (event : CanonEvent) : Surroundings :=
  { parentId := "p-" ++ event.id, violationId := "v-" ++ event.id, now := event.ts }

/-- An observation is written here, the other process selects the route to `plan`, and
    planning ends here. -/
def foreignRoute : List SharedOp :=
  [.write observation (callAt observation),
    .replay planRoute
      ((gateMachine chainEnv).run freshChain (callsOf [observation, planRoute])).dir,
    .write planEnd (callAt planEnd)]

/-- The local last-event slot still holds the observation, after which no end of
    planning may come. -/
theorem foreign_route_refused :
    ¬ ∀ (env : Env) (dir : Dir) (config : SegmentConfig) (ops : List SharedOp),
        (sharedMachine env).Along (Agrees env) (.opened env dir config) ops := by
  intro hall
  have hagrees := (hall chainEnv Dir.empty .default foreignRoute).2.2.1
  have htaken := hagrees planEnd (callAt planEnd) _ rfl
    ⟨rfl, ⟨planRoute, _, rfl, rfl, rfl⟩, by decide +kernel, by decide +kernel⟩
  exact absurd htaken.outcome (by decide +kernel)

end Canon.Tlog
