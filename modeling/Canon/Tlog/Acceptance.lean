import Canon.Tlog.ControlChain

/-! # What an open obligation asks for is accepted

    The transition check looks at the last event, the obligation sits in a slot of
    its own, and the two come from different tables.  In a log that was started
    empty they cannot contradict each other: while an obligation is open, the last
    control event of the log is the one that opened it, and the table of
    transitions allows what it asks for.

    What is left is the check for retries in front of the gate.  It remembers
    rejected events for good, and answers with an error when one of them comes
    back, also when an obligation asks for it by then.
-/

namespace Canon.Tlog

variable {event : CanonEvent} {w : Writer} (env : Env)

/-- The edge from the first parent of the event was rejected earlier. -/
def RejectedBefore (w : Writer) (event : CanonEvent) : Prop :=
  isInvariantViolationEvent event = false ∧
    ∃ parent ∈ event.parentIds.head?, rejectedEdge env event parent ∈ w.rejectedEdges.seen

/-! ### Classes -/

theorem eventClass_of_mem_allowedNext {kind next : EventKind} (h : next ∈ kind.allowedNext) :
    next.eventClass = .control := by
  have hall : ∀ k ∈ kind.allowedNext, k.eventClass = .control := by
    cases kind <;> decide
  exact hall next h

/-- Obligations are about control events. -/
theorem requiredSuccessor_control {e : CanonEvent} {p : PendingTransition}
    (h : requiredSuccessor e = some p) : p.expected.eventClass = .control :=
  eventClass_of_mem_allowedNext (requiredSuccessor_mem_allowedNext h)

theorem checkInvalidRetry_of_control {env : Env} (hctl : event.kind.eventClass = .control) :
    checkInvalidRetry env w event = none ↔ ¬ RejectedBefore env w event := by
  -- Only effect events are recovery events.
  have hrecovery : isRecoveryEvent event = false := by
    unfold isRecoveryEvent
    split
    · rename_i hkind
      rw [hkind] at hctl
      cases hctl
    · rename_i hkind
      rw [hkind] at hctl
      cases hctl
    · rfl
  unfold checkInvalidRetry RejectedBefore
  rw [hrecovery, Bool.false_or]
  cases isInvariantViolationEvent event with
  | true => simp
  | false =>
    cases event.parentIds with
    | nil => simp
    | cons parent rest => simp

/-! ### The clock of the writer -/

/-- The clock shows the time of the last event written. -/
def KeepsClock (w : Writer) (r : WriteResult) : Prop :=
  r.writer.lastTs = (r.wrote.getLast?.map (·.ts)).getD w.lastTs

def NonNull (event : CanonEvent) : Prop :=
  event.payload.input.isNull = false ∧ event.payload.output.isNull = false ∧
    event.payload.delta.isNull = false

theorem nonNull_of_valid (h : validateEvent event = .ok ()) :
    NonNull event := by
  unfold validateEvent at h
  split at h
  · cases h
  · split at h
    · cases h
    · rename_i hnull
      simp only [Bool.or_eq_true, not_or, Bool.not_eq_true] at hnull
      exact ⟨hnull.1.1, hnull.1.2, hnull.2⟩

theorem accepts_iff_of_nonNull (h : NonNull event) :
    Accepts w event ↔ w.lastTs ≤ event.ts := by
  constructor
  · intro hacc
    exact hacc.1
  · intro hts
    exact ⟨hts, h⟩

theorem writeCanonEventInner_keepsClock (h : NonNull event) (S : Serde) (held : Bool) (dir : Dir) :
    KeepsClock w (writeCanonEventInner S held dir w event) := by
  unfold KeepsClock
  by_cases hacc : Accepts w event
  · rw [writeCanonEventInner_of_accepts hacc]
    show max w.lastTs event.ts = (normalizeDelta event).ts
    rw [normalizeDelta_ts]
    have hts := hacc.1
    omega
  · obtain ⟨message, hr⟩ := writeCanonEventInner_of_not_accepts hacc S held dir
    rw [hr]
    show max w.lastTs event.ts = w.lastTs
    rw [accepts_iff_of_nonNull h] at hacc
    omega

theorem recordRejectedEdge_keepsClock (sur : Surroundings) (held : Bool) (dir : Dir) (w : Writer)
    (event : CanonEvent) (message : String) (parent : Option String) :
    KeepsClock w (recordRejectedEdge env sur held dir w event message parent) := by
  unfold recordRejectedEdge recordRejectedEdgeWith
  split
  · rfl
  · dsimp only
    split
    · exact writeCanonEventInner_keepsClock ⟨rfl, rfl, rfl⟩ env.serde held dir
    · rfl

theorem KeepsClock.andThen {r : WriteResult} (h : KeepsClock w r) {k : Dir → Writer → WriteResult}
    (hwrote : ∀ dir w', (k dir w').wrote = [])
    (hclock : ∀ dir w', (k dir w').writer.lastTs = w'.lastTs) : KeepsClock w (r.andThen k) := by
  unfold WriteResult.andThen
  split
  · show (k r.dir r.writer).writer.lastTs =
      ((r.wrote ++ (k r.dir r.writer).wrote).getLast?.map (·.ts)).getD w.lastTs
    rw [hclock, hwrote, List.append_nil]
    exact h
  · exact h

theorem persist_keepsClock (h : NonNull event) (env : Env) (dir : Dir) :
    KeepsClock w (persist env dir w event) := by
  apply (writeCanonEventInner_keepsClock h env.serde false dir).andThen
  · intro dir w'
    split
    · rfl
    · split <;> rfl
  · intro dir w'
    split
    · rfl
    · split <;> rfl

theorem writeCanonEvent_keepsClock (sur : Surroundings) (dir : Dir) (w : Writer)
    (event : CanonEvent) : KeepsClock w (writeCanonEvent env sur dir w event) := by
  have hshape := writeCanonEvent_shape env sur dir w event
  generalize writeCanonEvent env sur dir w event = r at hshape ⊢
  cases hshape with
  | refused held message parent f why =>
    exact (recordRejectedEdge_keepsClock env sur held dir w event message parent).andThen
      (fun _ _ => rfl) fun _ _ => rfl
  | remembered passes suppressed => rfl
  | append w' touched passes unsuppressed =>
    have hts : w'.lastTs = w.lastTs := by rw [touched.same]
    have hclock := persist_keepsClock (w := w') (nonNull_of_valid passes.valid) env dir
    rw [persistWith_inner]
    unfold KeepsClock at hclock ⊢
    rw [hclock, hts]

/-! ### The invariant -/

/-- The slots of the writer say what the log says, as long as the log is all there
    is: `obligation` is what keeps the two tables from contradicting each other. -/
structure SlotInv (s : LogState) : Prop where
  clock : ∀ w, s.writer = some w → w.lastTs = (s.log.getLast?.map (·.ts)).getD 0
  slot : ∀ w, s.writer = some w → w.lastEvent = s.log.getLast?
  obligation : ∀ w req, s.writer = some w → w.pending = some req →
    ∃ a, lastControl s.log = some a ∧ requiredSuccessor a = some req

theorem SlotInv.initial (config : SegmentConfig) :
    SlotInv (.opened env Dir.empty config) where
  clock := by
    intro w hw
    obtain rfl := Option.some.inj hw
    rfl
  slot := by
    intro w hw
    obtain rfl := Option.some.inj hw
    rfl
  obligation := by
    intro w req hw hreq
    obtain rfl := Option.some.inj hw
    cases hreq

theorem SlotInv.step {env : Env} {s : LogState} (h : SlotInv s)
    (call : CanonEvent × Surroundings) : SlotInv ((gateMachine env).step s call) := by
  cases hw : s.writer with
  | none =>
    rw [gateMachine_idle _ hw]
    exact h
  | some w =>
    refine ⟨?_, ?_, ?_⟩
    · intro w' hw'
      simp only [gateMachine, hw] at hw' ⊢
      split at hw'
      · cases hw'
      · have hclock := writeCanonEvent_keepsClock env call.2 s.dir w call.1
        rw [← Option.some.inj hw', hclock, h.clock w hw, List.getLast?_append]
        cases (writeCanonEvent env call.2 s.dir w call.1).wrote.getLast? <;> rfl
    · intro w' hw'
      rcases gate_step_cases env hw call with hstep | hstep
      · obtain ⟨w'', hw'', hlast, -⟩ := hstep.writer
        obtain rfl : w'' = w' := Option.some.inj (hw''.symm.trans hw')
        rw [hstep.log, hlast, List.getLast?_concat]
      · rcases hstep.slot w' hw' with hslot | ⟨hsame, hlog⟩
        · exact hslot
        · rw [hsame, hlog]
          exact h.slot w hw
    · intro w' req hw' hreq
      rcases gate_step_cases env hw call with hstep | hstep
      -- A control event that is persisted opens its own obligation, if any.
      · obtain ⟨w'', hw'', -, hpend⟩ := hstep.writer
        obtain rfl : w'' = w' := Option.some.inj (hw''.symm.trans hw')
        have hctl : (normalizeDelta call.1).isControl = true := by simpa using hstep.control
        refine ⟨normalizeDelta call.1, ?_, ?_⟩
        · rw [hstep.log, lastControl_append_control _ hctl]
        · rw [normalizeDelta_requiredSuccessor]
          rw [hpend, pendingAfter] at hreq
          split at hreq
          · cases hreq
          · rwa [if_pos (by simpa [CanonEvent.isControl] using hstep.control)] at hreq
      · have hlast : lastControl ((gateMachine env).step s call).log = lastControl s.log := by
          rw [lastControl, hstep.controls, lastControl]
        rw [hlast]
        rcases hstep.pending w' hw' with hsame | ⟨hnone, -⟩
        · exact h.obligation w req hw (hsame.symm.trans hreq)
        · rw [hnone] at hreq
          cases hreq

theorem slotInv_run (config : SegmentConfig) (calls : List (CanonEvent × Surroundings)) :
    SlotInv ((gateMachine env).run (.opened env Dir.empty config) calls) :=
  (gateMachine env).run_invariant (fun _ call h => h.step call) calls (SlotInv.initial env config)

/-! ### Acceptance -/

section Open

variable {s : LogState} {w : Writer} {req : PendingTransition}

/-- Whatever control event the transition check compares with, it allows what the
    obligation asks for. -/
theorem SlotInv.expected_allowed (h : SlotInv s) (hw : s.writer = some w)
    (hopen : w.pending = some req) {prev : CanonEvent} (hprev : w.lastEvent = some prev)
    (hctl : prev.isControl = true) : req.expected ∈ prev.kind.allowedNext := by
  obtain ⟨a, ha, hreq⟩ := h.obligation w req hw hopen
  rw [h.slot w hw] at hprev
  have hlast := lastControl_of_getLast? hprev hctl
  rw [ha] at hlast
  obtain rfl := Option.some.inj hlast
  exact requiredSuccessor_mem_allowedNext hreq

theorem SlotInv.transitionError (h : SlotInv s) (hw : s.writer = some w)
    (hopen : w.pending = some req) {event : CanonEvent} (hkind : event.kind = req.expected) :
    transitionError w event = none := by
  unfold Tlog.transitionError
  cases hlast : w.lastEvent with
  | none => rfl
  | some prev =>
    have hok : validateTransition prev event = .ok () := by
      rw [validateTransition_ok_iff]
      intro hprev _
      rw [hkind]
      exact h.expected_allowed hw hopen hlast hprev
    simp only [hok]

theorem checkPending_expected {event : CanonEvent} (hkind : event.kind = req.expected) :
    ∀ r, checkPending (some req) event ≠ .violated r := by
  intro r
  simp only [checkPending]
  split
  · simp
  · rw [if_neg (by simpa using hkind)]
    simp

/-- With its obligation open, a well-formed event of the right kind that is not late is written
    exactly when it is no blocked retry and may follow the last event. -/
theorem written_iff_of_pending (hopen : w.pending = some req) {a : CanonEvent}
    (hreq : requiredSuccessor a = some req) (env : Env) (sur : Surroundings) (dir : Dir)
    {event : CanonEvent} (hkind : event.kind = req.expected)
    (hvalid : validateEvent event = .ok ()) (hts : w.lastTs ≤ event.ts) :
    (writeCanonEvent env sur dir w event).outcome = .ok ∧
        (writeCanonEvent env sur dir w event).wrote = [normalizeDelta event] ↔
      checkInvalidRetry env w event = none ∧ Tlog.transitionError w event = none := by
  have hctl : event.kind.eventClass = .control := by
    rw [hkind]
    exact requiredSuccessor_control hreq
  have hnew : ¬ Suppressed env w event := fun hsup => hsup.1 hctl
  have hacc : Accepts w event := by
    rw [accepts_iff_of_nonNull (nonNull_of_valid hvalid)]
    exact hts
  constructor
  · intro ⟨hok, _⟩
    have hpass := ((writeCanonEvent_ok_iff env sur dir w event).mp hok).1
    exact ⟨hpass.retry, hpass.transition⟩
  · intro ⟨hretry, htransition⟩
    have hpass : PassesChecks env w event := by
      refine ⟨hretry, hvalid, htransition, ?_⟩
      rw [hopen]
      exact checkPending_expected hkind
    have hok := (writeCanonEvent_ok_iff env sur dir w event).mpr ⟨hpass, .inr hacc⟩
    exact ⟨hok, by rw [writeCanonEvent_wrote_of_ok hok, if_neg hnew]⟩

theorem SlotInv.accepted_iff (h : SlotInv s) (hw : s.writer = some w)
    (hopen : w.pending = some req) (env : Env) (sur : Surroundings) {event : CanonEvent}
    (hkind : event.kind = req.expected) (hvalid : validateEvent event = .ok ())
    (hts : ∀ last ∈ s.log.getLast?, last.ts ≤ event.ts) :
    (writeCanonEvent env sur s.dir w event).outcome = .ok ∧
        (writeCanonEvent env sur s.dir w event).wrote = [normalizeDelta event] ↔
      ¬ RejectedBefore env w event := by
  obtain ⟨a, -, hreq⟩ := h.obligation w req hw hopen
  have hctl : event.kind.eventClass = .control := by
    rw [hkind]
    exact requiredSuccessor_control hreq
  have hclock : w.lastTs ≤ event.ts := by
    rw [h.clock w hw]
    cases hlast : s.log.getLast? with
    | none => exact Nat.zero_le _
    | some last => exact hts last hlast
  rw [written_iff_of_pending hopen hreq env sur s.dir hkind hvalid hclock,
    checkInvalidRetry_of_control hctl]
  exact and_iff_left (h.transitionError hw hopen hkind)

end Open

/-- **When the required successor is accepted.**  In every state reached from an
    empty directory with an obligation open: the transition check allows what is
    asked for, and an event of that kind is written if and only if it was not
    rejected earlier after the same parent. -/
theorem required_successor_accepted_iff (env : Env) (config : SegmentConfig)
    (calls : List (CanonEvent × Surroundings)) (sur : Surroundings) (w : Writer)
    (req : PendingTransition) (event : CanonEvent)
    (hw : ((gateMachine env).run (.opened env Dir.empty config) calls).writer = some w)
    (hopen : w.pending = some req) (hkind : event.kind = req.expected)
    (hvalid : validateEvent event = .ok ())
    (hts : ∀ last ∈ ((gateMachine env).run (.opened env Dir.empty config) calls).log.getLast?,
      last.ts ≤ event.ts) :
    let s := (gateMachine env).run (.opened env Dir.empty config) calls
    (∀ prev, w.lastEvent = some prev → prev.isControl = true →
        req.expected ∈ prev.kind.allowedNext) ∧
      ((writeCanonEvent env sur s.dir w event).outcome = .ok ∧
          (writeCanonEvent env sur s.dir w event).wrote = [normalizeDelta event] ↔
        ¬ RejectedBefore env w event) := by
  intro s
  have hinv : SlotInv s := slotInv_run env config calls
  refine ⟨?_, hinv.accepted_iff hw hopen env sur hkind hvalid hts⟩
  intro prev hprev hctl
  exact hinv.expected_allowed hw hopen hprev hctl

/-! ### Sample runs -/

/-- The first route has no parent; the act names it as its own. -/
def firstRoute : CanonEvent :=
  { sampleEvent "p" .routeSelected 1 (.obj [("approved_route", .str "observe")]) with
    parentIds := [] }

def secondRoute : CanonEvent :=
  sampleEvent "route-2" .routeSelected 6 (.obj [("approved_route", .str "act")])

def refusedAct : CanonEvent := sampleEvent "act-1" .loopActed 4 (.obj [])

/-- The act again, at a later time. -/
def laterAct : CanonEvent := sampleEvent "act-2" .loopActed 7 (.obj [])

def retryEnv : Env where
  serde := .ofTable
    [(firstRoute,
      "\x7b\"id\":\"p\",\"parent_ids\":[],\"actor\":\"a\",\"kind\":\"route_selected\",\"ts\":1,"
        ++ "\"payload\":\x7b\"input\":\x7b\x7d,\"output\":\x7b\x7d,\"delta\":\x7b\"_auto\":true\x7d,"
        ++ "\"meta\":\x7b\"file\":\"f\",\"line\":1\x7d,"
        ++ "\"data\":\x7b\"approved_route\":\"observe\"\x7d\x7d\x7d"),
     (secondRoute, sampleText "route-2" "route_selected" 6 "\x7b\"approved_route\":\"act\"\x7d"),
     (refusedAct, sampleText "act-1" "loop_acted" 4 "\x7b\x7d"),
     (laterAct, sampleText "act-2" "loop_acted" 7 "\x7b\x7d")]
  contentHash kind _ _ := kind.asStr.length

def retryState (events : List CanonEvent) : LogState :=
  (gateMachine retryEnv).run (.opened retryEnv Dir.empty .default) (callsOf events)

def actWriter : Writer := (retryState [secondRoute]).writer.get (by rfl)

/-- Right after a route to `act` the act is written. -/
theorem required_successor_accepted_act :
    (writeCanonEvent retryEnv ⟨"p-act-2", "v-act-2", 8⟩ (retryState [secondRoute]).dir actWriter
        laterAct).outcome = .ok ∧
      (writeCanonEvent retryEnv ⟨"p-act-2", "v-act-2", 8⟩ (retryState [secondRoute]).dir actWriter
        laterAct).wrote = [normalizeDelta laterAct] := by
  refine (required_successor_accepted_iff retryEnv .default (callsOf [secondRoute]) _ actWriter
    { expected := .loopActed, parent := "route-2", sourceKind := .routeSelected,
      note := "approved_route=act" } laterAct
    rfl (by decide +kernel) rfl rfl (by decide +kernel)).2.mpr ?_
  intro ⟨_, parent, _, hseen⟩
  have hempty : actWriter.rejectedEdges.seen = [] := by decide +kernel
  rw [hempty] at hseen
  cases hseen

/-- An act that was refused under an obligation to observe is refused again when
    the next route asks for it. -/
theorem required_successor_blocked :
    let s := retryState [firstRoute, refusedAct, secondRoute]
    (s.writer.map fun w => w.pending.map (·.expected)) = some (some laterAct.kind) ∧
      (validateEvent laterAct).toOption = some () ∧
      (∀ last ∈ s.log.getLast?, last.ts ≤ laterAct.ts) ∧
      (∀ e ∈ s.log, eventContentHash retryEnv e ≠ eventContentHash retryEnv laterAct) ∧
      (s.writer.map fun w =>
          (writeCanonEvent retryEnv ⟨"p-act-2", "v-act-2", 8⟩ s.dir w laterAct).outcome) =
        some (.err ("invariant violation: invalid_retry parent=p; kind=loop_acted; "
          ++ "blocked until recovery_event/reset_event/override_event")) := by
  decide +kernel

end Canon.Tlog
