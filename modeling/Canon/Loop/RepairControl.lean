import Canon.Lib.Machine
import Canon.Loop.Events

/-! # The repair controller

    `repair_control_consumer.rs`.  The consumer reads the event stream, turns
    events into semantic signals and moves between repair phases along a table.
    Every entry into a pair of phase and signal is counted; a pair that was
    entered three times is an illegal region and leads to `Stuck`, whatever the
    table says.

    The state has two halves: what signal extraction keeps (`Sensors`) and what
    control keeps.  Assertions that only debug builds check are left out.
-/

namespace Canon.RepairControl

open Canon.Loop

/-! ### Signals and phases -/

inductive SemanticSignal where
  | missingTarget
  | plannedToAct
  | noopSpam
  | invariantViolation
  | invalidToolSelection
  | replanRequired
  | compilerClean
  | stagnantLoop
  | escapeDetected
  | actStall
  | controlDesync
deriving DecidableEq, Repr

def SemanticSignal.asStr : SemanticSignal → String
  | missingTarget => "missing_target"
  | plannedToAct => "planned_to_act"
  | noopSpam => "noop_spam"
  | invariantViolation => "invariant_violation"
  | invalidToolSelection => "invalid_tool_selection"
  | replanRequired => "replan_required"
  | compilerClean => "compiler_clean"
  | stagnantLoop => "stagnant_loop"
  | escapeDetected => "escape_detected"
  | actStall => "act_stall"
  | controlDesync => "control_desync"

inductive RepairPhase where
  | observing
  | classifying
  | transitioning
  | verifying
  | stuck
deriving DecidableEq, Repr

def RepairPhase.asStr : RepairPhase → String
  | observing => "observing"
  | classifying => "classifying"
  | transitioning => "transitioning"
  | verifying => "verifying"
  | stuck => "stuck"

/-- A pair of phase and signal that was entered, and how often; the count is a `u32`. -/
structure IllegalRegion where
  phase : RepairPhase
  signal : SemanticSignal
  tickFirst : Nat
  entryCount : Nat
deriving DecidableEq, Repr

structure TransitionRecord where
  tick : Nat
  fromPhase : RepairPhase
  signal : SemanticSignal
  toPhase : RepairPhase
deriving DecidableEq, Repr

def noopSpamWindow : Nat := 4

def stagnantTicksThreshold : Nat := 4

def illegalRegionThreshold : Nat := 3

def toolRejectThreshold : Nat := 2

/-! ### State -/

/-- What signal extraction keeps. -/
structure Sensors where
  tick : Nat
  /-- The kinds of the last actions, at most `noopSpamWindow`. -/
  recentActedKinds : List Text
  /-- The kind of the last plan that no action has answered. -/
  pendingPlanActionKind : Option Text
  consecutiveToolRejections : Nat

structure RepairControlConsumer where
  emitter : Bool
  sensors : Sensors
  phase : RepairPhase
  illegalRegions : List IllegalRegion
  transitionHistory : List TransitionRecord

def RepairControlConsumer.new : RepairControlConsumer where
  emitter := false
  sensors :=
    { tick := 0, recentActedKinds := [], pendingPlanActionKind := none
      consecutiveToolRejections := 0 }
  phase := .observing
  illegalRegions := []
  transitionHistory := []

/-! ### Signal extraction -/

namespace Sensors

/-- A tool call that was rejected or failed. -/
def toolRejected (s : Sensors) : Sensors × Option SemanticSignal :=
  let s := { s with consecutiveToolRejections := (s.consecutiveToolRejections + 1) % 2 ^ 32 }
  (s, if s.consecutiveToolRejections ≥ toolRejectThreshold then some .invalidToolSelection
    else none)

def toolAccepted (s : Sensors) : Sensors × Option SemanticSignal :=
  ({ s with consecutiveToolRejections := 0 }, none)

def acted (s : Sensors) (acted : LoopActed) : Sensors × Option SemanticSignal :=
  let kind := acted.actionKind.asStr
  let recent := s.recentActedKinds ++ [kind]
  let recent := if recent.length > noopSpamWindow then recent.tail else recent
  let matched := s.pendingPlanActionKind = some kind
  -- Either way the plan is not pending any more.
  let s := { s with
    tick := acted.tick
    recentActedKinds := recent
    pendingPlanActionKind := none }
  if recent.length ≥ noopSpamWindow && recent.all (· = kind) then (s, some .noopSpam)
  else (s, if matched then some .plannedToAct else none)

/-- The rules on an error, in this order. -/
def errorSignal (err : ErrorOccurred) : Option SemanticSignal :=
  let msg := Text.toLowercase err.message
  if err.kind = "act_stall" || Text.contains "scheduler is empty" msg then some .actStall
  else if err.kind = "control_desync" || Text.contains "missing required successor" msg ||
      Text.contains "expected=loop_acted; got=planning_completed" msg then some .controlDesync
  else if Text.contains "invariant" err.source || Text.contains "constraint" err.source then
    some .invariantViolation
  else if Text.contains "missing_target" err.source || Text.contains "no_target" err.source then
    some .missingTarget
  else if Text.contains "replan" err.source || Text.contains "route_rewrite" err.source then
    some .replanRequired
  else none

def extractSignal (s : Sensors) : RuntimeEvent → Sensors × Option SemanticSignal
  | .loopObserved e =>
    let summary := e.semanticSummary
    ({ s with tick := e.tick },
      if !summary.pathExists || summary.entrypointKind.isNone || !summary.moduleGaps.isEmpty then
        some .missingTarget
      else none)
  | .loopPlanned e =>
    ({ s with tick := e.tick, pendingPlanActionKind := some e.actionKind.asStr }, none)
  | .loopActed e => s.acted e
  | .loopVerified e =>
    ({ s with tick := e.tick },
      if e.compilerClean && e.passed then some .compilerClean
      else if !e.passed then some .replanRequired
      else none)
  | .loopRewarded e =>
    ({ s with tick := e.tick },
      if e.halt then some .replanRequired
      else if e.stagnantTicks ≥ stagnantTicksThreshold && e.deltaG ≤ 0 then some .stagnantLoop
      else none)
  | .routeSelected e =>
    (s, if e.gateChanged || e.gateShouldStop then some .replanRequired else none)
  | .toolCall e => if e.accepted then s.toolAccepted else s.toolRejected
  | .toolResult e => if e.success then s.toolAccepted else s.toolRejected
  | .errorOccurred e => (s, errorSignal e)
  | _ => (s, none)

end Sensors

/-! ### Phase transitions -/

/-- The table: the next phase and a note.  Pairs without an entry change nothing. -/
def transition : RepairPhase → SemanticSignal → Option (RepairPhase × String)
  | .observing, .missingTarget => some (.classifying, "missing_target_enter_classifying")
  | .observing, .invariantViolation => some (.classifying, "invariant_violation_enter_classifying")
  | .observing, .actStall => some (.classifying, "act_stall_enter_classifying")
  | .observing, .controlDesync => some (.classifying, "control_desync_enter_classifying")
  | .observing, .stagnantLoop => some (.classifying, "stagnant_loop_enter_classifying")
  | .observing, .compilerClean => some (.observing, "compiler_clean_stay_observing")
  | .observing, _ => none
  | .classifying, .plannedToAct => some (.transitioning, "plan_accepted_begin_transition")
  | .classifying, .noopSpam => some (.stuck, "noop_spam_enter_stuck")
  | .classifying, .invalidToolSelection => some (.classifying, "invalid_tool_replan")
  | .classifying, .replanRequired => some (.classifying, "replan_stay_classifying")
  | .classifying, .actStall => some (.classifying, "act_stall_force_replan")
  | .classifying, .controlDesync => some (.classifying, "control_desync_force_replan")
  | .classifying, .compilerClean => some (.observing, "compiler_clean_recovered")
  | .classifying, .invariantViolation => some (.classifying, "invariant_violation_classifying")
  | .classifying, _ => none
  | .transitioning, .invariantViolation =>
    some (.classifying, "invariant_violation_rejects_transition")
  | .transitioning, .plannedToAct => some (.verifying, "transition_acted_now_verifying")
  | .transitioning, .escapeDetected => some (.stuck, "escape_detected_in_transition")
  | .transitioning, .actStall => some (.classifying, "act_stall_recover_to_classifying")
  | .transitioning, .controlDesync => some (.classifying, "control_desync_recover_to_classifying")
  | .transitioning, .compilerClean => some (.observing, "compiler_clean_in_transition")
  | .transitioning, .replanRequired => some (.classifying, "replan_during_transition")
  | .transitioning, .noopSpam => some (.stuck, "noop_spam_in_transition")
  | .transitioning, _ => none
  | .verifying, .compilerClean => some (.observing, "verify_passed_success")
  | .verifying, .replanRequired => some (.classifying, "verify_failed_retry")
  | .verifying, .invariantViolation => some (.classifying, "invariant_violation_in_verifying")
  | .verifying, .actStall => some (.classifying, "act_stall_from_verifying")
  | .verifying, .controlDesync => some (.classifying, "control_desync_from_verifying")
  | .verifying, _ => none
  | .stuck, .escapeDetected => some (.stuck, "escape_blocked_still_stuck")
  | .stuck, .replanRequired => some (.classifying, "stuck_fresh_replan")
  | .stuck, .compilerClean => some (.observing, "stuck_then_clean_recovered")
  | .stuck, .actStall => some (.stuck, "act_stall_stuck")
  | .stuck, .controlDesync => some (.stuck, "control_desync_stuck")
  | .stuck, _ => none

namespace RepairControlConsumer

variable (c : RepairControlConsumer) (signal : SemanticSignal)

/-- One more entry into a region; a region that is not known yet is added. -/
def bumpRegion (tick : Nat) (phase : RepairPhase) (signal : SemanticSignal) :
    List IllegalRegion → List IllegalRegion
  | [] => [{ phase := phase, signal := signal, tickFirst := tick, entryCount := 1 }]
  | r :: rest =>
    if r.phase = phase ∧ r.signal = signal then
      { r with entryCount := (r.entryCount + 1) % 2 ^ 32 } :: rest
    else r :: bumpRegion tick phase signal rest

def recordEntryIntoRegion (phase : RepairPhase) (signal : SemanticSignal) : RepairControlConsumer :=
  { c with illegalRegions := bumpRegion c.sensors.tick phase signal c.illegalRegions }

def isIllegalRegion (phase : RepairPhase) (signal : SemanticSignal) :
    Bool :=
  c.illegalRegions.any fun r =>
    r.phase = phase && r.signal = signal && r.entryCount ≥ illegalRegionThreshold

def recordTransition (next : RepairPhase) :
    RepairControlConsumer :=
  let record (toPhase : RepairPhase) : TransitionRecord :=
    { tick := c.sensors.tick, fromPhase := c.phase, signal := signal, toPhase := toPhase }
  -- No phase is spelled like this, so the redirection never happens.
  if c.phase.asStr = "act" && next = .classifying then
    { c with transitionHistory := c.transitionHistory ++ [record .stuck] }
  else
    let history := c.transitionHistory ++ [record next]
    { c with transitionHistory := if history.length > 256 then history.tail else history }

/-- A signal in the current phase.  The answer is a note and the name of the phase that
    results; nothing when the table has no entry. -/
def advance :
    RepairControlConsumer × Option (String × String) :=
  let c := c.recordEntryIntoRegion c.phase signal
  -- The guard comes before the table.
  if c.isIllegalRegion c.phase signal && c.phase ≠ .stuck then
    ({ c.recordTransition signal .stuck with phase := .stuck },
      some ("illegal_region_escalation", RepairPhase.stuck.asStr))
  else if (c.phase = .transitioning || c.phase = .verifying) && signal = .actStall then
    (c, some ("act_stall_blocked_in_act_phase", c.phase.asStr))
  else
    match transition c.phase signal with
    | none => (c, none)
    | some (next, note) =>
      if next ≠ c.phase then
        ({ c.recordTransition signal next with phase := next }, some (note, next.asStr))
      else (c, some (note, next.asStr))

/-! ### Events -/

/-- A plan or an action while the controller is stuck. -/
def checkEscape (event : RuntimeEvent) : Bool :=
  c.phase = .stuck && match event with
    | .loopPlanned _ | .loopActed _ => true
    | _ => false

/-- How an event ends: without more, or with an error event. -/
inductive EventOutcome where
  | noOp (reason : String)
  | error (event : ErrorOccurred)

/-- The outcome, with the events emitted on the way. -/
structure Reply where
  outcome : EventOutcome
  emitted : List DebugEvent

def emitTransitionDebug (note toPhase : String) : Reply :=
  if c.emitter then
    { outcome := .noOp "repair_control_debug_emitted"
      emitted :=
        [{ source := "repair_control_consumer"
           kind := "repair_transition"
           payload := .obj [("signal", .str signal.asStr), ("to_phase", .str toPhase),
             ("note", .str note), ("tick", .nat c.sensors.tick),
             ("illegal_regions", .nat c.illegalRegions.length)] }] }
  else { outcome := .noOp "repair_control_no_emitter", emitted := [] }

def emitViolation (note : String) : Reply where
  outcome := .error
    { kind := "repair_control_consumer"
      source := "repair_control_consumer"
      message := note
      severity := "warning"
      context := .obj [("signal", .str signal.asStr), ("phase", .str c.phase.asStr),
        ("tick", .nat c.sensors.tick), ("illegal_regions", .nat c.illegalRegions.length),
        ("transition_count", .nat c.transitionHistory.length)] }
  emitted := []

def onEvent (event : RuntimeEvent) : RepairControlConsumer × Reply :=
  if c.checkEscape event then
    -- The event itself is not looked at any further.
    let c := (c.advance .escapeDetected).1
    (c, c.emitViolation .escapeDetected "repair_escape_detected_while_stuck")
  else
    let extracted := c.sensors.extractSignal event
    let c := { c with sensors := extracted.1 }
    match extracted.2 with
    | none => (c, ⟨.noOp "repair_control_no_signal", []⟩)
    | some signal =>
      match c.advance signal with
      | (c, none) => (c, ⟨.noOp "repair_control_no_transition", []⟩)
      | (c, some (note, toPhase)) =>
        (c,
          if signal = .noopSpam ∧ c.phase = .stuck then
            c.emitViolation signal "repair_noop_spam_stuck"
          else if signal = .invariantViolation ∧ c.phase = .stuck then
            c.emitViolation signal "repair_invariant_violation_stuck"
          else c.emitTransitionDebug signal note toPhase)

end RepairControlConsumer

/-- The consumer on an event stream. -/
def repairMachine : Machine RepairControlConsumer RuntimeEvent where
  step c event := (c.onEvent event).1

end Canon.RepairControl
