import Canon.Loop.Events

/-! # The route executor and the control successors

    `RouteExecutor` turns the last semantic summary into a `RouteSelected`, at most
    once per tick.  It has its own table of the event that has to follow a control
    event; the log writer has another (`requiredSuccessor`, `requiredSuccessorKind`).
    This module compares the two on every control event, and for `RouteSelected` on
    the route names the executor writes into the event.
-/

namespace Canon.Route

open Canon.Loop Canon.Tlog

/-! ### Decisions -/

inductive RouteKind where
  | observe
  | plan
  | act
  | verify
  | conclude
  | decompose
deriving DecidableEq, Repr

/-- The name the enumeration's `Debug` form prints. -/
def RouteKind.debugName : RouteKind → Text
  | observe => "Observe"
  | plan => "Plan"
  | act => "Act"
  | verify => "Verify"
  | conclude => "Conclude"
  | decompose => "Decompose"

structure RouteDecision where
  lane : RouteKind
  suggestedRoute : RouteKind
  rationale : Text
  confidence : Option Float32
  changed : Bool
  note : Text
  gateRulesFired : List Text
  shouldStop : Bool
  prompt : Text
deriving Repr

variable {rs : RouteSelected} (semantic : SemanticStateSummary)

/-- The lane of an observed state.  The source goes on behind these tests, but
    `path_exists` and its negation leave nothing over. -/
def laneOf : RouteKind :=
  if semantic.complete then .observe
  else if semantic.cargoProject || semantic.rustFileCount.getD 0 > 0 then .act
  else if semantic.pathExists then .act
  else .plan

def decideFromJson (prompt : Text) : RouteDecision :=
  if semantic.version = 0 then
    { lane := .plan, suggestedRoute := .plan
      rationale := "semantic_state_uninitialized::Plan"
      confidence := some 0.5
      changed := true
      note := "semantic_state_uninitialized"
      gateRulesFired := ["semantic_state_required"]
      shouldStop := false
      prompt := prompt }
  else
    { lane := laneOf semantic, suggestedRoute := laneOf semantic
      rationale := "semantic_state_routing::" ++ (laneOf semantic).debugName
      confidence := some 0.9
      changed := false
      note := "semantic_state_routing"
      gateRulesFired := []
      shouldStop := false
      prompt := prompt }

/-! ### Emission -/

structure RouteExecutor where
  semanticSummary : SemanticStateSummary
  schedulerTick : Nat
  lastRoutedTick : Option Nat
deriving Repr

def routeSelectedOf (tick : Nat) (decision : RouteDecision) (modelJson : Text) :
    RouteSelected where
  tick := tick
  suggestedRoute := decision.lane.debugName
  prompt := decision.prompt
  approvedRoute := decision.lane.debugName
  rationale := decision.rationale
  confidence := decision.confidence
  gateNote := decision.note
  gateRulesFired := decision.gateRulesFired
  gateChanged := decision.changed
  gateShouldStop := decision.shouldStop
  modelJson := modelJson

/-- One dispatch: nothing on a tick that already has its route. -/
def RouteExecutor.tryDispatchRoute (x : RouteExecutor) : RouteExecutor × Option RouteSelected :=
  if x.lastRoutedTick = some x.schedulerTick then (x, none)
  else
    let decision := decideFromJson x.semanticSummary []
    ({ x with lastRoutedTick := some x.schedulerTick },
      some (routeSelectedOf x.schedulerTick decision []))

/-- On a `LoopObserved`: nothing while no summary has been observed. -/
def RouteExecutor.onLoopObserved (x : RouteExecutor) : RouteExecutor × Option RouteSelected :=
  if x.semanticSummary.version = 0 then (x, none) else x.tryDispatchRoute

/-- The executor never decides for verify, conclude or decompose. -/
theorem decideFromJson_lane (prompt : Text) :
    (decideFromJson semantic prompt).lane ∈ [RouteKind.observe, .plan, .act] := by
  unfold decideFromJson
  split
  · show RouteKind.plan ∈ _
    decide
  · show laneOf semantic ∈ _
    unfold laneOf
    split
    · decide
    · split
      · decide
      · split <;> decide

theorem onLoopObserved_approvedRoute {x : RouteExecutor} (h : x.onLoopObserved.2 = some rs) :
    ∃ lane ∈ [RouteKind.observe, .plan, .act], rs.approvedRoute = lane.debugName := by
  unfold RouteExecutor.onLoopObserved RouteExecutor.tryDispatchRoute at h
  split at h
  · cases h
  · split at h
    · cases h
    · cases h
      exact ⟨_, decideFromJson_lane _ _, rfl⟩

/-! ### The executor's table -/

def controlSuccessorForEvent : RuntimeEvent → Option String
  | .routeSelected rs =>
    let route := Text.toLowercase rs.approvedRoute
    if route = "observe" then some "loop_observed"
    else if route = "plan" then some "planning_completed"
    else if route = "act" then some "loop_acted"
    else if route = "verify" then some "loop_verified"
    else if route = "conclude" then some "loop_rewarded"
    else none
  | .loopObserved _ => some "route_selected"
  | .planningCompleted _ => some "route_selected"
  | .loopActed _ => some "route_selected"
  | .loopVerified _ => some "verifier_policy_updated"
  | .verifierPolicyUpdated _ => some "loop_rewarded"
  | .loopRewarded _ => some "route_selected"
  | _ => none

/-- `entry` is the log entry of `event`: the same kind, and the fields of the event
    as its data. -/
structure Records (entry : CanonEvent) (event : RuntimeEvent) : Prop where
  kind : entry.kind = event.kind
  route : ∀ rs, event = .routeSelected rs →
    entry.payload.data.get "approved_route" = some (jsonText rs.approvedRoute)

/-- The writer's two tables name the kind the executor's table names. -/
def TablesAgree (entry : CanonEvent) (event : RuntimeEvent) : Prop :=
  (requiredSuccessor entry).map (·.expected.asStr) = controlSuccessorForEvent event ∧
    (requiredSuccessorKind entry.kind (routeSelectedTarget entry)).map EventKind.asStr =
      controlSuccessorForEvent event

/-- What the route executor can emit. -/
def Emittable : RuntimeEvent → Prop
  | .routeSelected rs => ∃ x : RouteExecutor, x.onLoopObserved.2 = some rs
  | _ => True

/-! ### Comparison -/

theorem routeSelectedTarget_of_records {entry : CanonEvent} (h : Records entry (.routeSelected rs))
    :
    routeSelectedTarget entry = some (String.ofList rs.approvedRoute) := by
  simp [routeSelectedTarget, h.route rs rfl, jsonText, Json.asStr]

/-- The writer knows none of the names the executor writes. -/
theorem requiredSuccessor_routeSelected {entry : CanonEvent} (h : Records entry (.routeSelected rs))
    {x : RouteExecutor} (hx : x.onLoopObserved.2 = some rs) : requiredSuccessor entry = none := by
  have hkind : entry.kind = .routeSelected := h.kind
  obtain ⟨lane, hlane, hroute⟩ := onLoopObserved_approvedRoute hx
  have hnone :
    requiredSuccessorKind .routeSelected (some (String.ofList rs.approvedRoute)) = none := by
    rw [hroute]
    simp only [List.mem_cons, List.not_mem_nil, or_false] at hlane
    rcases hlane with rfl | rfl | rfl <;> decide
  rw [requiredSuccessor, if_neg (by simp [hkind, EventKind.eventClass])]
  simp only [hkind, routeSelectedTarget_of_records h, Option.bind_some, hnone, Option.map_none]

theorem controlSuccessorForEvent_routeSelected {x : RouteExecutor}
    (hx : x.onLoopObserved.2 = some rs) :
    controlSuccessorForEvent (.routeSelected rs) ≠ none := by
  obtain ⟨lane, hlane, hroute⟩ := onLoopObserved_approvedRoute hx
  simp only [controlSuccessorForEvent, hroute]
  simp only [List.mem_cons, List.not_mem_nil, or_false] at hlane
  rcases hlane with rfl | rfl | rfl <;> decide

/-- The tables agree on every control event but two: the executor has no successor
    for `RouteTick`, where the writer has two different ones, and the writer has
    none for any `RouteSelected` the executor emits. -/
theorem tablesAgree_iff {entry : CanonEvent} {event : RuntimeEvent}
    (hrec : Records entry event) (hcontrol : event.kind.eventClass = .control)
    (hemit : Emittable event) :
    TablesAgree entry event ↔ event.kind ≠ .routeTick ∧ event.kind ≠ .routeSelected := by
  have hkind := hrec.kind
  cases event with
  | routeSelected rs =>
    obtain ⟨x, hx⟩ := hemit
    have hsucc := controlSuccessorForEvent_routeSelected hx
    simp only [TablesAgree, requiredSuccessor_routeSelected hrec hx, Option.map_none,
      RuntimeEvent.kind, ne_eq, not_true_eq_false, and_false, iff_false, not_and]
    intro h
    exact absurd h.symm hsucc
  | plain k =>
    cases k <;> simp [RuntimeEvent.kind, PlainKind.kind, EventKind.eventClass] at hcontrol
  | routeTick t =>
    simp [TablesAgree, requiredSuccessor, RuntimeEvent.kind, hkind, EventKind.eventClass,
      controlSuccessorForEvent]
  | tick | loopObserved | planningCompleted | loopActed | loopVerified | verifierPolicyUpdated
  | loopRewarded =>
    simp [TablesAgree, requiredSuccessor, requiredSuccessorKind, RuntimeEvent.kind, hkind,
      EventKind.eventClass, EventKind.asStr, controlSuccessorForEvent]
  | _ => simp [RuntimeEvent.kind, EventKind.eventClass] at hcontrol

theorem tablesAgree_on_observation :
    TablesAgree { (default : CanonEvent) with kind := .loopObserved } (.loopObserved default) := by
  have hrec : Records { (default : CanonEvent) with kind := .loopObserved }
      (.loopObserved default) := { kind := rfl, route := by simp }
  exact (tablesAgree_iff hrec rfl trivial).mpr ⟨by decide, by decide⟩

/-- The first summary, of a target without a path. -/
def firstSummary : SemanticStateSummary := { SemanticStateSummary.empty with version := 1 }

def firstRoute : RouteSelected := routeSelectedOf 1 (decideFromJson firstSummary []) []

def firstRouteEntry : CanonEvent :=
  { (default : CanonEvent) with
    id := "r1"
    kind := .routeSelected
    payload := { (default : CanonPayload) with
      data := .obj [("tick", .nat 1), ("approved_route", .str "Plan")] } }

/-- The executor emits `Plan` and expects `planning_completed` behind it; the
    writer reads the entry and expects nothing. -/
theorem tables_differ_on_first_route :
    Records firstRouteEntry (.routeSelected firstRoute) ∧
      EventKind.routeSelected.eventClass = .control ∧ Emittable (.routeSelected firstRoute) ∧
      requiredSuccessor firstRouteEntry = none ∧
      controlSuccessorForEvent (.routeSelected firstRoute) = some "planning_completed" ∧
      ¬ TablesAgree firstRouteEntry (.routeSelected firstRoute) := by
  have hrec : Records firstRouteEntry (.routeSelected firstRoute) := by
    refine { kind := rfl, route := ?_ }
    rintro rs ⟨⟩
    rfl
  have hemit : (RouteExecutor.mk firstSummary 1 none).onLoopObserved.2 = some firstRoute := rfl
  have hnone := requiredSuccessor_routeSelected hrec hemit
  have hsucc :
    controlSuccessorForEvent (.routeSelected firstRoute) = some "planning_completed" := by
    decide +kernel
  refine ⟨hrec, rfl, ⟨_, hemit⟩, hnone, hsucc, ?_⟩
  rintro ⟨h, -⟩
  rw [hnone, hsucc] at h
  cases h

end Canon.Route
