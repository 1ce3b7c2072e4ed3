import Canon.Loop.Footprint

/-! # Asking the planner again

    A route to `plan` sends a request for the stored observation unless one of the
    memories of earlier requests suppresses it: the tick that was planned for, the
    content that was handled, the goal that was declared done and the prompt that was
    sent.  This module says exactly when a request goes out.
-/

namespace Canon.Loop

variable (H : Host) (W : World) (ctx : LoopContext) (observed : LoopObserved)
   (selected : RouteSelected)

/-! ### Routes -/

/-- The context after a route was remembered. -/
def routed : LoopContext :=
  let ctx := { ctx with lastRouteSelectedTick := some selected.tick }
  if selected.rationale ≠ [] then
    { ctx with
      lastRouteRationaleNonEmpty := some selected.rationale
      lastRouteConfidenceNonEmpty := selected.confidence }
  else ctx

theorem routed_eq :
    ∃ rationale confidence, routed ctx selected =
      { ctx with
        lastRouteSelectedTick := some selected.tick
        lastRouteRationaleNonEmpty := rationale
        lastRouteConfidenceNonEmpty := confidence } := by
  unfold routed
  simp only
  split <;> exact ⟨_, _, rfl⟩

/-- The route is of the current tick and the first one of it. -/
structure FreshRoute (ctx : LoopContext) (selected : RouteSelected) : Prop where
  tick : selected.tick = ctx.currentTick
  first : ctx.lastRouteSelectedTick ≠ some selected.tick

theorem onEvent_of_route {ctx : LoopContext} {selected : RouteSelected}
    (hfresh : FreshRoute ctx selected)
    (hroute : (normalizeRoute selected).approvedRoute ≠ "observe") (hhalted : ctx.halted = false) :
    onEvent H W ctx (.routeSelected selected) =
      executeStageEvent H W (routed ctx selected) (.routeSelected selected) := by
  have hhandler : handleEvent H W ctx (.routeSelected selected) = .set (routed ctx selected) := by
    have hhandled : handleRouteSelected H W ctx (normalizeRoute selected) =
        .only (routed ctx selected) := by
      have htick : ¬ (normalizeRoute selected).tick ≠ ctx.currentTick := not_not.mpr hfresh.tick
      unfold handleRouteSelected
      rw [if_neg htick]
      simp only
      rw [if_neg hroute]
      rfl
    simp only [handleEvent]
    rw [if_neg hfresh.first, hhandled]
    rfl
  have hstill : (routed ctx selected).halted = false := by
    obtain ⟨rationale, confidence, hrouted⟩ := routed_eq ctx selected
    rw [hrouted]
    exact hhalted
  rw [onEvent_of_set rfl hhandler, hstill]
  rfl

theorem onEvent_of_plan_route {ctx : LoopContext} {selected : RouteSelected}
    (hfresh : FreshRoute ctx selected) (hroute : (normalizeRoute selected).approvedRoute = "plan")
    (hhalted : ctx.halted = false) :
    onEvent H W ctx (.routeSelected selected) =
      ofStageReply H (.routeSelected selected) .plan
        (Plan.executeTrigger H W selected (routed ctx selected)) := by
  have hother : (normalizeRoute selected).approvedRoute ≠ "observe" := by
    rw [hroute]
    decide
  have hstage : LoopStageEvent.ofRoute selected = some (.planTrigger selected) := by
    unfold LoopStageEvent.ofRoute
    simp only [hroute]
    rfl
  rw [onEvent_of_route H W hfresh hother hhalted]
  simp only [executeStageEvent, LoopStageEvent.tryFrom, hstage]
  rfl

/-! ### Requests -/

/-- A request for a plan of the observation went out and is pending. -/
def DispatchesPlan (r : Handled) : Prop :=
  ∃ pending, r.ctx.pendingPlan = some pending ∧ pending.tick = observed.tick ∧
    ∃ call, RuntimeEvent.llm call ∈ r.emitted ∧ call.requestId = pending.requestId

/-- No request among the events. -/
def NoRequest (events : List RuntimeEvent) : Prop := ∀ call, RuntimeEvent.llm call ∉ events

theorem not_dispatchesPlan {observed : LoopObserved} {r : Handled} (h : NoRequest r.emitted) :
    ¬ DispatchesPlan observed r := by
  rintro ⟨pending, -, -, call, hcall, -⟩
  exact h call hcall

namespace Plan

/-- The context in which the prompt for an observation is rendered. -/
def promptContext (summary : SemanticStateSummary) : LoopContext :=
  { ctx with
    lastDoneGoal :=
      if observed.errorCount = 0 && ctx.lastDoneGoal.isSome && ctx.lastDoneGoal = observed.goalText
      then none else ctx.lastDoneGoal
    lastHandledObservedHash :=
      some (H.hashObserved observed.errorCount observed.goalText summary) }

/-- The prompt for an observation; nothing when rendering panics. -/
def promptFor (summary : SemanticStateSummary) (selected : RouteSelected) : Option (Text × Text) :=
  W.renderPrompt (promptContext H ctx observed summary) observed summary
    (promptRationale ctx selected).1 (promptRationale ctx selected).2

/-- No memory of an earlier request stands in the way of one for this observation. -/
structure Unsuppressed (H : Host) (W : World) (ctx : LoopContext) (observed : LoopObserved)
    (summary : SemanticStateSummary) (selected : RouteSelected) : Prop where
  tick : ctx.lastPlannedObservedTick ≠ some observed.tick
  content : ctx.lastHandledObservedHash ≠
    some (H.hashObserved observed.errorCount observed.goalText summary)
  goal : goalComplete W ctx observed = false
  prompt : ∃ base delta, promptFor H W ctx observed summary selected = some (base, delta) ∧
    promptUnchanged H ctx base delta = false

theorem exists_request (base delta : Text) :
    ∃ call, RuntimeEvent.llm call ∈ requestEvents H ctx observed base delta ∧
      call.requestId = (pendingOf H ctx observed).requestId :=
  ⟨_, List.mem_cons_of_mem _ (List.mem_singleton.mpr rfl), rfl⟩

theorem sendPrompt_dispatches_iff (observed target : LoopObserved) (summary : SemanticStateSummary)
    (selected : RouteSelected) (event : RuntimeEvent) :
    DispatchesPlan target (ofStageReply H event .plan
        (sendPrompt H W ctx observed summary selected)) ↔
      observed.tick = target.tick ∧
        ∃ base delta, W.renderPrompt ctx observed summary (promptRationale ctx selected).1
          (promptRationale ctx selected).2 = some (base, delta) ∧
          promptUnchanged H ctx base delta = false := by
  unfold sendPrompt
  simp only
  split
  · rename_i hnone
    refine iff_of_false ?_ (by simp [hnone])
    exact not_dispatchesPlan (by simp [NoRequest, ofStageReply, StageReply.panic])
  · rename_i base delta hsome
    split
    · rename_i hsame
      refine iff_of_false ?_ (by simp [hsome, hsame])
      exact not_dispatchesPlan
        (by simp [NoRequest, ofStageReply, StageReply.ok, LoopStageResult.events])
    · rename_i hnew
      constructor
      · intro hdispatches
        obtain ⟨pending, hpending, htick, -⟩ := hdispatches
        -- The slot holds the request for `observed`.
        have hsent : pendingOf H ctx observed = pending := Option.some.inj hpending
        refine ⟨?_, base, delta, hsome, by simpa using hnew⟩
        rw [← htick, ← hsent]
        rfl
      · intro h
        obtain ⟨call, hcall, hid⟩ := exists_request H ctx observed base delta
        exact ⟨pendingOf H ctx observed, rfl, h.1, call, List.mem_append_left _ hcall, hid⟩

/-- A real goal is there. -/
def RealGoal : Prop :=
  ∃ goal, observed.goalText = some goal ∧ Observe.isPlaceholderGoal goal = false

theorem RealGoal.waits {observed : LoopObserved} (h : RealGoal observed) :
    waitsForGoal observed = false := by
  obtain ⟨goal, hgoal, hreal⟩ := h
  simp [waitsForGoal, hgoal, hreal]

/-- A request goes out for a complete observation that does not wait for a goal and
    that no memory suppresses. -/
theorem handleObserved_dispatches_iff (observed target : LoopObserved) (selected : RouteSelected)
    (event : RuntimeEvent) :
    DispatchesPlan target (ofStageReply H event .plan
        (handleObserved H W ctx observed selected)) ↔
      observed.tick = target.tick ∧ waitsForGoal observed = false ∧
        ∃ summary, planningSemanticSummary (some observed) = .ok summary ∧
          Unsuppressed H W ctx observed summary selected := by
  have hnoop : ¬ DispatchesPlan target (ofStageReply H event .plan (.ok ctx .noop)) :=
    not_dispatchesPlan (by simp [NoRequest, ofStageReply, StageReply.ok, LoopStageResult.events])
  unfold handleObserved
  split
  · rename_i htick
    apply iff_of_false hnoop
    rintro ⟨-, -, summary, -, h⟩
    exact h.tick htick
  · rename_i htick
    split
    · rename_i message herror
      refine iff_of_false ?_ (by simp [herror])
      exact not_dispatchesPlan
        (by simp [NoRequest, ofStageReply, StageReply.ok, LoopStageResult.events])
    · rename_i summary hsummary
      simp only [hsummary, Except.ok.injEq, exists_eq_left']
      split
      · rename_i hcontent
        exact iff_of_false hnoop fun h => h.2.2.content hcontent
      · rename_i hcontent
        split
        · rename_i hwaits
          exact iff_of_false hnoop (by simp [hwaits])
        · rename_i hwaits
          split
          · rename_i hcomplete
            refine iff_of_false ?_ fun h => by simp [h.2.2.goal] at hcomplete
            exact not_dispatchesPlan
              (by simp [NoRequest, ofStageReply, StageReply.ok, LoopStageResult.events,
                completedOf])
          · rename_i hcomplete
            rw [sendPrompt_dispatches_iff]
            refine and_congr_right fun _ => ?_
            constructor
            · intro hprompt
              exact ⟨by simpa using hwaits, htick, hcontent, by simpa using hcomplete, hprompt⟩
            · intro h
              exact h.2.prompt

theorem deterministicBootstrapPlan_silent {H : Host} {W : World} {selected : RouteSelected}
    {ctx : LoopContext} {observed : LoopObserved} {reply : StageReply}
    (h : deterministicBootstrapPlan H W selected ctx observed = some reply) (event : RuntimeEvent) :
    NoRequest (ofStageReply H event .plan reply).emitted := by
  unfold deterministicBootstrapPlan at h
  simp only at h
  split at h
  · cases h
  · obtain ⟨targetRoot, -, h⟩ := Option.bind_eq_some_iff.mp h
    obtain ⟨⟨cmd, cwd, reason⟩, -, rfl⟩ := Option.map_eq_some_iff.mp h
    simp [NoRequest, ofStageReply, StageReply.ok, LoopStageResult.events]

/-- The trigger asks for a plan of the observation: no request timed out, no bootstrap
    is due, the observation is complete, has its goal and is not suppressed. -/
structure Asks (H : Host) (W : World) (ctx : LoopContext) (observed : LoopObserved)
    (selected : RouteSelected) : Prop where
  timeout : checkLlmTimeout ctx selected.tick = none
  bootstrap : deterministicBootstrapPlan H W selected ctx observed = none
  waits : waitsForGoal observed = false
  free : ∃ summary, planningSemanticSummary (some observed) = .ok summary ∧
    Unsuppressed H W ctx observed summary selected

theorem executeTrigger_dispatches_iff (target : LoopObserved) (selected : RouteSelected)
    (event : RuntimeEvent) :
    DispatchesPlan target (ofStageReply H event .plan (executeTrigger H W selected ctx)) ↔
      ∃ observed, ctx.lastObserved = some observed ∧ observed.tick = target.tick ∧
        Asks H W ctx observed selected := by
  unfold executeTrigger
  split
  · rename_i pending htimeout
    refine iff_of_false ?_ ?_
    · exact not_dispatchesPlan
        (by simp [NoRequest, ofStageReply, StageReply.ok, LoopStageResult.events, completedOf])
    · rintro ⟨observed, -, -, hasks⟩
      simp [hasks.timeout] at htimeout
  · rename_i htimeout
    split
    · rename_i hnone
      refine iff_of_false ?_ (by simp [hnone])
      exact not_dispatchesPlan
        (by simp [NoRequest, ofStageReply, StageReply.ok, LoopStageResult.events])
    · rename_i observed hobserved
      simp only [hobserved, Option.some.injEq, exists_eq_left']
      split
      · rename_i reply hreply
        apply iff_of_false (not_dispatchesPlan (deterministicBootstrapPlan_silent hreply event))
        rintro ⟨-, hasks⟩
        simp [hasks.bootstrap] at hreply
      · rename_i hbootstrap
        rw [handleObserved_dispatches_iff]
        refine and_congr_right fun _ => ?_
        constructor
        · rintro ⟨hwaits, hfree⟩
          exact ⟨htimeout, hbootstrap, hwaits, hfree⟩
        · intro h
          exact ⟨h.waits, h.free⟩

end Plan

/-! ### Runs -/

/-- A route to `plan` in a running loop without a pending request, on a stored
    observation of the same tick with a real goal and a complete summary. -/
structure ReplanAsked (s : LoopState) (selected : RouteSelected) (observed : LoopObserved)
    (summary : SemanticStateSummary) : Prop where
  alive : s.crashed = false
  running : s.ctx.halted = false
  idle : s.ctx.pendingPlan = none
  fresh : FreshRoute s.ctx selected
  route : (normalizeRoute selected).approvedRoute = "plan"
  stored : s.ctx.lastObserved = some observed
  tick : observed.tick = selected.tick
  complete : Plan.planningSemanticSummary (some observed) = .ok summary
  goal : Plan.RealGoal observed

/-- The request that is asked for goes out. -/
def Replans (s : LoopState) (d : Delivery) : Prop :=
  ∀ selected observed summary, d.event = .routeSelected selected →
    ReplanAsked s selected observed summary → DispatchesPlan observed (s.reply H d)

/-- No bootstrap is due and no memory stands in the way of what is asked for. -/
def Unhindered (s : LoopState) (d : Delivery) : Prop :=
  ∀ selected observed summary, d.event = .routeSelected selected →
    ReplanAsked s selected observed summary →
    Plan.deterministicBootstrapPlan H d.world selected (routed s.ctx selected) observed = none ∧
      Plan.Unsuppressed H d.world (routed s.ctx selected) observed summary selected

theorem routed_pendingPlan :
    (routed ctx selected).pendingPlan = ctx.pendingPlan := by
  obtain ⟨rationale, confidence, hrouted⟩ := routed_eq ctx selected
  rw [hrouted]

theorem routed_lastObserved :
    (routed ctx selected).lastObserved = ctx.lastObserved := by
  obtain ⟨rationale, confidence, hrouted⟩ := routed_eq ctx selected
  rw [hrouted]

theorem replan_dispatches_iff {s : LoopState} {selected : RouteSelected} {observed : LoopObserved}
    {summary : SemanticStateSummary} (h : ReplanAsked s selected observed summary) :
    DispatchesPlan observed (onEvent H W s.ctx (.routeSelected selected)) ↔
      Plan.deterministicBootstrapPlan H W selected (routed s.ctx selected) observed = none ∧
        Plan.Unsuppressed H W (routed s.ctx selected) observed summary selected := by
  have htimeout : Plan.checkLlmTimeout (routed s.ctx selected) selected.tick = none := by
    simp [Plan.checkLlmTimeout, routed_pendingPlan, h.idle]
  rw [onEvent_of_plan_route H W h.fresh h.route h.running, Plan.executeTrigger_dispatches_iff,
    routed_lastObserved, h.stored]
  constructor
  · rintro ⟨observed', heq, -, hasks⟩
    cases heq
    obtain ⟨summary', hsummary, hfree⟩ := hasks.free
    rw [h.complete] at hsummary
    cases hsummary
    exact ⟨hasks.bootstrap, hfree⟩
  · rintro ⟨hbootstrap, hfree⟩
    exact ⟨observed, rfl, rfl, htimeout, hbootstrap, h.goal.waits, summary, h.complete, hfree⟩

/-- In any run every plan that is asked for is requested exactly when nothing
    hinders it. -/
theorem replans_iff (H : Host) (s : LoopState) (acts : List Delivery) :
    (loopMachine H).Along (Replans H) s acts ↔ (loopMachine H).Along (Unhindered H) s acts := by
  refine Machine.along_congr _ (fun s d => ?_) s acts
  refine forall_congr' fun selected => forall_congr' fun observed => forall_congr' fun summary => ?_
  refine imp_congr_right fun hevent => imp_congr_right fun hasked => ?_
  rw [← replan_dispatches_iff H d.world hasked]
  unfold LoopState.reply
  rw [hevent]

/-! ### A request that fails -/

def isRequest : RuntimeEvent → Bool
  | .llm _ => true
  | _ => false

def isPlan : RuntimeEvent → Bool
  | .loopPlanned _ => true
  | _ => false

/-- The ends of planning among some events. -/
def completions (events : List RuntimeEvent) : List PlanningCompleted :=
  events.filterMap fun
    | .planningCompleted completed => some completed
    | _ => none

/-- Plans were asked for, none came back, and every end of planning was handled. -/
structure Fruitless (acts : List Delivery) (s : LoopState) : Prop where
  asked : s.emitted.any isRequest = true
  planless : s.emitted.any isPlan = false
  handled : completions s.emitted ⊆ completions (acts.map (·.event))

def goalObserved (tick : Nat) : LoopObserved :=
  { (default : LoopObserved) with
    tick := tick
    goalText := some "Build the parser."
    semanticSummary := { SemanticStateSummary.empty with
      version := 1
      complete := true
      targetRoot := some "/w"
      pathExists := true
      cargoProject := true
      entrypointKind := some "lib" } }

/-- A request for the observation of tick 1 fails; then the same is observed at
    tick 2. -/
def failedRun : List Delivery :=
  [.loopObserved (goalObserved 1), .tick 1, .routeSelected (routeTo "plan" 1),
    .capabilityFailed { requestId := "u", capability := "llm", error := "no answer" },
    .planningCompleted
      { tick := 1, llmRequestId := some "u", plannedCount := 0, status := "llm_failed" },
    .loopObserved (goalObserved 2), .tick 2].map (⟨emptyDir, ·⟩)

/-- After the failed request the same content is never asked about again. -/
theorem failed_request_wedges :
    ¬ ∀ (H : Host) (workspace : FilePath) (policy : DestructiveCmdPolicy) (acts : List Delivery)
        (W : World) (selected : RouteSelected) (observed : LoopObserved)
        (summary : SemanticStateSummary),
        Fruitless acts
          ((loopMachine H).run (LoopState.start (LoopContext.new workspace policy)) acts) →
        ReplanAsked ((loopMachine H).run (LoopState.start (LoopContext.new workspace policy)) acts)
          selected observed summary →
        DispatchesPlan observed
          (((loopMachine H).run (LoopState.start (LoopContext.new workspace policy)) acts).reply H
            ⟨W, .routeSelected selected⟩) := by
  intro hall
  have hfruitless : Fruitless failedRun ((loopMachine tallyHost).run startInW failedRun) := by
    refine ⟨by decide +kernel, by decide +kernel, ?_⟩
    have hended : completions ((loopMachine tallyHost).run startInW failedRun).emitted =
        completions (failedRun.map (·.event)) := by
      rfl
    rw [hended]
    exact List.Subset.refl _
  have hasked : ReplanAsked ((loopMachine tallyHost).run startInW failedRun) (routeTo "plan" 2)
      (goalObserved 2) (goalObserved 2).semanticSummary := by
    refine ⟨rfl, rfl, rfl, ⟨rfl, ?_⟩, by decide +kernel, rfl, rfl, rfl, ⟨_, rfl, by decide +kernel⟩⟩
    decide +kernel
  have hsilent : (((loopMachine tallyHost).run startInW failedRun).reply tallyHost
      ⟨emptyDir, .routeSelected (routeTo "plan" 2)⟩).emitted = [] := by
    rfl
  refine not_dispatchesPlan ?_
    (hall tallyHost "/w" .block failedRun emptyDir _ _ _ hfruitless hasked)
  show NoRequest (((loopMachine tallyHost).run startInW failedRun).reply tallyHost
    ⟨emptyDir, .routeSelected (routeTo "plan" 2)⟩).emitted
  rw [hsilent]
  simp [NoRequest]

end Canon.Loop
