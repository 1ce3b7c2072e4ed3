import Canon.Loop.Markers
import Canon.Loop.Replanning

/-! # From an observation to the planner

    A tick observes once, the observation comes back as an event and is stored, and a
    route to `plan` asks for a plan of it.  Three markers guard these steps, and the
    stages set them before the handlers test them.  This module says for every run on
    the schedule of the runtime (tick, observation, route) when each step happens.
-/

namespace Canon.Loop

variable {s : Watched} {ctx : LoopContext} {selected : RouteSelected} (H : Host) (W : World)

/-! ### Observations among events -/

def observations (events : List RuntimeEvent) : List LoopObserved :=
  events.filterMap fun
    | .loopObserved observed => some observed
    | _ => none

@[simp] theorem observations_nil : observations [] = [] := rfl

theorem observations_append (as bs : List RuntimeEvent) :
    observations (as ++ bs) = observations as ++ observations bs :=
  List.filterMap_append

theorem mem_observations {events : List RuntimeEvent} {observed : LoopObserved} :
    observed ∈ observations events ↔ RuntimeEvent.loopObserved observed ∈ events := by
  unfold observations
  rw [List.mem_filterMap]
  constructor
  · rintro ⟨event, hmem, heq⟩
    split at heq
    · cases heq
      exact hmem
    · cases heq
  · intro hmem
    exact ⟨_, hmem, rfl⟩

/-- Events that may be emitted at any tick hold no observation. -/
theorem observations_eq_nil {events : List RuntimeEvent}
    (h : ∀ tick, ∀ e ∈ events, MayEmit tick e) : observations events = [] := by
  rw [List.eq_nil_iff_forall_not_mem]
  intro observed hmem
  have htick : observed.tick = observed.tick + 1 :=
    h (observed.tick + 1) _ (mem_observations.mp hmem)
  omega

/-! ### Observing -/

/-- The payload an observation would be made of; nothing when building it panics. -/
def Observe.payload (H : Host) (W : World) (ctx : LoopContext) :
    Option (SemanticStateSummary × List Text) :=
  buildObservationPayload H.toTools W.fs (currentGoal W ctx) ctx.workspace ctx.recentCompilerErrors

/-- What the observe stage emits is one observation of the current tick, unless the
    tick is marked or the payload cannot be built. -/
theorem Observe.executeInner_observations (ctx : LoopContext) :
    (observations (executeInner H W ctx).events).map (·.tick) =
      if ctx.lastObservedTick = some ctx.currentTick ∨ payload H W ctx = none then []
      else [ctx.currentTick] := by
  unfold executeInner
  split
  · rename_i hmarked
    rw [if_pos (.inl hmarked)]
    rfl
  · rename_i hmarked
    simp only
    split
    · rename_i hnone
      rw [if_pos (.inr hnone)]
      rfl
    · rename_i hsome
      rw [if_neg]
      · rfl
      · rintro (h | h)
        · exact hmarked h
        · cases hsome.symm.trans h

/-- After the stage the tick is marked, unless it panicked. -/
theorem Observe.executeInner_marks {result : LoopStageResult}
    (h : (executeInner H W ctx).outcome = .ok result) :
    (executeInner H W ctx).ctx.lastObservedTick = some (executeInner H W ctx).ctx.currentTick := by
  unfold executeInner at h ⊢
  split
  · assumption
  · rename_i hmarked
    rw [if_neg hmarked] at h
    simp only at h ⊢
    split
    · rename_i hnone
      simp [hnone, StageReply.panic] at h
    · rfl

theorem executeObserveMode_emitted {event : RuntimeEvent} {mode : ObserveExecutionMode}
    (hplanned : ctx.lastPlannedObservedTick ≠ some ctx.currentTick)
    (hallows : mode.allows event = some true) :
    (executeObserveMode H W ctx event mode).emitted = (Observe.executeInner H W ctx).events := by
  unfold executeObserveMode StageReply.events
  rw [if_neg hplanned, hallows]
  cases houtcome : (Observe.executeInner H W ctx).outcome with
  | ok result => simp only [houtcome]
  | err message => simp only [houtcome, List.append_nil]
  | panic => simp only [houtcome, List.append_nil]

theorem executeObserveMode_marks {event : RuntimeEvent} {mode : ObserveExecutionMode}
    (hplanned : ctx.lastPlannedObservedTick ≠ some ctx.currentTick)
    (hallows : mode.allows event = some true)
    (hdone : (executeObserveMode H W ctx event mode).panicked = false) :
    (executeObserveMode H W ctx event mode).ctx.lastObservedTick =
      some (executeObserveMode H W ctx event mode).ctx.currentTick := by
  unfold executeObserveMode at hdone ⊢
  rw [if_neg hplanned, hallows] at hdone ⊢
  cases houtcome : (Observe.executeInner H W ctx).outcome with
  | ok result =>
    simp only [houtcome]
    exact Observe.executeInner_marks H W houtcome
  | err message => simp only [houtcome, Bool.true_eq_false] at hdone
  | panic => simp only [houtcome, Bool.true_eq_false] at hdone

/-! ### Ticks -/

/-- A tick that is not marked as planned for runs the observe stage and no other. -/
theorem onEvent_routeTick_emitted {tick : Nat} (hplanned : ctx.lastPlannedObservedTick ≠ some tick)
    :
    (onEvent H W ctx (.routeTick tick)).emitted =
      (Observe.executeInner H W { ctx with currentTick := tick }).events := by
  have hfinish : ∀ c, finishEvent H W c (.routeTick tick) false true = .only c := by
    intro c
    simp [finishEvent, applyRuntimeEvaluation, suppressesObserveOnInvariant, executeStageEvent,
      LoopStageEvent.tryFrom]
  have hsilent : ∀ r : Handled,
      (r.andThen fun c => finishEvent H W c (.routeTick tick) false true).emitted = r.emitted := by
    intro r
    unfold Handled.andThen
    split
    · rfl
    · simp [hfinish]
  have hfrom : handleFrom H W (.routeTick tick) false ctx =
      (executeObserveMode H W { ctx with currentTick := tick } (.routeTick tick) .forced).andThen
        fun c => finishEvent H W c (.routeTick tick) false true := by
    simp [handleFrom, handleEvent, observeIfAsked, isPlanningCompleted]
  rw [onEvent_of_not_recovery rfl, hfrom, hsilent]
  exact executeObserveMode_emitted H W hplanned rfl

/-! ### Routes -/

theorem ofStageReply_observations (event : RuntimeEvent) (stage : Stage) (r : StageReply) :
    observations (ofStageReply H event stage r).emitted = observations r.events := by
  unfold ofStageReply StageReply.events
  cases houtcome : r.outcome with
  | ok result => simp only
  | err message => simp [observations, errorEvent]
  | panic => simp only [List.append_nil]

/-- The route leads to the observe stage. -/
def ScanRoute (selected : RouteSelected) : Prop :=
  (normalizeRoute selected).approvedRoute = "scan" ∨
    (normalizeRoute selected).approvedRoute = "observe"

theorem ofRoute_eq_scan_iff :
    LoopStageEvent.ofRoute selected = some .scan ↔ ScanRoute selected := by
  unfold LoopStageEvent.ofRoute ScanRoute
  simp only [Bool.or_eq_true, decide_eq_true_eq]
  split
  · rename_i hscan
    exact iff_of_true rfl hscan
  · rename_i hscan
    refine iff_of_false ?_ hscan
    iterate 5
      split
      · simp
    simp

theorem executeStageEvent_scan (ctx : LoopContext) (h : ScanRoute selected) :
    executeStageEvent H W ctx (.routeSelected selected) =
      ofStageReply H (.routeSelected selected) .observe (Observe.executeInner H W ctx) := by
  have hstage : LoopStageEvent.tryFrom (.routeSelected selected) = some .scan :=
    ofRoute_eq_scan_iff.mpr h
  simp only [executeStageEvent, hstage]
  rfl

theorem executeStageEvent_scan_observations (ctx : LoopContext) (h : ScanRoute selected) :
    (observations (executeStageEvent H W ctx (.routeSelected selected)).emitted).map (·.tick) =
      if ctx.lastObservedTick = some ctx.currentTick ∨ Observe.payload H W ctx = none then []
      else [ctx.currentTick] := by
  rw [executeStageEvent_scan H W ctx h, ofStageReply_observations,
    Observe.executeInner_observations]

/-- A route to `observe` observes in its handler and then once more in its stage. -/
theorem onEvent_of_observe_route (hfresh : FreshRoute ctx selected)
    (hroute : (normalizeRoute selected).approvedRoute = "observe") (hhalted : ctx.halted = false) :
    onEvent H W ctx (.routeSelected selected) =
      (executeObserveMode H W (routed ctx selected) (.routeSelected (normalizeRoute selected))
        .triggered).andThen fun c => executeStageEvent H W c (.routeSelected selected) := by
  have hhandler : handleEvent H W ctx (.routeSelected selected) =
      .goOn (executeObserveMode H W (routed ctx selected)
        (.routeSelected (normalizeRoute selected)) .triggered) := by
    have htick : ¬ (normalizeRoute selected).tick ≠ ctx.currentTick := not_not.mpr hfresh.tick
    simp only [handleEvent]
    rw [if_neg hfresh.first]
    unfold handleRouteSelected
    rw [if_neg htick]
    simp only
    rw [if_pos hroute]
    rfl
  have hrunning : (executeObserveMode H W (routed ctx selected)
      (.routeSelected (normalizeRoute selected)) .triggered).ctx.halted = false := by
    obtain ⟨rationale, confidence, hrouted⟩ := routed_eq ctx selected
    rw [(executeObserveMode_sound H W _ _ _ fun _ => rfl).keeps.halted, hrouted]
    exact hhalted
  rw [onEvent_of_not_recovery rfl]
  unfold handleFrom
  simp only [hhandler, HandlerReply.goOn, Bool.false_eq_true, if_false, observeIfAsked,
    Bool.or_self, Bool.false_and, Handled.only_andThen, finishEvent_unasked]
  unfold Handled.andThen
  simp only [hrunning, Bool.false_eq_true, if_false]

/-- A second observation of the tick is made exactly when its mark is gone. -/
theorem onEvent_scan_observations (hfresh : FreshRoute ctx selected) (hhalted : ctx.halted = false)
    (hroute : ScanRoute selected) :
    (observations (onEvent H W ctx (.routeSelected selected)).emitted).map (·.tick) =
      if ctx.lastObservedTick = some selected.tick ∨ Observe.payload H W ctx = none then []
      else [selected.tick] := by
  obtain ⟨rationale, confidence, hrouted⟩ := routed_eq ctx selected
  have hmarks : (if (routed ctx selected).lastObservedTick =
        some (routed ctx selected).currentTick ∨ Observe.payload H W (routed ctx selected) = none
      then [] else [(routed ctx selected).currentTick]) =
      if ctx.lastObservedTick = some selected.tick ∨ Observe.payload H W ctx = none then []
      else [selected.tick] := by
    rw [hrouted, hfresh.tick]
    rfl
  rw [← hmarks]
  by_cases hobserve : (normalizeRoute selected).approvedRoute = "observe"
  · rw [onEvent_of_observe_route H W hfresh hobserve hhalted]
    by_cases hplanned : (routed ctx selected).lastPlannedObservedTick =
        some (routed ctx selected).currentTick
    · have hskipped : executeObserveMode H W (routed ctx selected)
          (.routeSelected (normalizeRoute selected)) .triggered = .only (routed ctx selected) := by
        unfold executeObserveMode
        rw [if_pos hplanned]
      rw [hskipped, Handled.only_andThen]
      exact executeStageEvent_scan_observations H W _ hroute
    · rw [← Observe.executeInner_observations]
      have hallows : ObserveExecutionMode.allows .triggered
          (.routeSelected (normalizeRoute selected)) = some true := rfl
      have hemitted := executeObserveMode_emitted H W hplanned hallows
      unfold Handled.andThen
      split
      · rw [hemitted]
      · rename_i hpanicked
        have hmarked := executeObserveMode_marks H W hplanned hallows (by simpa using hpanicked)
        have hsecond := executeStageEvent_scan_observations H W (executeObserveMode H W
          (routed ctx selected) (.routeSelected (normalizeRoute selected)) .triggered).ctx hroute
        rw [if_pos (.inl hmarked)] at hsecond
        simp only [hemitted, observations_append, List.map_append, hsecond, List.append_nil]
  · rw [onEvent_of_route H W hfresh hobserve hhalted]
    exact executeStageEvent_scan_observations H W _ hroute

/-- Any other route observes nothing. -/
theorem onEvent_route_blind (hfresh : FreshRoute ctx selected) (hhalted : ctx.halted = false)
    (hroute : ¬ ScanRoute selected) :
    observations (onEvent H W ctx (.routeSelected selected)).emitted = [] := by
  rw [onEvent_of_route H W hfresh (fun h => hroute (.inr h)) hhalted]
  refine observations_eq_nil fun tick => ?_
  refine (executeStageEvent_sound H W (routed ctx selected) (.routeSelected selected) ?_).emits
  intro hscan
  exact absurd (ofRoute_eq_scan_iff.mp hscan) hroute

/-! ### Observations that come back -/

theorem onEvent_loopObserved_stores_iff (hhalted : ctx.halted = false) (observed : LoopObserved) :
    (onEvent H W ctx (.loopObserved observed)).ctx.lastObserved = some observed ↔
      ctx.lastObservedTick ≠ some observed.tick ∨ ctx.lastObserved = some observed := by
  have hstill : (handleLoopObserved ctx observed).halted = false := by
    unfold handleLoopObserved
    split <;> exact hhalted
  have hreply : onEvent H W ctx (.loopObserved observed) =
      executeStageEvent H W (handleLoopObserved ctx observed) (.loopObserved observed) := by
    have hset : handleEvent H W ctx (.loopObserved observed) =
        .set (handleLoopObserved ctx observed) := rfl
    rw [onEvent_of_set rfl hset, hstill]
    rfl
  rw [hreply]
  show (handleLoopObserved ctx observed).lastObserved = some observed ↔ _
  unfold handleLoopObserved
  split
  · rename_i hmarked
    simp [hmarked]
  · rename_i hmarked
    exact iff_of_true rfl (.inl hmarked)

/-! ### The schedule -/

/-- The executor with the deliveries so far. -/
abbrev Watched := LoopState × List Delivery

def Watched.start (workspace : FilePath) (policy : DestructiveCmdPolicy) : Watched :=
  (LoopState.start (LoopContext.new workspace policy), [])

def Delivered (past : List Delivery) (event : RuntimeEvent) : Prop :=
  event ∈ past.map (·.event)

theorem Delivered.snoc {past : List Delivery} {event : RuntimeEvent} (h : Delivered past event)
    (d : Delivery) : Delivered (past ++ [d]) event := by
  unfold Delivered at h ⊢
  rw [List.map_append]
  exact List.mem_append_left _ h

theorem delivered_last (past : List Delivery) {d : Delivery} {event : RuntimeEvent}
    (h : d.event = event) : Delivered (past ++ [d]) event := by
  unfold Delivered
  rw [List.map_append, ← h]
  exact List.mem_append_right _ (List.mem_singleton.mpr rfl)

/-- The loop runs, ticks increase, each tick is driven once and routed at most once
    after that, and observations come from the loop itself. -/
structure Scheduled (s : Watched) (d : Delivery) : Prop where
  alive : s.1.crashed = false
  running : s.1.ctx.halted = false
  tick : ∀ tick, d.event = .tick tick → ∀ earlier, Delivered s.2 (.tick earlier) → earlier < tick
  routeTick : ∀ tick, d.event = .routeTick tick →
    ∀ earlier, Delivered s.2 (.routeTick earlier) → earlier < tick
  route : ∀ selected, d.event = .routeSelected selected →
    selected.tick = s.1.ctx.currentTick ∧ Delivered s.2 (.routeTick selected.tick) ∧
      ∀ other, Delivered s.2 (.routeSelected other) → other.tick ≠ selected.tick
  observed : ∀ observed, d.event = .loopObserved observed →
    RuntimeEvent.loopObserved observed ∈ s.1.emitted

/-- The ticks that were driven. -/
def Driven (s : Watched) (tick : Nat) : Prop := Delivered s.2 (.routeTick tick)

/-- The ticks that were routed. -/
def Routed (s : Watched) (tick : Nat) : Prop :=
  ∃ selected, Delivered s.2 (.routeSelected selected) ∧ selected.tick = tick

/-- Markers and observations are of ticks that were driven. -/
structure OnSchedule (s : Watched) : Prop where
  marked : Marked (Driven s) (Routed s) s.1.ctx
  emitted : ∀ observed, RuntimeEvent.loopObserved observed ∈ s.1.emitted → Driven s observed.tick

theorem Marked.mono {T T' S S' : Nat → Prop} (h : Marked T S ctx) (hT : ∀ tick, T tick → T' tick)
    (hS : ∀ tick, S tick → S' tick) : Marked T' S' ctx :=
  ⟨fun tick h' => hT tick (h.1 tick h'), fun tick h' => hT tick (h.2.1 tick h'),
    fun observed h' => hT _ (h.2.2.1 observed h'), fun tick h' => hS tick (h.2.2.2 tick h')⟩

theorem OnSchedule.start (workspace : FilePath) (policy : DestructiveCmdPolicy) :
    OnSchedule (Watched.start workspace policy) where
  marked := by
    refine ⟨?_, ?_, ?_, ?_⟩ <;> intro _ h <;> cases h
  emitted := by
    intro observed h
    cases h

theorem OnSchedule.step {d : Delivery} (h : OnSchedule s) (hscheduled : Scheduled s d) :
    OnSchedule ((loopMachine H).recorded.step s d) := by
  have hdriven : ∀ tick, Driven s tick → Driven ((loopMachine H).recorded.step s d) tick :=
    fun tick htick => htick.snoc d
  have hrouted : ∀ tick, Routed s tick → Routed ((loopMachine H).recorded.step s d) tick := by
    rintro tick ⟨selected, hselected, htick⟩
    exact ⟨selected, hselected.snoc d, htick⟩
  have hloop : loopStep H s.1 d =
      ⟨(s.1.reply H d).ctx, s.1.emitted ++ (s.1.reply H d).emitted, (s.1.reply H d).panicked⟩ := by
    unfold loopStep
    rw [hscheduled.alive]
    rfl
  -- A tick drives itself; a route comes after its tick was driven.
  have hnow : isRouting d.event = true → Driven ((loopMachine H).recorded.step s d)
      (tickAfter d.event s.1.ctx.currentTick) := by
    intro hrouting
    unfold isRouting at hrouting
    split at hrouting
    · rename_i tick hevent
      rw [hevent]
      exact delivered_last _ hevent
    · rename_i selected hevent
      obtain ⟨htick, hdelivered, -⟩ := hscheduled.route selected hevent
      rw [hevent]
      show Driven _ s.1.ctx.currentTick
      rw [← htick]
      exact hdriven _ hdelivered
    · cases hrouting
  constructor
  · show Marked _ _ (loopStep H s.1 d).ctx
    rw [hloop]
    refine onEvent_marked H d.world (h.marked.mono hdriven hrouted) hnow ?_ ?_
    · intro observed hevent
      exact hdriven _ (h.emitted observed (hscheduled.observed observed hevent))
    · intro selected hevent
      exact ⟨selected, delivered_last _ hevent, rfl⟩
  · intro observed hmem
    change _ ∈ (loopStep H s.1 d).emitted at hmem
    rw [hloop] at hmem
    rcases List.mem_append.mp hmem with hmem | hmem
    · exact hdriven _ (h.emitted observed hmem)
    · by_cases hrouting : isRouting d.event = true
      · have htick := (onEvent_sound H d.world s.1.ctx d.event).emits _ hmem
        change observed.tick = _ at htick
        rw [htick]
        exact hnow hrouting
      · have htick : observed.tick = observed.tick + 1 :=
          (onEvent_soundAt H d.world s.1.ctx d.event fun hr => absurd hr hrouting).emits _ hmem
        omega

theorem Scheduled.freshRoute {d : Delivery} (hscheduled : Scheduled s d) (h : OnSchedule s)
    (hevent : d.event = .routeSelected selected) :
    FreshRoute s.1.ctx selected := by
  obtain ⟨htick, -, hfirst⟩ := hscheduled.route selected hevent
  refine ⟨htick, ?_⟩
  intro hmarked
  obtain ⟨other, hother, hsame⟩ := h.marked.2.2.2 _ hmarked
  exact hfirst other hother hsame

/-! ### Runs on the schedule -/

/-- What the planner is told about an observation. -/
def content (observed : LoopObserved) : Nat × Option Text × SemanticStateSummary :=
  (observed.errorCount, observed.goalText, observed.semanticSummary)

/-- A route to `plan` of the tick of a delivered observation that has a real goal and a
    complete summary and differs in content from the observations of other ticks. -/
structure PlanAsked (s : Watched) (selected : RouteSelected) (observed : LoopObserved) : Prop where
  route : (normalizeRoute selected).approvedRoute = "plan"
  delivered : Delivered s.2 (.loopObserved observed)
  tick : observed.tick = selected.tick
  goal : Plan.RealGoal observed
  complete : ∃ summary, Plan.planningSemanticSummary (some observed) = .ok summary
  new : ∀ other, Delivered s.2 (.loopObserved other) → other.tick ≠ observed.tick →
    content other ≠ content observed

/-- Each tick observes once and nothing else observes; an observation that comes back
    is stored; and a plan of it is requested when it is asked for. -/
structure ReachesPlanner (H : Host) (s : Watched) (d : Delivery) : Prop where
  observes : ∀ tick, d.event = .routeTick tick →
    (observations (s.1.reply H d).emitted).map (·.tick) = [tick]
  once : (∀ tick, d.event ≠ .routeTick tick) → observations (s.1.reply H d).emitted = []
  stores : ∀ observed, d.event = .loopObserved observed →
    (s.1.reply H d).ctx.lastObserved = some observed
  plans : ∀ selected observed, d.event = .routeSelected selected →
    PlanAsked s selected observed → DispatchesPlan observed (s.1.reply H d)

/-- No marker and no memory stands in the way: the payload of a tick can be built, a
    route to the observe stage finds its tick still marked, an observation that comes
    back does not, and for a plan that is asked for an observation of the tick is
    stored about which the planner may be asked. -/
structure Unblocked (H : Host) (s : Watched) (d : Delivery) : Prop where
  observes : ∀ tick, d.event = .routeTick tick → Observe.payload H d.world s.1.ctx ≠ none
  once : ∀ selected, d.event = .routeSelected selected → ScanRoute selected →
    s.1.ctx.lastObservedTick = some selected.tick ∨ Observe.payload H d.world s.1.ctx = none
  stores : ∀ observed, d.event = .loopObserved observed →
    s.1.ctx.lastObservedTick ≠ some observed.tick ∨ s.1.ctx.lastObserved = some observed
  plans : ∀ selected observed, d.event = .routeSelected selected →
    PlanAsked s selected observed →
    ∃ stored, s.1.ctx.lastObserved = some stored ∧ stored.tick = observed.tick ∧
      Plan.Asks H d.world (routed s.1.ctx selected) stored selected

section Step

variable {H : Host} {s : Watched} {d : Delivery}

theorem observes_iff (h : OnSchedule s) (hscheduled : Scheduled s d) {tick : Nat}
    (hevent : d.event = .routeTick tick) :
    (observations (s.1.reply H d).emitted).map (·.tick) = [tick] ↔
      Observe.payload H d.world s.1.ctx ≠ none := by
  -- Markers are of ticks driven before, and this one is later.
  have hlater : ∀ earlier, Driven s earlier → earlier ≠ tick :=
    fun earlier hearlier => (hscheduled.routeTick tick hevent earlier hearlier).ne
  have hplanned : s.1.ctx.lastPlannedObservedTick ≠ some tick :=
    fun hmarked => hlater tick (h.marked.2.1 tick hmarked) rfl
  have hobserved : s.1.ctx.lastObservedTick ≠ some tick :=
    fun hmarked => hlater tick (h.marked.1 tick hmarked) rfl
  have hpayload : Observe.payload H d.world { s.1.ctx with currentTick := tick } =
      Observe.payload H d.world s.1.ctx := rfl
  unfold LoopState.reply
  rw [hevent, onEvent_routeTick_emitted H d.world hplanned, Observe.executeInner_observations,
    hpayload]
  simp [hobserved]

theorem once_iff (h : OnSchedule s) (hscheduled : Scheduled s d)
    (hother : ∀ tick, d.event ≠ .routeTick tick) :
    observations (s.1.reply H d).emitted = [] ↔
      ∀ selected, d.event = .routeSelected selected → ScanRoute selected →
        s.1.ctx.lastObservedTick = some selected.tick ∨
          Observe.payload H d.world s.1.ctx = none := by
  by_cases hrouting : isRouting d.event = true
  · unfold isRouting at hrouting
    split at hrouting
    · rename_i tick hevent
      exact absurd hevent (hother tick)
    · rename_i selected hevent
      have hfresh := hscheduled.freshRoute h hevent
      unfold LoopState.reply
      simp only [hevent, RuntimeEvent.routeSelected.injEq, forall_eq']
      by_cases hscan : ScanRoute selected
      · rw [← List.map_eq_nil_iff,
          onEvent_scan_observations H d.world hfresh hscheduled.running hscan]
        simp [hscan, or_iff_not_imp_left]
      · exact iff_of_true (onEvent_route_blind H d.world hfresh hscheduled.running hscan)
          fun hroute => absurd hroute hscan
    · cases hrouting
  · refine iff_of_true ?_ ?_
    · refine observations_eq_nil fun tick => ?_
      exact (onEvent_soundAt H d.world s.1.ctx d.event fun hr => absurd hr hrouting).emits
    · intro selected hevent
      simp [hevent, isRouting] at hrouting

theorem plans_iff (h : OnSchedule s) (hscheduled : Scheduled s d) {observed : LoopObserved}
    (hevent : d.event = .routeSelected selected) (hasked : PlanAsked s selected observed) :
    DispatchesPlan observed (s.1.reply H d) ↔
      ∃ stored, s.1.ctx.lastObserved = some stored ∧ stored.tick = observed.tick ∧
        Plan.Asks H d.world (routed s.1.ctx selected) stored selected := by
  have hfresh := hscheduled.freshRoute h hevent
  unfold LoopState.reply
  rw [hevent, onEvent_of_plan_route H d.world hfresh hasked.route hscheduled.running,
    Plan.executeTrigger_dispatches_iff, routed_lastObserved]

theorem reachesPlanner_iff (h : OnSchedule s) (hscheduled : Scheduled s d) :
    ReachesPlanner H s d ↔ Unblocked H s d := by
  constructor
  · intro hreaches
    refine ⟨?_, ?_, ?_, ?_⟩
    · intro tick hevent
      exact (observes_iff h hscheduled hevent).mp (hreaches.observes tick hevent)
    · intro selected hevent
      have hother : ∀ tick, d.event ≠ .routeTick tick := by simp [hevent]
      exact (once_iff h hscheduled hother).mp (hreaches.once hother) selected hevent
    · intro observed hevent
      have hstored := hreaches.stores observed hevent
      unfold LoopState.reply at hstored
      rw [hevent] at hstored
      exact (onEvent_loopObserved_stores_iff H d.world hscheduled.running observed).mp hstored
    · intro selected observed hevent hasked
      exact (plans_iff h hscheduled hevent hasked).mp
        (hreaches.plans selected observed hevent hasked)
  · intro hfree
    refine ⟨?_, ?_, ?_, ?_⟩
    · intro tick hevent
      exact (observes_iff h hscheduled hevent).mpr (hfree.observes tick hevent)
    · intro hother
      exact (once_iff h hscheduled hother).mpr hfree.once
    · intro observed hevent
      unfold LoopState.reply
      rw [hevent]
      exact (onEvent_loopObserved_stores_iff H d.world hscheduled.running observed).mpr
        (hfree.stores observed hevent)
    · intro selected observed hevent hasked
      exact (plans_iff h hscheduled hevent hasked).mpr (hfree.plans selected observed hevent hasked)

end Step

/-- In every run on the schedule, observations reach the planner at every step exactly
    when every step finds nothing in the way. -/
theorem observations_reach_planner_iff (H : Host) (workspace : FilePath)
    (policy : DestructiveCmdPolicy) (acts : List Delivery)
    (hscheduled : (loopMachine H).recorded.Along Scheduled (Watched.start workspace policy) acts) :
    (loopMachine H).recorded.Along (ReachesPlanner H) (Watched.start workspace policy) acts ↔
      (loopMachine H).recorded.Along (Unblocked H) (Watched.start workspace policy) acts :=
  Machine.along_congr_of_along _ (fun _ _ => OnSchedule.step H)
    (fun _ _ => reachesPlanner_iff) (OnSchedule.start workspace policy) hscheduled

/-! ### Two short runs -/

theorem scheduled_tick {W : World} {tick : Nat} (alive : s.1.crashed = false)
    (running : s.1.ctx.halted = false)
    (hlater : ∀ earlier, Delivered s.2 (.tick earlier) → earlier < tick) :
    Scheduled s ⟨W, .tick tick⟩ := by
  refine ⟨alive, running, ?_, ?_, ?_, ?_⟩ <;> intro _ h <;> cases h
  exact hlater

theorem scheduled_routeTick {W : World} {tick : Nat} (alive : s.1.crashed = false)
    (running : s.1.ctx.halted = false)
    (hlater : ∀ earlier, Delivered s.2 (.routeTick earlier) → earlier < tick) :
    Scheduled s ⟨W, .routeTick tick⟩ := by
  refine ⟨alive, running, ?_, ?_, ?_, ?_⟩ <;> intro _ h <;> cases h
  exact hlater

theorem scheduled_loopObserved {W : World} {observed : LoopObserved} (alive : s.1.crashed = false)
    (running : s.1.ctx.halted = false) (hmem : RuntimeEvent.loopObserved observed ∈ s.1.emitted) :
    Scheduled s ⟨W, .loopObserved observed⟩ := by
  refine ⟨alive, running, ?_, ?_, ?_, ?_⟩ <;> intro _ h <;> cases h
  exact hmem

theorem scheduled_routeSelected {W : World} (alive : s.1.crashed = false)
    (running : s.1.ctx.halted = false) (htick : selected.tick = s.1.ctx.currentTick)
    (hdriven : Delivered s.2 (.routeTick selected.tick))
    (hfirst : ∀ other, Delivered s.2 (.routeSelected other) → other.tick ≠ selected.tick) :
    Scheduled s ⟨W, .routeSelected selected⟩ := by
  refine ⟨alive, running, ?_, ?_, ?_, ?_⟩ <;> intro _ h <;> cases h
  exact ⟨htick, hdriven, hfirst⟩

/-- Events that no stage of the loop drives may come at any time. -/
theorem scheduled_other {d : Delivery} (alive : s.1.crashed = false)
    (running : s.1.ctx.halted = false)
    (hother : d.event.kind = .debug ∨ d.event.kind = .capabilityCompleted) : Scheduled s d := by
  refine ⟨alive, running, ?_, ?_, ?_, ?_⟩ <;> intro _ h <;> rw [h] at hother <;>
    rcases hother with hother | hother <;> cases hother

/-- What the loop emits on some events in an empty directory. -/
def emittedOn (events : List RuntimeEvent) : List RuntimeEvent :=
  ((loopMachine tallyHost).run startInW (events.map (⟨emptyDir, ·⟩))).emitted

def observedAt (tick : Nat) : LoopObserved :=
  (observations (emittedOn [.tick tick, .routeTick tick])).headD default

/-- A host for which observations differ by the kind of entrypoint as well. -/
def entrypointHost : Host :=
  { tallyHost with
    hashObserved := fun errorCount goalText summary =>
      tallyHost.hashObserved errorCount goalText summary +
        textHash (summary.entrypointKind.getD []) }

/-- A Cargo project in `/w` with a goal for it, of which the prompt names the entrypoint. -/
def projectDir (sources : List (Text × FileNode)) : World :=
  { quietWorld
      { root := .dir [("w", .dir [("Cargo.toml", .file "name = \"p\""), ("src", .dir sources)])]
        cwd := [] } with
    scannedGoal := some "- Project path: /w\nBuild the parser."
    renderPrompt := fun _ observed summary _ _ =>
      some (observed.goalText.getD [], summary.entrypointKind.getD []) }

def libDir : World := projectDir [("lib.rs", .file "")]

def mixedDir : World := projectDir [("lib.rs", .file ""), ("main.rs", .file "")]

def after (acts : List Delivery) : LoopState := (loopMachine entrypointHost).run startInW acts

/-- The observation made last. -/
def lastMade (acts : List Delivery) : LoopObserved :=
  (observations (after acts).emitted).getLastD default

def libObserved : LoopObserved := lastMade [⟨libDir, .tick 1⟩, ⟨libDir, .routeTick 1⟩]

/-- Two ticks are driven before the observation of the first comes back, and a plan is
    asked for of it. -/
def overtaken : List Delivery :=
  [⟨libDir, .tick 1⟩, ⟨libDir, .routeTick 1⟩, ⟨libDir, .tick 2⟩, ⟨libDir, .routeTick 2⟩,
    ⟨libDir, .loopObserved libObserved⟩, ⟨libDir, .routeSelected (routeTo "plan" 2)⟩]

def mixedObserved : LoopObserved :=
  lastMade (overtaken ++ [⟨mixedDir, .tick 3⟩, ⟨mixedDir, .routeTick 3⟩])

/-- The answer to that request holds no actions, which unmarks the tick. -/
def emptyAnswer : CapabilityCompleted :=
  { (default : CapabilityCompleted) with
    requestId := ((after overtaken).ctx.pendingPlan.map (·.requestId)).getD [] }

/-- The third tick finds another entrypoint, and a plan is asked for of its observation. -/
def replanned : List Delivery :=
  overtaken ++ [⟨mixedDir, .tick 3⟩, ⟨mixedDir, .routeTick 3⟩,
    ⟨mixedDir, .loopObserved libObserved⟩, ⟨mixedDir, .loopObserved mixedObserved⟩,
    ⟨mixedDir, .capabilityCompleted emptyAnswer⟩, ⟨mixedDir, .routeSelected (routeTo "plan" 3)⟩]

theorem emitted_run (H : Host) {s : LoopState} {event : RuntimeEvent} (h : event ∈ s.emitted)
    (acts : List Delivery) : event ∈ ((loopMachine H).run s acts).emitted := by
  induction acts generalizing s with
  | nil => exact h
  | cons d acts ih =>
    apply ih
    show event ∈ (loopStep H s d).emitted
    unfold loopStep
    split
    · exact h
    · exact List.mem_append_left _ h

theorem lastMade_emitted {acts : List Delivery} (h : observations (after acts).emitted ≠ [])
    (more : List Delivery) :
    RuntimeEvent.loopObserved (lastMade acts) ∈ (after (acts ++ more)).emitted := by
  unfold after
  rw [Machine.run_append]
  apply emitted_run
  apply mem_observations.mp
  rw [lastMade, List.getLastD_eq_getLast?, List.getLast?_eq_some_getLast h]
  exact List.getLast_mem h

theorem replanned_alive :
    (loopMachine entrypointHost).recorded.Along
        (fun s _ => s.1.crashed = false ∧ s.1.ctx.halted = false) (Watched.start "/w" .block)
        replanned ∧
      (after (replanned.take 5)).ctx.currentTick = 2 ∧
      (after (replanned.take 11)).ctx.currentTick = 3 ∧
      (observations (after (replanned.take 2)).emitted).isEmpty = false ∧
      (observations (after (replanned.take 8)).emitted).isEmpty = false := by
  decide +kernel

theorem replanned_scheduled :
    (loopMachine entrypointHost).recorded.Along Scheduled (Watched.start "/w" .block)
      replanned := by
  obtain ⟨⟨h1, h2, h3, h4, h5, h6, h7, h8, h9, h10, h11, h12, -⟩, htwo, hthree, hlib, hmixed⟩ :=
    replanned_alive
  have hlib' := lastMade_emitted (List.isEmpty_eq_false_iff.mp hlib)
  have hmixed' := lastMade_emitted (List.isEmpty_eq_false_iff.mp hmixed)
  refine ⟨scheduled_tick h1.1 h1.2 ?_, scheduled_routeTick h2.1 h2.2 ?_,
    scheduled_tick h3.1 h3.2 ?_, scheduled_routeTick h4.1 h4.2 ?_,
    scheduled_loopObserved h5.1 h5.2 (hlib' ((overtaken.take 4).drop 2)),
    scheduled_routeSelected h6.1 h6.2 htwo.symm ?_ ?_, scheduled_tick h7.1 h7.2 ?_,
    scheduled_routeTick h8.1 h8.2 ?_,
    scheduled_loopObserved h9.1 h9.2 (hlib' ((replanned.take 8).drop 2)),
    scheduled_loopObserved h10.1 h10.2 (hmixed' ((replanned.take 9).drop 8)),
    scheduled_other h11.1 h11.2 (.inr rfl),
    scheduled_routeSelected h12.1 h12.2 hthree.symm ?_ ?_, trivial⟩
  all_goals simp [Delivered, Watched.start, routeTo]

theorem unblocked_tick (s : Watched) (W : World) (tick : Nat) :
    Unblocked H s ⟨W, .tick tick⟩ := by
  refine ⟨?_, ?_, ?_, ?_⟩ <;> intros <;> contradiction

theorem unblocked_routeTick {H : Host} {W : World} (tick : Nat)
    (hpayload : (Observe.payload H W s.1.ctx).isSome = true) :
    Unblocked H s ⟨W, .routeTick tick⟩ := by
  refine ⟨?_, ?_, ?_, ?_⟩ <;> intros
  · exact Option.isSome_iff_ne_none.mp hpayload
  all_goals contradiction

theorem unblocked_loopObserved {H : Host} {observed : LoopObserved}
    (hmark : s.1.ctx.lastObservedTick ≠ some observed.tick) :
    Unblocked H s ⟨W, .loopObserved observed⟩ := by
  refine ⟨?_, ?_, ?_, ?_⟩
  case refine_3 =>
    intro _ h
    cases h
    exact .inl hmark
  all_goals
    intros
    contradiction

/-- The last route finds the observation of its tick stored, and nothing suppresses it. -/
theorem replanned_asks :
    Plan.Asks entrypointHost mixedDir (routed (after (replanned.take 11)).ctx (routeTo "plan" 3))
      mixedObserved (routeTo "plan" 3) := by
  have hfacts :
      let ctx := routed (after (replanned.take 11)).ctx (routeTo "plan" 3)
      let summary := mixedObserved.semanticSummary
      Plan.checkLlmTimeout ctx 3 = none ∧
        (Plan.deterministicBootstrapPlan entrypointHost mixedDir (routeTo "plan" 3) ctx
          mixedObserved).isNone ∧
        Plan.waitsForGoal mixedObserved = false ∧ summary.complete = true ∧
        summary.targetRoot.isNone = false ∧ ctx.lastPlannedObservedTick ≠ some mixedObserved.tick ∧
        ctx.lastHandledObservedHash ≠ some (entrypointHost.hashObserved mixedObserved.errorCount
          mixedObserved.goalText summary) ∧
        Plan.goalComplete mixedDir ctx mixedObserved = false ∧
        Plan.promptUnchanged entrypointHost ctx (mixedObserved.goalText.getD [])
          (summary.entrypointKind.getD []) = false := by
    decide +kernel
  obtain ⟨htimeout, hbootstrap, hwaits, hcomplete, hroot, htick, hcontent, hgoal, hprompt⟩ := hfacts
  refine ⟨htimeout, Option.isNone_iff_eq_none.mp hbootstrap, hwaits, _, ?_,
    htick, hcontent, hgoal, _, _, rfl, hprompt⟩
  rw [Plan.planningSemanticSummary, if_neg (by simp [hcomplete]), if_neg (by simp [hroot])]

theorem unblocked_planRoute {H : Host} {tick : Nat}
    (hplans : ∀ observed, PlanAsked s (routeTo "plan" tick) observed →
      ∃ stored, s.1.ctx.lastObserved = some stored ∧ stored.tick = observed.tick ∧
        Plan.Asks H W (routed s.1.ctx (routeTo "plan" tick)) stored (routeTo "plan" tick)) :
    Unblocked H s ⟨W, .routeSelected (routeTo "plan" tick)⟩ := by
  refine ⟨?_, ?_, ?_, ?_⟩
  · intro _ h
    cases h
  · intro _ h hscan
    cases h
    rcases hscan with hscan | hscan
    · cases hscan
    · cases hscan
  · intro _ h
    cases h
  · intro _ observed h
    cases h
    exact hplans observed

theorem replanned_unblocked :
    (Observe.payload entrypointHost libDir (after []).ctx).isSome ∧
      (Observe.payload entrypointHost libDir (after (replanned.take 3)).ctx).isSome ∧
      (Observe.payload entrypointHost mixedDir (after (replanned.take 7)).ctx).isSome ∧
      (after (replanned.take 4)).ctx.lastObservedTick ≠ some libObserved.tick ∧
      (after (replanned.take 8)).ctx.lastObservedTick ≠ some libObserved.tick ∧
      (after (replanned.take 9)).ctx.lastObservedTick ≠ some mixedObserved.tick ∧
      libObserved.tick ≠ 2 ∧ mixedObserved.tick = 3 := by
  decide +kernel

theorem overtaken_reaches_planner :
    (loopMachine entrypointHost).recorded.Along (ReachesPlanner entrypointHost)
      (Watched.start "/w" .block) replanned := by
  refine (observations_reach_planner_iff entrypointHost "/w" .block replanned
    replanned_scheduled).mpr ?_
  obtain ⟨hfirst, hsecond, hthird, hlib, hlib', hmixed, htwo, hthree⟩ := replanned_unblocked
  refine ⟨unblocked_tick _ _ _ _, unblocked_routeTick _ hfirst, unblocked_tick _ _ _ _,
    unblocked_routeTick _ hsecond, unblocked_loopObserved _ hlib, unblocked_planRoute _ ?_,
    unblocked_tick _ _ _ _, unblocked_routeTick _ hthird, unblocked_loopObserved _ hlib',
    unblocked_loopObserved _ hmixed, ⟨?_, ?_, ?_, ?_⟩, unblocked_planRoute _ ?_, trivial⟩
  case refine_1 =>
    -- Of the observations only that of tick 1 has come back.
    intro observed hasked
    have hdelivered : RuntimeEvent.loopObserved observed ∈ (overtaken.take 5).map (·.event) :=
      hasked.delivered
    obtain rfl : observed = libObserved := by simpa [overtaken] using hdelivered
    exact absurd hasked.tick htwo
  case refine_6 =>
    intro observed hasked
    exact ⟨mixedObserved, rfl, hthree.trans hasked.tick.symm, replanned_asks⟩
  all_goals
    intros
    contradiction

/-- One tick is driven, and all that is emitted comes back at once. -/
def returned : List RuntimeEvent :=
  [.tick 1, .routeTick 1] ++ emittedOn [.tick 1, .routeTick 1, .loopObserved (observedAt 1)]

/-- The observation that comes back is not stored: its tick was marked when it was
    made. -/
theorem returned_observation_not_stored :
    ¬ ∀ (H : Host) (workspace : FilePath) (policy : DestructiveCmdPolicy) (acts : List Delivery),
        (loopMachine H).recorded.Along Scheduled (Watched.start workspace policy) acts →
        (∀ e ∈ ((loopMachine H).recorded.run (Watched.start workspace policy) acts).1.emitted,
          Delivered acts e) →
        (loopMachine H).recorded.Along (ReachesPlanner H) (Watched.start workspace policy)
          acts := by
  intro hall
  have hscheduled : (loopMachine tallyHost).recorded.Along Scheduled (Watched.start "/w" .block)
      (returned.map (⟨emptyDir, ·⟩)) := by
    refine ⟨scheduled_tick rfl rfl ?_, scheduled_routeTick rfl rfl ?_,
      scheduled_loopObserved rfl rfl ?_, scheduled_other rfl rfl (.inl rfl), trivial⟩
    · simp [Delivered, Watched.start]
    · simp [Delivered, Watched.start]
    · exact List.mem_cons_self
  have hemitted : emittedOn returned = returned.drop 2 := by
    rfl
  have hdelivered : ∀ e ∈ emittedOn returned, Delivered (returned.map (⟨emptyDir, ·⟩)) e := by
    intro e he
    rw [hemitted] at he
    unfold Delivered
    rw [List.map_map]
    exact List.mem_map.mpr ⟨e, List.mem_of_mem_drop he, rfl⟩
  have hreaches := hall tallyHost "/w" .block _ hscheduled (by
    rw [Machine.recorded_run]
    exact hdelivered)
  have hstored := hreaches.2.2.1.stores (observedAt 1) rfl
  cases hstored

end Canon.Loop
