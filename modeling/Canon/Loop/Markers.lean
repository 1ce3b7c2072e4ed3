import Canon.Loop.Footprint

/-! # Tick markers

    The context remembers the tick observed last, the tick planned for last, the
    tick routed last and, in the stored observation, one more.  This module follows
    them through the handling of an event: markers are set to the current tick on
    ticks and routes, to the tick of an observation that is delivered, and to the
    tick of the stored observation.
-/

namespace Canon.Loop

variable (H : Host) (W : World) (ctx : LoopContext) (planned : LoopPlanned)
   (c : CapabilityCompleted)

/-- All markers satisfy `T`, the one of the last route `S`. -/
def Marked (T S : Nat → Prop) (ctx : LoopContext) : Prop :=
  (∀ tick, ctx.lastObservedTick = some tick → T tick) ∧
    (∀ tick, ctx.lastPlannedObservedTick = some tick → T tick) ∧
    (∀ observed, ctx.lastObserved = some observed → T observed.tick) ∧
    ∀ tick, ctx.lastRouteSelectedTick = some tick → S tick

namespace Marked

variable {T S : Nat → Prop} {ctx : LoopContext}

/-- The tick observed is set. -/
theorem observe (h : Marked T S ctx) {tick : Nat} (ht : T tick) :
    Marked T S { ctx with lastObservedTick := some tick } :=
  ⟨by simpa using ht, h.2⟩

/-- The tick planned for is forgotten. -/
theorem forget (h : Marked T S ctx) : Marked T S { ctx with lastPlannedObservedTick := none } :=
  ⟨h.1, by simp, h.2.2⟩

/-- The tick planned for is set. -/
theorem plan (h : Marked T S ctx) {tick : Nat} (ht : T tick) :
    Marked T S { ctx with lastPlannedObservedTick := some tick } :=
  ⟨h.1, by simpa using ht, h.2.2⟩

end Marked

/-! ### Actions -/

namespace Act

/-- What dispatching an action may change. -/
def Frame (ctx after : LoopContext) : Prop :=
  ∃ drawn act tracker paths, after =
    { ctx with
      drawn := drawn
      pendingAct := act
      fileWriteTracker := tracker
      writePathsByAction := paths }

theorem Frame.refl : Frame ctx ctx := ⟨_, _, _, _, rfl⟩

theorem Frame.marked {T S : Nat → Prop} {ctx after : LoopContext} (h : Frame ctx after)
    (hmarked : Marked T S ctx) : Marked T S after := by
  obtain ⟨drawn, act, tracker, paths, rfl⟩ := h
  exact hmarked

theorem sendOut_frame (toolKind : Text) (payload : Json) (before : List RuntimeEvent)
    (call : Text → RuntimeEvent) :
    Frame ctx (sendOut H ctx planned toolKind payload before call).ctx :=
  ⟨_, _, _, _, rfl⟩

theorem doneAtOnce_frame (kind : Text) (output : List (String × Json)) (stdout stderr : Text)
    (success : Bool) (after : List RuntimeEvent) :
    Frame ctx (doneAtOnce H W ctx planned kind output stdout stderr success after).ctx :=
  ⟨_, _, _, _, rfl⟩

theorem emitConflict_frame (agent action path : Text) :
    Frame ctx (emitConflict H ctx agent action path).ctx := by
  unfold emitConflict
  split <;> exact .refl ctx

theorem runCommand_frame (cmd : Text) (cwd : FilePath) (before : List RuntimeEvent) :
    Frame ctx (runCommand H ctx planned cmd cwd before).ctx := by
  unfold runCommand
  simp only
  split
  · exact ⟨_, _, _, _, rfl⟩
  · split <;> exact ⟨_, _, _, _, rfl⟩

theorem dispatchCommand_frame :
    Frame ctx (dispatchCommand H W ctx planned).ctx := by
  unfold dispatchCommand
  simp only
  split
  · exact .refl ctx
  · split
    · exact runCommand_frame H ctx planned _ _ _
    · exact .refl ctx
    · split
      · exact runCommand_frame H ctx planned _ _ _
      · exact .refl ctx

theorem dispatchWrite_frame :
    Frame ctx (dispatchWrite H ctx planned).ctx := by
  unfold dispatchWrite
  split
  · simp only
    split
    · exact emitConflict_frame H ctx _ _ _
    · exact ⟨_, _, _, _, rfl⟩
  · exact .refl ctx

theorem dispatchPatchFile_frame :
    Frame ctx (dispatchPatchFile H ctx planned).ctx := by
  unfold dispatchPatchFile
  split
  · exact sendOut_frame H ctx planned _ _ _ _
  · exact .refl ctx

theorem dispatchApplyPatch_frame : Frame ctx (dispatchApplyPatch H W ctx planned).ctx := by
  unfold dispatchApplyPatch
  split
  · exact .refl ctx
  · simp only
    split
    · unfold emitConflict
      split <;> exact ⟨_, _, _, _, rfl⟩
    · exact ⟨_, _, _, _, rfl⟩

theorem dispatchEdit_frame :
    Frame ctx (dispatchEdit H W ctx planned).ctx := by
  unfold dispatchEdit
  simp only
  split <;> split
  all_goals first
    | exact doneAtOnce_frame H W ctx planned _ _ _ _ _ _
    | exact .refl ctx

theorem dispatchRead_frame :
    Frame ctx (dispatchRead H W ctx planned).ctx := by
  unfold dispatchRead
  split
  · exact .refl ctx
  · simp only
    split
    · exact doneAtOnce_frame H W ctx planned _ _ _ _ _ _
    · split
      · exact .refl ctx
      · exact doneAtOnce_frame H W ctx planned _ _ _ _ _ _

theorem dispatchPlan_frame :
    Frame ctx (dispatchPlan H W ctx planned).ctx := by
  unfold dispatchPlan
  split
  case h_3 => exact dispatchCommand_frame H W ctx planned
  case h_4 => exact dispatchWrite_frame H ctx planned
  case h_5 => exact dispatchPatchFile_frame H ctx planned
  case h_6 => exact dispatchApplyPatch_frame H W ctx planned
  case h_7 | h_8 | h_9 | h_10 | h_11 => exact dispatchEdit_frame H W ctx planned
  case h_12 => exact dispatchRead_frame H W ctx planned
  case h_13 => exact doneAtOnce_frame H W ctx planned _ _ _ _ _ _
  all_goals exact .refl ctx

end Act

/-! ### Stages -/

section Stages

variable {T S : Nat → Prop} {ctx : LoopContext}

theorem Observe.executeInner_marked (h : Marked T S ctx) (hnow : T ctx.currentTick) :
    Marked T S (executeInner H W ctx).ctx := by
  unfold executeInner
  split
  · exact h
  · simp only
    split
    · exact h
    · exact h.observe hnow

theorem Verify.execute_marked (selected : RouteSelected) (h : Marked T S ctx) :
    Marked T S (execute H W selected ctx).ctx := by
  unfold execute
  simp only
  split
  · exact h
  · split <;> exact h

theorem Reward.settleStagnation_marked (semantics : RewardSemantics) (h : Marked T S ctx) :
    Marked T S (settleStagnation ctx semantics) := by
  unfold settleStagnation
  split <;> exact h

theorem Reward.execute_marked (verified : LoopVerified) (h : Marked T S ctx) :
    Marked T S (execute verified ctx).ctx := by
  unfold execute
  simp only
  split
  · exact h
  · exact settleStagnation_marked _ h

theorem Reward.executeFromPolicy_marked (policy : VerifierPolicyUpdated) (h : Marked T S ctx) :
    Marked T S (executeFromPolicy policy ctx).ctx := by
  unfold executeFromPolicy
  split
  · exact h
  · simp only
    split
    · exact h
    · exact settleStagnation_marked _ h

theorem Decompose.execute_marked (h : Marked T S ctx) :
    Marked T S (execute H ctx).ctx := by
  unfold execute
  split
  · exact h
  · split <;> exact h

theorem Decompose.executeComplete_marked (h : Marked T S ctx) :
    Marked T S (executeComplete H c ctx).ctx := by
  unfold executeComplete
  split
  · exact h
  · simp only
    split
    · exact h
    · split <;> exact h

namespace Plan

theorem submitBatch_marked (pending : PendingPlan) (planned : List LoopPlanned) (h : Marked T S ctx)
    :
    Marked T S (submitBatch H W ctx pending planned).1 := by
  unfold submitBatch
  simp only
  split
  · exact h.forget
  · split
    · exact h.forget
    · exact h

theorem settleAnswer_marked (pending : PendingPlan) (h : Marked T S ctx) :
    Marked T S (settleAnswer H W c ctx pending).1 := by
  unfold settleAnswer
  simp only
  split
  · exact h.forget
  · split
    · exact h.forget
    · exact submitBatch_marked H W pending _ h

theorem executeComplete_marked (h : Marked T S ctx) :
    Marked T S (executeComplete H W c ctx).ctx := by
  unfold executeComplete
  split
  · exact h
  · split
    · exact h
    · exact settleAnswer_marked H W c _ h

theorem executeFailed_marked (f : CapabilityFailed) (h : Marked T S ctx) :
    Marked T S (executeFailed H f ctx).ctx := by
  unfold executeFailed
  split
  · exact h
  · split <;> exact h

theorem sendPrompt_marked {observed : LoopObserved} (summary : SemanticStateSummary)
    (selected : RouteSelected) (h : Marked T S ctx) (hobserved : T observed.tick) :
    Marked T S (sendPrompt H W ctx observed summary selected).ctx := by
  unfold sendPrompt
  simp only
  split
  · exact h
  · split
    · exact h
    · exact h.plan hobserved

theorem handleObserved_marked {observed : LoopObserved} (selected : RouteSelected)
    (h : Marked T S ctx) (hobserved : T observed.tick) :
    Marked T S (handleObserved H W ctx observed selected).ctx := by
  unfold handleObserved
  split
  · exact h
  · split
    · exact h
    · simp only
      split
      · exact h
      · split
        · exact h
        · split
          · exact h
          · exact sendPrompt_marked H W _ selected h hobserved

theorem executeTrigger_marked (selected : RouteSelected) (h : Marked T S ctx) :
    Marked T S (executeTrigger H W selected ctx).ctx := by
  unfold executeTrigger
  split
  · exact h
  · split
    · exact h
    · rename_i observed hobserved
      have htick : T observed.tick := h.2.2.1 observed hobserved
      split
      · rename_i reply hreply
        unfold deterministicBootstrapPlan at hreply
        simp only at hreply
        split at hreply
        · cases hreply
        · obtain ⟨targetRoot, -, hreply⟩ := Option.bind_eq_some_iff.mp hreply
          obtain ⟨⟨cmd, cwd, reason⟩, -, rfl⟩ := Option.map_eq_some_iff.mp hreply
          exact h.plan htick
      · exact handleObserved_marked H W selected h htick

end Plan

namespace Act

theorem executeDispatch_marked (h : Marked T S ctx) (hnow : T ctx.currentTick) :
    Marked T S (executeDispatch H W ctx).ctx := by
  unfold executeDispatch
  split
  · exact h
  · rename_i task scheduler _
    have hplan := (dispatchPlan_frame H W
      { ctx with scheduler := scheduler, activeBatchLlmRequestId := task.plan.llmRequestId }
      task.plan)
    have hmarked := hplan.marked h
    have htick : T (dispatchPlan H W
        { ctx with scheduler := scheduler, activeBatchLlmRequestId := task.plan.llmRequestId }
        task.plan).ctx.currentTick := by
      obtain ⟨drawn, act, tracker, paths, heq⟩ := hplan
      rw [heq]
      exact hnow
    have hobserved := Observe.executeInner_marked H W hmarked htick
    simp only
    split
    · split <;> exact hobserved
    · exact hmarked

theorem executeComplete_marked (h : Marked T S ctx) :
    Marked T S (executeComplete H W c ctx).ctx := by
  unfold executeComplete
  simp only
  split
  · exact h
  · split <;> exact h

theorem abortActiveBatch_marked (h : Marked T S ctx) : Marked T S (abortActiveBatch ctx).1 := by
  unfold abortActiveBatch
  split <;> exact h

theorem executeFailed_marked (f : CapabilityFailed) (h : Marked T S ctx) :
    Marked T S (executeFailed H W f ctx).ctx := by
  unfold executeFailed
  split
  · exact h
  · split
    · exact h
    · simp only
      split
      · exact h
      · simp only [StageReply.ok]
        split
        · exact abortActiveBatch_marked h
        · exact h

end Act

end Stages

/-! ### Events -/

theorem LoopStageEvent.routing_of_act {event : RuntimeEvent}
    (h : tryFrom event = some .actDispatch) : isRouting event = true := by
  cases event <;> first | rfl | cases h

section Events

variable {T S : Nat → Prop} {ctx : LoopContext} {event : RuntimeEvent}

theorem StageReply.ifNoop_marked {r : StageReply} {next : LoopContext → StageReply}
    (h : Marked T S r.ctx) (hnext : ∀ c, Marked T S c → Marked T S (next c).ctx) :
    Marked T S (r.ifNoop next).ctx := by
  unfold ifNoop
  split
  · exact hnext _ h
  · exact h

theorem StageReply.catchUnwind_marked {r : StageReply} (h : Marked T S r.ctx) :
    Marked T S r.catchUnwind.ctx := by
  unfold catchUnwind
  split <;> exact h

theorem Handled.andThen_marked {r : Handled} {next : LoopContext → Handled}
    (h : Marked T S r.ctx) (hnext : r.panicked = false → Marked T S (next r.ctx).ctx) :
    Marked T S (r.andThen next).ctx := by
  unfold Handled.andThen
  split
  · exact h
  · rename_i hpanicked
    exact hnext (by simpa using hpanicked)

theorem dispatchCapabilityDone_marked (h : Marked T S ctx) :
    Marked T S (dispatchCapabilityDone H W c ctx).ctx := by
  refine StageReply.ifNoop_marked (Decompose.executeComplete_marked H c h) fun ctx h => ?_
  refine StageReply.ifNoop_marked
    (StageReply.catchUnwind_marked (Plan.executeComplete_marked H W c h)) fun ctx h => ?_
  exact StageReply.catchUnwind_marked (Act.executeComplete_marked H W c h)

theorem dispatchCapabilityFail_marked (f : CapabilityFailed) (h : Marked T S ctx) :
    Marked T S (dispatchCapabilityFail H W f ctx).ctx := by
  refine StageReply.ifNoop_marked
    (StageReply.catchUnwind_marked (Plan.executeFailed_marked H f h)) fun ctx h => ?_
  exact StageReply.catchUnwind_marked (Act.executeFailed_marked H W f h)

theorem executeStageEvent_marked (h : Marked T S ctx)
    (hnow : isRouting event = true → T ctx.currentTick) :
    Marked T S (executeStageEvent H W ctx event).ctx := by
  unfold executeStageEvent
  split
  · exact h
  · split
    · exact h
    · rename_i stageEvent hstage
      have hreply : Marked T S (stageEvent.execute H W ctx).ctx := by
        cases stageEvent with
        | scan =>
          exact Observe.executeInner_marked H W h (hnow (LoopStageEvent.routing_of_scan hstage))
        | actDispatch =>
          exact Act.executeDispatch_marked H W h (hnow (LoopStageEvent.routing_of_act hstage))
        | planTrigger selected => exact Plan.executeTrigger_marked H W selected h
        | verifyTrigger selected => exact Verify.execute_marked H W selected h
        | decompose => exact Decompose.execute_marked H h
        | conclude => exact h
        | capabilityDone c => exact dispatchCapabilityDone_marked H W c h
        | capabilityFail f => exact dispatchCapabilityFail_marked H W f h
        | rewardPolicy policy => exact Reward.executeFromPolicy_marked policy h
      unfold ofStageReply
      split <;> exact hreply

theorem executeObserveMode_marked (mode : ObserveExecutionMode) (h : Marked T S ctx)
    (hnow : isRouting event = true → T ctx.currentTick) :
    Marked T S (executeObserveMode H W ctx event mode).ctx := by
  unfold executeObserveMode
  split
  · exact h
  · split
    · exact h
    · exact h
    · rename_i hallows
      have htick := hnow (ObserveExecutionMode.routing_of_allows hallows)
      have hobserved := Observe.executeInner_marked H W h htick
      have hsame := (Observe.executeInner_sound H W ctx).keeps.currentTick
      simp only
      split
      · exact hobserved.plan (hsame ▸ htick)
      · exact hobserved

theorem emitDebug_marked (kind reason : Text) (payload : Json) (h : Marked T S ctx) :
    Marked T S (emitDebug H ctx kind reason payload).ctx := by
  unfold emitDebug
  simp only
  split <;> exact h

theorem executeRewardRecovery_marked (h : Marked T S ctx) :
    Marked T S (executeRewardRecovery ctx).ctx := by
  unfold executeRewardRecovery
  split
  · exact h
  · rename_i verified _
    have hrewarded := Reward.execute_marked verified h
    simp only
    split <;> exact hrewarded

theorem handleRecoveryEvent_marked (event : RuntimeEvent) (h : Marked T S ctx) :
    Marked T S (handleRecoveryEvent H ctx event).1.ctx := by
  unfold handleRecoveryEvent
  split
  · exact h
  · simp only
    split
    · refine Handled.andThen_marked (emitDebug_marked H _ _ _ h) fun _ => ?_
      refine Handled.andThen_marked ?_ fun _ => ?_
      all_goals exact emitDebug_marked H _ _ _ (emitDebug_marked H _ _ _ h)
    · refine Handled.andThen_marked (emitDebug_marked H _ _ _ h) fun _ => ?_
      exact executeRewardRecovery_marked (emitDebug_marked H _ _ _ h)
    · exact emitDebug_marked H _ _ _ h
    · exact emitDebug_marked H _ _ _ h

theorem observeIfAsked_marked (asked : Bool) (h : Marked T S ctx)
    (hnow : isRouting event = true → T ctx.currentTick) :
    Marked T S (observeIfAsked H W ctx event asked).ctx := by
  unfold observeIfAsked
  simp only
  split
  · exact executeObserveMode_marked H W .forced h hnow
  · exact h

theorem finishEvent_marked (forced triggered : Bool) (h : Marked T S ctx)
    (hnow : isRouting event = true → T ctx.currentTick) :
    Marked T S (finishEvent H W ctx event forced triggered).ctx := by
  have hchecked : Marked T S (applyRuntimeEvaluation H W ctx event forced triggered).1.ctx := by
    unfold applyRuntimeEvaluation handleRuntimeObserveMode
    simp only
    split
    · exact h
    · split
      · exact h
      · split
        · exact executeObserveMode_marked H W _ h hnow
        · exact h
  have hsame := (applyRuntimeEvaluation_sound H W ctx event forced triggered
    fun _ => rfl).keeps.currentTick
  unfold finishEvent
  simp only
  split
  · exact hchecked
  · unfold Handled.andThen
    split
    · exact hchecked
    · exact executeStageEvent_marked H W hchecked (hsame ▸ hnow)

theorem settleActed_marked (acted : LoopActed) (h : Marked T S ctx) :
    Marked T S (settleActed ctx acted) := by
  unfold settleActed applyPostActCleanup unblockTasks releasePaths settleIntents
  simp only
  split <;> split
  all_goals first
    | exact h
    | (split <;> split <;> exact h)

theorem updateObserved_marked (f : SemanticStateSummary → SemanticStateSummary)
    (h : Marked T S ctx) : Marked T S (updateObserved ctx f) := by
  unfold updateObserved
  split
  · exact h
  · rename_i observed hobserved
    refine ⟨h.1, h.2.1, ?_, h.2.2.2⟩
    intro observed' heq
    cases heq
    exact h.2.2.1 observed hobserved

/-- Handlers set markers to the tick of a delivered observation and to the tick of a
    route. -/
theorem handleEvent_marked (h : Marked T S ctx)
    (hnow : isRouting event = true → T (tickAfter event ctx.currentTick))
    (hobserved : ∀ observed, event = .loopObserved observed → T observed.tick)
    (hroute : ∀ selected, event = .routeSelected selected → S selected.tick) :
    Marked T S (handleEvent H W ctx event).handled.ctx := by
  cases event
  case debug debug =>
    show Marked T S (handleDebug ctx debug).handled.ctx
    unfold handleDebug
    iterate 5
      split
      · exact h
    exact h
  case routeSelected selected =>
    have hset : Marked T S { ctx with lastRouteSelectedTick := some selected.tick } :=
      ⟨h.1, h.2.1, h.2.2.1, by simpa using hroute selected rfl⟩
    simp only [handleEvent]
    split
    · exact h
    · show Marked T S (handleRouteSelected H W ctx (normalizeRoute selected)).ctx
      unfold handleRouteSelected
      split
      · exact h
      · simp only
        split <;> split
        all_goals first
          | exact hset
          | exact executeObserveMode_marked H W .triggered hset fun _ => hnow rfl
  case tick tick =>
    exact ⟨h.1, h.2.1, h.2.2.1, by simp [handleEvent, HandlerReply.set, HandlerReply.goOn]⟩
  case loopActed acted =>
    show Marked T S (handleLoopActed H ctx acted).ctx
    have hsettled := settleActed_marked acted h
    unfold handleLoopActed
    simp only
    split
    · exact hsettled
    · exact emitDebug_marked H _ _ _ hsettled
  case loopPlanned planned =>
    show Marked T S (handleLoopPlanned W ctx planned).ctx
    unfold handleLoopPlanned
    simp only
    split <;> split <;> exact h
  case loopRewarded rewarded =>
    show Marked T S (handleLoopRewarded H ctx rewarded).ctx
    unfold handleLoopRewarded
    split
    · exact h
    · exact emitDebug_marked H _ _ _ h
  case subTaskResult result =>
    show Marked T S (handleSubtaskResult H ctx result).ctx
    unfold handleSubtaskResult
    simp only
    split <;> exact h
  case runtimeStateUpdated payload =>
    show Marked T S (handleRuntimeStateUpdated ctx payload)
    unfold handleRuntimeStateUpdated
    split
    · exact h
    · split <;> exact h
  case rustcGraphArtifactWritten written =>
    show Marked T S (handleRustcGraphArtifactWritten ctx written)
    exact updateObserved_marked _ h
  case rustcCaptureFailed message =>
    exact updateObserved_marked (·.applyRustcCaptureFailure message) h
  case loopObserved observed =>
    have htick := hobserved observed rfl
    show Marked T S (handleLoopObserved ctx observed)
    unfold handleLoopObserved
    split
    · exact h
    · exact ⟨by simpa using htick, h.2.1, by simpa using htick, h.2.2.2⟩
  case loopVerified verified =>
    show Marked T S (handleLoopVerified ctx verified)
    unfold handleLoopVerified
    simp only
    split <;> exact h
  case planningCompleted completed =>
    show Marked T S (handlePlanningCompleted ctx completed)
    unfold handlePlanningCompleted applyPlanningTransitionEffects
    split <;> exact h
  case promptLoaded payload =>
    show Marked T S (handlePromptLoaded ctx payload)
    unfold handlePromptLoaded
    split <;> exact h
  case errorOccurred err =>
    show Marked T S (handleErrorOccurred ctx err)
    unfold handleErrorOccurred
    simp only
    split <;> split <;> exact h
  case toolResult result =>
    show Marked T S (handleToolResult ctx result)
    unfold handleToolResult
    split <;> exact h
  all_goals exact h

theorem handleFrom_marked (force : Bool) (h : Marked T S ctx)
    (hnow : isRouting event = true → T (tickAfter event ctx.currentTick))
    (hobserved : ∀ observed, event = .loopObserved observed → T observed.tick)
    (hroute : ∀ selected, event = .routeSelected selected → S selected.tick) :
    Marked T S (handleFrom H W event force ctx).ctx := by
  have hhandled := handleEvent_marked H W h hnow hobserved hroute
  have hkeeps := (handleEvent_sound H W ctx event fun _ => rfl).keeps
  have hthen := hkeeps.currentTick ▸ hnow
  unfold handleFrom
  simp only
  split
  · exact hhandled
  · refine Handled.andThen_marked hhandled fun _ => ?_
    have hasked := observeIfAsked_marked H W
      ((handleEvent H W ctx event).triggerObserve || force) hhandled hthen
    refine Handled.andThen_marked hasked fun _ => ?_
    apply finishEvent_marked H W _ _ hasked
    rw [(observeIfAsked_sound H W _ event _ fun _ => rfl).keeps.currentTick]
    exact hthen

/-- The markers after an event: those from before, the current tick on a tick or a
    route, the tick of a delivered observation and of a route. -/
theorem onEvent_marked (h : Marked T S ctx)
    (hnow : isRouting event = true → T (tickAfter event ctx.currentTick))
    (hobserved : ∀ observed, event = .loopObserved observed → T observed.tick)
    (hroute : ∀ selected, event = .routeSelected selected → S selected.tick) :
    Marked T S (onEvent H W ctx event).ctx := by
  cases hexpected : recoveryExpected event with
  | none =>
    rw [onEvent_of_not_recovery hexpected]
    exact handleFrom_marked H W false h hnow hobserved hroute
  | some expected =>
    have hreceived := handleRecoveryEvent_marked H event h
    obtain ⟨debug, rfl⟩ := debug_of_recovery hexpected
    unfold onEvent
    simp only
    split
    · exact hreceived
    · refine Handled.andThen_marked hreceived fun _ => ?_
      exact handleFrom_marked H W _ hreceived (by simp [isRouting]) hobserved hroute

end Events

end Canon.Loop
