import Canon.Loop.Footprint

/-! # What a halted loop still does

    A halted executor is to start no stage and to report nothing until the running
    mode comes back.  The halt check comes after the recovery handler, after the
    route handler and after the observation a tick asks for, so these three are not
    stopped by it.
-/

namespace Canon.Loop

variable {event : RuntimeEvent} (H : Host) (W : World) (ctx : LoopContext)

/-- The events that report what a stage did. -/
def isReport : RuntimeEvent → Bool
  | .loopObserved _ | .loopPlanned _ | .planningCompleted _ | .loopActed _ | .loopVerified _
  | .loopRewarded _ => true
  | _ => false

/-- No stage ran and nothing was reported. -/
structure Handled.Quiet (h : Handled) : Prop where
  ran : h.ran = []
  emitted : ∀ e ∈ h.emitted, isReport e = false

namespace Handled

@[simp] theorem quiet_only : (Handled.only ctx).Quiet := ⟨rfl, by simp⟩

theorem quiet_andThen (a : Handled) (next : LoopContext → Handled) :
    (a.andThen next).Quiet ↔ a.Quiet ∧ (a.panicked = false → (next a.ctx).Quiet) := by
  unfold andThen
  split
  · rename_i hpanicked
    simp [hpanicked]
  · rename_i hpanicked
    simp only [Bool.not_eq_true] at hpanicked
    constructor
    · intro h
      obtain ⟨hran, hemitted⟩ := h
      obtain ⟨hranA, hranB⟩ := List.append_eq_nil_iff.mp hran
      refine ⟨⟨hranA, ?_⟩, fun _ => ⟨hranB, ?_⟩⟩
      · intro e he
        exact hemitted e (List.mem_append_left _ he)
      · intro e he
        exact hemitted e (List.mem_append_right _ he)
    · intro h
      obtain ⟨hA, hB⟩ := h
      have hB := hB hpanicked
      constructor
      · show a.ran ++ (next a.ctx).ran = []
        rw [hA.ran, hB.ran]
        rfl
      · intro e he
        rcases List.mem_append.mp he with he | he
        · exact hA.emitted e he
        · exact hB.emitted e he

end Handled

theorem emitDebug_quiet (kind reason : Text) (payload : Json) :
    (emitDebug H ctx kind reason payload).Quiet := by
  unfold emitDebug
  simp only
  split
  · exact Handled.quiet_only ctx
  · exact ⟨rfl, by simp [isReport]⟩

/-- An observation is made unless the tick has one or the event may not ask for it. -/
theorem executeObserveMode_quiet_iff (event : RuntimeEvent) (mode : ObserveExecutionMode) :
    (executeObserveMode H W ctx event mode).Quiet ↔
      ctx.lastPlannedObservedTick = some ctx.currentTick ∨ mode.allows event ≠ some true := by
  unfold executeObserveMode
  split
  · rename_i hplanned
    simp [hplanned]
  · rename_i hplanned
    split
    · rename_i hallows
      simp only [hallows, ne_eq, reduceCtorEq, not_false_eq_true, or_true, iff_true]
      exact ⟨rfl, by simp⟩
    · rename_i hallows
      simp [hallows]
    · rename_i hallows
      simp only [hplanned, hallows, ne_eq, not_true_eq_false, or_false, iff_false]
      -- The stage is on record however it ends.
      intro hquiet
      have hran := hquiet.ran
      split at hran <;> cases hran

theorem executeStageEvent_quiet (h : LoopStageEvent.tryFrom event = none) :
    (executeStageEvent H W ctx event).Quiet := by
  unfold executeStageEvent
  split
  · exact ⟨rfl, by simp [isReport, constraintTrace]⟩
  · rw [h]
    exact Handled.quiet_only ctx

/-- Only events that start no stage ask for an observation. -/
theorem tryFrom_of_triggerObserve {H : Host} {W : World} {ctx : LoopContext}
    (h : (handleEvent H W ctx event).triggerObserve = true) :
    LoopStageEvent.tryFrom event = none := by
  cases event
  case routeSelected selected =>
    simp only [handleEvent] at h
    split at h <;> simp [HandlerReply.ignore, HandlerReply.goOn] at h
  case capabilityCompleted | capabilityFailed | verifierPolicyUpdated =>
    simp [handleEvent, HandlerReply.set, HandlerReply.goOn] at h
  all_goals rfl

/-- The halt check stops every stage; when an observation is asked for it is left
    out, but then no stage follows. -/
theorem finishEvent_quiet_of_halted {ctx : LoopContext} (hhalted : ctx.halted = true)
    (forced : Bool) {triggered : Bool}
    (hstage : triggered = true → LoopStageEvent.tryFrom event = none) :
    (finishEvent H W ctx event forced triggered).Quiet := by
  have hmode : ∀ suppress, evaluateLoopRuntime true forced triggered suppress = .none := by
    intro suppress
    simp [evaluateLoopRuntime]
  unfold finishEvent applyRuntimeEvaluation
  simp only [hhalted, hmode]
  split
  · rename_i hskip
    simp only [Bool.and_eq_true] at hskip
    simpa using executeStageEvent_quiet H W ctx (hstage hskip.1)
  · simp [handleRuntimeObserveMode]

/-! ### Handlers -/

/-- The route to `observe` is not new, not of this tick, or this tick has its
    observation. -/
def RouteSafe (selected : RouteSelected) : Prop :=
  (normalizeRoute selected).approvedRoute = "observe" →
    ctx.lastRouteSelectedTick = some selected.tick ∨ selected.tick ≠ ctx.currentTick ∨
      ctx.lastPlannedObservedTick = some ctx.currentTick

/-- The state in which an event leaves a halted loop alone. -/
def HaltSafe : RuntimeEvent → Prop
  | .routeTick tick => ctx.lastPlannedObservedTick = some tick
  | .routeSelected selected => RouteSafe ctx selected
  | event => recoveryExpected event = some (some "loop_rewarded".toList) → ctx.lastVerified = none

theorem handleRouteSelected_quiet_iff (selected : RouteSelected) :
    (handleRouteSelected H W ctx selected).Quiet ↔
      (selected.approvedRoute = "observe" →
        selected.tick ≠ ctx.currentTick ∨ ctx.lastPlannedObservedTick = some ctx.currentTick) := by
  unfold handleRouteSelected
  split
  · rename_i htick
    simp only [htick, ne_eq, not_false_eq_true, true_or, implies_true, iff_true]
    exact ⟨rfl, by simp⟩
  · rename_i htick
    simp only [htick, false_or]
    by_cases hroute : selected.approvedRoute = "observe"
    · simp only [hroute, if_true, true_imp_iff]
      rw [executeObserveMode_quiet_iff]
      split <;> simp [ObserveExecutionMode.allows]
    · rw [if_neg hroute]
      exact iff_of_true (Handled.quiet_only _) fun h => absurd h hroute

theorem handleEvent_routeSelected_quiet_iff (selected : RouteSelected) :
    (handleEvent H W ctx (.routeSelected selected)).handled.Quiet ↔ RouteSafe ctx selected := by
  unfold RouteSafe
  simp only [handleEvent]
  split
  · rename_i hsame
    simp [hsame, HandlerReply.ignore]
  · rename_i hsame
    simp only [HandlerReply.goOn, handleRouteSelected_quiet_iff, hsame, false_or]
    rfl

/-- No other handler runs a stage or reports. -/
theorem handleEvent_quiet (hroute : ∀ selected, event ≠ .routeSelected selected) :
    (handleEvent H W ctx event).handled.Quiet := by
  cases event
  case routeSelected selected => exact absurd rfl (hroute selected)
  case debug debug =>
    show (handleDebug ctx debug).handled.Quiet
    unfold handleDebug
    iterate 5
      split
      · exact Handled.quiet_only _
    exact Handled.quiet_only _
  case loopActed acted =>
    show (handleLoopActed H ctx acted).Quiet
    unfold handleLoopActed
    simp only
    split
    · exact Handled.quiet_only _
    · exact emitDebug_quiet H _ _ _ _
  case loopRewarded rewarded =>
    show (handleLoopRewarded H ctx rewarded).Quiet
    unfold handleLoopRewarded
    split
    · exact Handled.quiet_only _
    · exact emitDebug_quiet H _ _ _ _
  case subTaskResult result =>
    show (handleSubtaskResult H ctx result).Quiet
    unfold handleSubtaskResult
    simp only
    split <;> exact ⟨rfl, by simp⟩
  case loopPlanned planned =>
    show (handleLoopPlanned W ctx planned).Quiet
    unfold handleLoopPlanned
    simp only
    split
    · exact Handled.quiet_only _
    · refine ⟨rfl, ?_⟩
      intro e he
      cases hid : planned.actionId with
      | none => simp [hid] at he
      | some child =>
        simp only [hid, Option.map_some, Option.getD_some, List.mem_map] at he
        obtain ⟨dep, -, rfl⟩ := he
        rfl
  all_goals exact Handled.quiet_only _

theorem observeIfAsked_quiet (htick : ∀ tick, event ≠ .routeTick tick) (asked : Bool) :
    (observeIfAsked H W ctx event asked).Quiet := by
  unfold observeIfAsked
  simp only
  split
  · rw [executeObserveMode_quiet_iff]
    right
    cases event
    case routeTick => exact absurd rfl (htick _)
    all_goals simp [ObserveExecutionMode.allows]
  · exact Handled.quiet_only ctx

/-! ### Events -/

/-- In a halted loop only the handler and the observation it asks for count. -/
theorem handleFrom_quiet_iff (event : RuntimeEvent) (force : Bool) (ctx : LoopContext)
    (hhalted : haltedAfter event ctx.halted = true) :
    (handleFrom H W event force ctx).Quiet ↔
      (handleEvent H W ctx event).handled.Quiet ∧
        ((handleEvent H W ctx event).stop = false →
          (handleEvent H W ctx event).handled.panicked = false →
          (observeIfAsked H W (handleEvent H W ctx event).handled.ctx event
            ((handleEvent H W ctx event).triggerObserve || force)).Quiet) := by
  unfold handleFrom
  simp only
  split
  · rename_i hstop
    simp [hstop]
  · rename_i hstop
    simp only [Bool.not_eq_true] at hstop
    rw [Handled.quiet_andThen, hstop]
    simp only [true_imp_iff]
    refine and_congr_right fun _ => imp_congr_right fun _ => ?_
    rw [Handled.quiet_andThen, and_iff_left]
    intro _
    refine finishEvent_quiet_of_halted H W ?_ force tryFrom_of_triggerObserve
    rw [(observeIfAsked_sound H W _ event _ fun _ => rfl).keeps.halted,
      (handleEvent_sound H W ctx event fun _ => rfl).keeps.halted, hhalted]

theorem handleFrom_quiet_iff_haltSafe (hrecovery : recoveryExpected event = none)
    (hhalted : haltedAfter event ctx.halted = true) :
    (handleFrom H W event false ctx).Quiet ↔ HaltSafe ctx event := by
  rw [handleFrom_quiet_iff H W event false ctx hhalted]
  cases event
  case routeTick tick =>
    simp [handleEvent, HaltSafe, observeIfAsked, isPlanningCompleted,
      executeObserveMode_quiet_iff, ObserveExecutionMode.allows]
  case routeSelected selected =>
    rw [handleEvent_routeSelected_quiet_iff, and_iff_left]
    · rfl
    · intro _ _
      exact observeIfAsked_quiet H W _ (by simp) _
  all_goals
    simp only [HaltSafe, hrecovery, reduceCtorEq, false_imp_iff, iff_true]
    refine ⟨handleEvent_quiet H W ctx (by simp), fun _ _ => ?_⟩
    exact observeIfAsked_quiet H W _ (by simp) _

theorem executeRewardRecovery_quiet_iff :
    (executeRewardRecovery ctx).Quiet ↔ ctx.lastVerified = none := by
  unfold executeRewardRecovery
  split
  · rename_i hnone
    simp [hnone]
  · rename_i verified hsome
    simp only [hsome, reduceCtorEq, iff_false]
    intro hquiet
    have hran := hquiet.ran
    split at hran <;> cases hran

theorem emitDebug_lastVerified (kind reason : Text) (payload : Json) :
    (emitDebug H ctx kind reason payload).ctx.lastVerified = ctx.lastVerified := by
  have hsound : Handled.Sound ctx.currentTick ctx _ := emitDebug_sound H ctx kind reason payload
  exact hsound.keeps.lastVerified

/-- A recovery event runs a stage only to recover a reward. -/
theorem handleRecoveryEvent_quiet_iff {expected : Option Text}
    (h : recoveryExpected event = some expected) :
    (handleRecoveryEvent H ctx event).1.Quiet ↔
      (expected = some "loop_rewarded".toList → ctx.lastVerified = none) := by
  have hreceived : ∀ kind reason payload, (emitDebug H ctx kind reason payload).Quiet :=
    emitDebug_quiet H ctx
  unfold handleRecoveryEvent
  rw [h]
  simp only
  by_cases hexpected : expected = some "loop_rewarded".toList
  · subst hexpected
    cases hverified : ctx.lastVerified with
    | none =>
      have hrule :
        evaluateRecoveryEvent (some "loop_rewarded".toList) (none : Option LoopVerified).isSome =
          .missingRewardContext := by
        decide
      rw [hrule]
      simp only [implies_true, iff_true, Handled.quiet_andThen]
      refine ⟨hreceived _ _ _, fun _ => ⟨emitDebug_quiet H _ _ _ _, fun _ => ?_⟩⟩
      exact ⟨rfl, by simp [isReport, errorEvent]⟩
    | some verified =>
      have hrule : evaluateRecoveryEvent (some "loop_rewarded".toList) (some verified).isSome =
          .executeRewardRecovery := by
        show evaluateRecoveryEvent (some "loop_rewarded".toList) true = _
        decide
      rw [hrule]
      simp only [Handled.quiet_andThen, executeRewardRecovery_quiet_iff, emitDebug_lastVerified,
        emitDebug_panicked, hverified]
      simp
  · simp only [hexpected, false_imp_iff, iff_true]
    have hrule : evaluateRecoveryEvent expected ctx.lastVerified.isSome = .none ∨
        evaluateRecoveryEvent expected ctx.lastVerified.isSome = .forceObserve := by
      unfold evaluateRecoveryEvent
      split
      · exact .inr rfl
      · left
        rw [if_neg]
        exact hexpected
    rcases hrule with hrule | hrule <;> rw [hrule] <;> exact hreceived _ _ _

/-- A halted loop stays quiet on an event exactly when it is safe. -/
theorem onEvent_quiet_iff (event : RuntimeEvent) (hhalted : haltedAfter event ctx.halted = true) :
    (onEvent H W ctx event).Quiet ↔ HaltSafe ctx event := by
  cases hexpected : recoveryExpected event with
  | none =>
    rw [onEvent_of_not_recovery hexpected]
    exact handleFrom_quiet_iff_haltSafe H W ctx hexpected hhalted
  | some expected =>
    obtain ⟨debug, rfl⟩ := debug_of_recovery hexpected
    have hrecovery := handleRecoveryEvent_quiet_iff H ctx hexpected
    have hsafe : HaltSafe ctx (.debug debug) ↔
        (expected = some "loop_rewarded".toList → ctx.lastVerified = none) := by
      simp [HaltSafe, hexpected]
    rw [hsafe, ← hrecovery]
    unfold onEvent
    simp only
    split
    · rfl
    · rw [Handled.quiet_andThen, and_iff_left]
      intro _
      have hsound : Handled.Sound ctx.currentTick ctx _ :=
        handleRecoveryEvent_sound H ctx (.debug debug)
      refine (handleFrom_quiet_iff H W (.debug debug) _ _ ?_).mpr
        ⟨handleEvent_quiet H W _ (by simp), fun _ _ => observeIfAsked_quiet H W _ (by simp) _⟩
      show (handleRecoveryEvent H ctx (.debug debug)).1.ctx.halted = true
      rw [hsound.keeps.halted]
      exact hhalted

/-! ### Runs -/

/-- A delivery that is handled while the loop is halted, from the one that halts it
    up to the one that ends this. -/
def WhileHalted (s : LoopState) (d : Delivery) : Prop :=
  s.crashed = false ∧ (s.reply H d).ctx.halted = true

/-- The halt is respected. -/
def RespectsHalt (s : LoopState) (d : Delivery) : Prop :=
  WhileHalted H s d → (s.reply H d).Quiet

/-- In any run the halt is respected throughout exactly when every event that is
    handled while the loop is halted is safe. -/
theorem halt_respected_iff (H : Host) (s : LoopState) (acts : List Delivery) :
    (loopMachine H).Along (RespectsHalt H) s acts ↔
      (loopMachine H).Along (fun s d => WhileHalted H s d → HaltSafe s.ctx d.event) s acts := by
  refine Machine.along_congr _ (fun s d => ?_) s acts
  refine imp_congr_right fun hwhile => ?_
  have hhalted : haltedAfter d.event s.ctx.halted = true := by
    rw [← (onEvent_sound H d.world s.ctx d.event).keeps.halted]
    exact hwhile.2
  exact onEvent_quiet_iff H d.world s.ctx d.event hhalted

/-- A fatal invariant halts the loop; the next tick observes all the same. -/
theorem halted_loop_observes :
    ¬ ∀ (H : Host) (s : LoopState) (acts : List Delivery),
        (loopMachine H).Along (RespectsHalt H) s acts := by
  intro hall
  obtain ⟨-, htick, -⟩ := hall tallyHost startInW
    [⟨emptyDir, .runtimeStateUpdated (.obj [("fatal_invariant", .bool true)])⟩,
      ⟨emptyDir, .routeTick 1⟩]
  have hhalted : WhileHalted tallyHost (loopStep tallyHost startInW
      ⟨emptyDir, .runtimeStateUpdated (.obj [("fatal_invariant", .bool true)])⟩)
      ⟨emptyDir, .routeTick 1⟩ := by
    constructor <;> decide +kernel
  have hran : (onEvent tallyHost emptyDir (loopStep tallyHost startInW
      ⟨emptyDir, .runtimeStateUpdated (.obj [("fatal_invariant", .bool true)])⟩).ctx
        (.routeTick 1)).ran = [.observe] := by
    decide +kernel
  exact absurd (hran.symm.trans (htick hhalted).ran) (by decide)

end Canon.Loop
