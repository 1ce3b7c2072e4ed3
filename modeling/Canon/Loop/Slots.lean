import Canon.Loop.Footprint

/-! # Pending requests

    The context has one slot for a plan, one for an action and one for a
    decomposition.  Handling an event empties slots and fills at most one of them,
    with an identifier drawn for it.
-/

namespace Canon.Loop

variable (H : Host) (W : World) (ctx : LoopContext) (planned : LoopPlanned) (event : RuntimeEvent)
   (c : CapabilityCompleted)

/-! ### Slots -/

/-- The slots are kept or emptied. -/
structure SlotShrink (a b : LoopContext) : Prop where
  drawn : a.drawn ≤ b.drawn
  act : b.pendingAct = a.pendingAct ∨ b.pendingAct = none
  plan : b.pendingPlan = a.pendingPlan ∨ b.pendingPlan = none
  decompose : b.pendingDecomposeRequestId = a.pendingDecomposeRequestId ∨
    b.pendingDecomposeRequestId = none

theorem SlotShrink.refl (a : LoopContext) : SlotShrink a a :=
  ⟨le_refl _, .inl rfl, .inl rfl, .inl rfl⟩

theorem SlotShrink.after {a b c : LoopContext} (h' : SlotShrink b c) (h : SlotShrink a b) :
    SlotShrink a c where
  drawn := h.drawn.trans h'.drawn
  act := by
    rcases h'.act with h₁ | h₁
    · rw [h₁]
      exact h.act
    · exact .inr h₁
  plan := by
    rcases h'.plan with h₁ | h₁
    · rw [h₁]
      exact h.plan
    · exact .inr h₁
  decompose := by
    rcases h'.decompose with h₁ | h₁
    · rw [h₁]
      exact h.decompose
    · exact .inr h₁

/-- A context that differs from a shrunk one in other fields. -/
theorem SlotShrink.congr {a b c : LoopContext} (h : SlotShrink a b) (hdrawn : c.drawn = b.drawn)
    (hact : c.pendingAct = b.pendingAct) (hplan : c.pendingPlan = b.pendingPlan)
    (hdecompose : c.pendingDecomposeRequestId = b.pendingDecomposeRequestId) : SlotShrink a c :=
  .after ⟨hdrawn.ge, .inl hact, .inl hplan, .inl hdecompose⟩ h

/-- One slot is filled with the `k`-th identifier, the others shrink. -/
inductive Fills (H : Host) (k : Nat) (a b : LoopContext) : Prop where
  | act (pending : PendingAct) (hfilled : b.pendingAct = some pending)
      (hid : pending.requestId = H.uuid k)
      (hplan : b.pendingPlan = a.pendingPlan ∨ b.pendingPlan = none)
      (hdecompose : b.pendingDecomposeRequestId = a.pendingDecomposeRequestId ∨
        b.pendingDecomposeRequestId = none)
  | plan (pending : PendingPlan) (hfilled : b.pendingPlan = some pending)
      (hid : pending.requestId = H.uuid k)
      (hact : b.pendingAct = a.pendingAct ∨ b.pendingAct = none)
      (hdecompose : b.pendingDecomposeRequestId = a.pendingDecomposeRequestId ∨
        b.pendingDecomposeRequestId = none)
  | decompose (hfilled : b.pendingDecomposeRequestId = some (H.uuid k))
      (hact : b.pendingAct = a.pendingAct ∨ b.pendingAct = none)
      (hplan : b.pendingPlan = a.pendingPlan ∨ b.pendingPlan = none)

/-- What handling may do to the slots. -/
inductive SlotStep (H : Host) (a b : LoopContext) : Prop where
  | shrink (h : SlotShrink a b)
  | fill (k : Nat) (hk : a.drawn ≤ k) (hk' : k < b.drawn) (h : Fills H k a b)

/-- The slots between two contexts do not change, then a step follows. -/
theorem SlotStep.after {H : Host} {a b c : LoopContext} (h' : SlotStep H b c)
    (h : SlotShrink a b) : SlotStep H a c := by
  have keep : ∀ {α : Type} {x y z : Option α}, (z = y ∨ z = none) → (y = x ∨ y = none) →
      (z = x ∨ z = none) := by
    intro α x y z hz hy
    rcases hz with rfl | rfl
    · exact hy
    · exact .inr rfl
  cases h' with
  | shrink h' => exact .shrink (h'.after h)
  | fill k hk hk' hfills =>
    refine .fill k (h.drawn.trans hk) hk' ?_
    cases hfills with
    | act pending hfilled hid hplan hdecompose =>
      exact .act pending hfilled hid (keep hplan h.plan) (keep hdecompose h.decompose)
    | plan pending hfilled hid hact hdecompose =>
      exact .plan pending hfilled hid (keep hact h.act) (keep hdecompose h.decompose)
    | decompose hfilled hact hplan =>
      exact .decompose hfilled (keep hact h.act) (keep hplan h.plan)

/-- A step into a context, then one that differs from it in other fields. -/
theorem SlotStep.thenSame {H : Host} {a b c : LoopContext} (h : SlotStep H a b)
    (hdrawn : c.drawn = b.drawn) (hact : c.pendingAct = b.pendingAct)
    (hplan : c.pendingPlan = b.pendingPlan)
    (hdecompose : c.pendingDecomposeRequestId = b.pendingDecomposeRequestId) :
    SlotStep H a c := by
  cases h with
  | shrink h => exact .shrink (h.congr hdrawn hact hplan hdecompose)
  | fill k hk hk' hfills =>
    refine .fill k hk (hdrawn ▸ hk') ?_
    cases hfills with
    | act pending hfilled hid hp hd =>
      exact .act pending (hact.trans hfilled) hid (hplan ▸ hp) (hdecompose ▸ hd)
    | plan pending hfilled hid ha hd =>
      exact .plan pending (hplan.trans hfilled) hid (hact ▸ ha) (hdecompose ▸ hd)
    | decompose hfilled ha hp =>
      exact .decompose (hdecompose.trans hfilled) (hact ▸ ha) (hplan ▸ hp)

/-! ### Stages that fill no slot -/

theorem Observe.executeInner_slots :
    (executeInner H W ctx).ctx.drawn = ctx.drawn ∧
      (executeInner H W ctx).ctx.pendingAct = ctx.pendingAct ∧
      (executeInner H W ctx).ctx.pendingPlan = ctx.pendingPlan ∧
      (executeInner H W ctx).ctx.pendingDecomposeRequestId = ctx.pendingDecomposeRequestId := by
  unfold executeInner
  split
  · exact ⟨rfl, rfl, rfl, rfl⟩
  · simp only
    split <;> exact ⟨rfl, rfl, rfl, rfl⟩

theorem Verify.execute_slots (selected : RouteSelected) (ctx : LoopContext) :
    SlotShrink ctx (execute H W selected ctx).ctx := by
  have hdraw : SlotShrink ctx { ctx with drawn := ctx.drawn + 2 } :=
    ⟨Nat.le_add_right _ _, .inl rfl, .inl rfl, .inl rfl⟩
  unfold execute
  simp only
  split
  · exact hdraw
  · split <;> exact hdraw

theorem Reward.settleStagnation_slots (semantics : RewardSemantics) :
    SlotShrink ctx (settleStagnation ctx semantics) := by
  unfold settleStagnation
  split <;> exact ⟨Nat.le_refl _, .inl rfl, .inl rfl, .inl rfl⟩

theorem Reward.execute_slots (verified : LoopVerified) (ctx : LoopContext) :
    SlotShrink ctx (execute verified ctx).ctx := by
  unfold execute
  simp only
  split
  · exact ⟨Nat.le_refl _, .inl rfl, .inl rfl, .inl rfl⟩
  · exact (settleStagnation_slots _ _).after ⟨Nat.le_refl _, .inl rfl, .inl rfl, .inl rfl⟩

theorem Reward.executeFromPolicy_slots (policy : VerifierPolicyUpdated) (ctx : LoopContext) :
    SlotShrink ctx (executeFromPolicy policy ctx).ctx := by
  unfold executeFromPolicy
  split
  · exact .refl ctx
  · simp only
    split
    · exact ⟨Nat.le_refl _, .inl rfl, .inl rfl, .inl rfl⟩
    · exact (settleStagnation_slots _ _).after ⟨Nat.le_refl _, .inl rfl, .inl rfl, .inl rfl⟩

theorem Decompose.executeComplete_slots (ctx : LoopContext) :
    SlotShrink ctx (executeComplete H c ctx).ctx := by
  unfold executeComplete
  split
  · exact .refl ctx
  · simp only
    split
    · exact ⟨Nat.le_refl _, .inl rfl, .inl rfl, .inr rfl⟩
    · split <;> exact ⟨Nat.le_add_right _ _, .inl rfl, .inl rfl, .inr rfl⟩

/-! ### Plan -/

namespace Plan

theorem submitBatch_slots (pending : PendingPlan) (planned : List LoopPlanned) :
    SlotShrink ctx (submitBatch H W ctx pending planned).1 := by
  unfold submitBatch
  simp only
  split
  · exact ⟨Nat.le_refl _, .inl rfl, .inl rfl, .inl rfl⟩
  · split <;> exact ⟨Nat.le_refl _, .inl rfl, .inl rfl, .inl rfl⟩

theorem settleAnswer_slots (ctx : LoopContext) (pending : PendingPlan) :
    SlotShrink ctx (settleAnswer H W c ctx pending).1 := by
  unfold settleAnswer
  simp only
  split
  · exact ⟨Nat.le_refl _, .inl rfl, .inl rfl, .inl rfl⟩
  · split
    · exact ⟨Nat.le_refl _, .inl rfl, .inl rfl, .inl rfl⟩
    · exact (submitBatch_slots H W _ pending _).after
        ⟨Nat.le_add_right _ _, .inl rfl, .inl rfl, .inl rfl⟩

theorem executeComplete_slots (ctx : LoopContext) :
    SlotShrink ctx (executeComplete H W c ctx).ctx := by
  unfold executeComplete
  split
  · exact .refl ctx
  · split
    · exact .refl ctx
    · exact (settleAnswer_slots H W c _ _).after ⟨Nat.le_succ _, .inl rfl, .inr rfl, .inl rfl⟩

theorem executeFailed_slots (f : CapabilityFailed) (ctx : LoopContext) :
    SlotShrink ctx (executeFailed H f ctx).ctx := by
  unfold executeFailed
  split
  · exact .refl ctx
  · split
    · exact .refl ctx
    · exact ⟨Nat.le_succ _, .inl rfl, .inr rfl, .inl rfl⟩

theorem sendPrompt_slots (observed : LoopObserved) (summary : SemanticStateSummary)
    (selected : RouteSelected) :
    SlotStep H ctx (sendPrompt H W ctx observed summary selected).ctx := by
  unfold sendPrompt
  simp only
  split
  · exact .shrink (.refl ctx)
  · split
    · exact .shrink (.refl ctx)
    · exact .fill ctx.drawn (Nat.le_refl _) (by simp [requested])
        (.plan (pendingOf H ctx observed) rfl rfl (.inl rfl) (.inl rfl))

theorem handleObserved_slots (observed : LoopObserved) (selected : RouteSelected) :
    SlotStep H ctx (handleObserved H W ctx observed selected).ctx := by
  unfold handleObserved
  split
  · exact .shrink (.refl ctx)
  · split
    · exact .shrink (.refl ctx)
    · simp only
      split
      · exact .shrink (.refl ctx)
      · split
        · exact .shrink (.refl ctx)
        · split
          · exact .shrink (.refl ctx)
          · exact (sendPrompt_slots H W _ observed _ selected).after
              ⟨Nat.le_refl _, .inl rfl, .inl rfl, .inl rfl⟩

theorem executeTrigger_slots (selected : RouteSelected) (ctx : LoopContext) :
    SlotStep H ctx (executeTrigger H W selected ctx).ctx := by
  unfold executeTrigger
  split
  · exact .shrink ⟨Nat.le_refl _, .inl rfl, .inr rfl, .inl rfl⟩
  · split
    · exact .shrink (.refl ctx)
    · split
      · rename_i reply h
        unfold deterministicBootstrapPlan at h
        simp only at h
        split at h
        · cases h
        · obtain ⟨targetRoot, -, h⟩ := Option.bind_eq_some_iff.mp h
          obtain ⟨⟨cmd, cwd, reason⟩, -, rfl⟩ := Option.map_eq_some_iff.mp h
          exact .shrink ⟨Nat.le_add_right _ _, .inl rfl, .inl rfl, .inl rfl⟩
      · exact handleObserved_slots H W ctx _ selected

end Plan

theorem Decompose.execute_slots :
    SlotStep H ctx (execute H ctx).ctx := by
  unfold execute
  split
  · exact .shrink (.refl ctx)
  · split
    · exact .shrink (.refl ctx)
    · exact .fill ctx.drawn (Nat.le_refl _) (Nat.lt_succ_self _)
        (.decompose rfl (.inl rfl) (.inl rfl))

/-! ### Act -/

namespace Act

theorem sendOut_slots (toolKind : Text) (payload : Json) (before : List RuntimeEvent)
    (call : Text → RuntimeEvent) :
    SlotStep H ctx (sendOut H ctx planned toolKind payload before call).ctx :=
  .fill ctx.drawn (Nat.le_refl _) (Nat.lt_add_of_pos_right (by decide))
    (.act _ rfl rfl (.inl rfl) (.inl rfl))

theorem doneAtOnce_slots (kind : Text) (output : List (String × Json)) (stdout stderr : Text)
    (success : Bool) (after : List RuntimeEvent) :
    SlotShrink ctx (doneAtOnce H W ctx planned kind output stdout stderr success after).ctx :=
  ⟨Nat.le_add_right _ _, .inl rfl, .inl rfl, .inl rfl⟩

theorem emitConflict_slots (agent action path : Text) :
    (emitConflict H ctx agent action path).ctx = ctx := by
  unfold emitConflict
  split <;> rfl

theorem runCommand_slots (cmd : Text) (cwd : FilePath) (before : List RuntimeEvent) :
    SlotStep H ctx (runCommand H ctx planned cmd cwd before).ctx := by
  have hsent := sendOut_slots H ctx planned "bash"
    (.obj [("cmd", jsonText cmd), ("cwd", jsonText cwd)]) before fun requestId =>
      .bash { requestId := requestId, cmd := cmd, cwd := some cwd, queued := true }
  unfold runCommand
  simp only
  split
  · exact hsent
  · split
    · exact .shrink (.refl ctx)
    · exact hsent
    · exact hsent

theorem dispatchCommand_slots :
    SlotStep H ctx (dispatchCommand H W ctx planned).ctx := by
  unfold dispatchCommand
  simp only
  split
  · exact .shrink (.refl ctx)
  · split
    · exact runCommand_slots H ctx planned _ _ _
    · exact .shrink (.refl ctx)
    · split
      · exact runCommand_slots H ctx planned _ _ _
      · exact .shrink (.refl ctx)

theorem dispatchWrite_slots :
    SlotStep H ctx (dispatchWrite H ctx planned).ctx := by
  unfold dispatchWrite
  split
  · simp only
    split
    · rw [emitConflict_slots]
      exact .shrink (.refl ctx)
    · exact (sendOut_slots H _ planned _ _ _ _).after
        ⟨Nat.le_refl _, .inl rfl, .inl rfl, .inl rfl⟩
  · exact .shrink (.refl ctx)

theorem dispatchPatchFile_slots :
    SlotStep H ctx (dispatchPatchFile H ctx planned).ctx := by
  unfold dispatchPatchFile
  split
  · exact sendOut_slots H ctx planned _ _ _ _
  · exact .shrink (.refl ctx)

theorem dispatchApplyPatch_slots : SlotStep H ctx (dispatchApplyPatch H W ctx planned).ctx := by
  unfold dispatchApplyPatch
  split
  · exact .shrink (.refl ctx)
  · simp only
    split
    · rw [emitConflict_slots]
      exact .shrink ⟨Nat.le_refl _, .inl rfl, .inl rfl, .inl rfl⟩
    · exact .shrink ((doneAtOnce_slots H W _ planned _ _ _ _ _ _).after
        ⟨Nat.le_refl _, .inl rfl, .inl rfl, .inl rfl⟩)

theorem dispatchEdit_slots :
    SlotStep H ctx (dispatchEdit H W ctx planned).ctx := by
  unfold dispatchEdit
  simp only
  split <;> split
  all_goals first
    | exact .shrink (doneAtOnce_slots H W ctx planned _ _ _ _ _ _)
    | exact .shrink (.refl ctx)

theorem dispatchRead_slots :
    SlotStep H ctx (dispatchRead H W ctx planned).ctx := by
  unfold dispatchRead
  split
  · exact .shrink (.refl ctx)
  · simp only
    split
    · exact .shrink (doneAtOnce_slots H W ctx planned _ _ _ _ _ _)
    · split
      · exact .shrink (.refl ctx)
      · exact .shrink (doneAtOnce_slots H W ctx planned _ _ _ _ _ _)

theorem dispatchPlan_slots :
    SlotStep H ctx (dispatchPlan H W ctx planned).ctx := by
  unfold dispatchPlan
  split
  case h_3 => exact dispatchCommand_slots H W ctx planned
  case h_4 => exact dispatchWrite_slots H ctx planned
  case h_5 => exact dispatchPatchFile_slots H ctx planned
  case h_6 => exact dispatchApplyPatch_slots H W ctx planned
  case h_7 | h_8 | h_9 | h_10 | h_11 => exact dispatchEdit_slots H W ctx planned
  case h_12 => exact dispatchRead_slots H W ctx planned
  case h_13 => exact .shrink (doneAtOnce_slots H W ctx planned _ _ _ _ _ _)
  all_goals exact .shrink (.refl ctx)

theorem executeDispatch_slots :
    SlotStep H ctx (executeDispatch H W ctx).ctx := by
  unfold executeDispatch
  split
  · exact .shrink ⟨Nat.le_refl _, .inl rfl, .inl rfl, .inl rfl⟩
  · rename_i task scheduler _
    have hplan : SlotStep H ctx (dispatchPlan H W
        { ctx with scheduler := scheduler, activeBatchLlmRequestId := task.plan.llmRequestId }
        task.plan).ctx :=
      (dispatchPlan_slots H W _ task.plan).after ⟨Nat.le_refl _, .inl rfl, .inl rfl, .inl rfl⟩
    obtain ⟨hdrawn, hact, hplans, hdecompose⟩ := Observe.executeInner_slots H W (dispatchPlan H W
      { ctx with scheduler := scheduler, activeBatchLlmRequestId := task.plan.llmRequestId }
      task.plan).ctx
    simp only
    split
    · split <;> exact hplan.thenSame hdrawn hact hplans hdecompose
    · exact hplan

theorem executeComplete_slots (ctx : LoopContext) :
    SlotShrink ctx (executeComplete H W c ctx).ctx := by
  unfold executeComplete
  simp only
  split
  · exact .refl ctx
  · split
    · exact .refl ctx
    · exact ⟨Nat.le_add_right _ _, .inr rfl, .inl rfl, .inl rfl⟩

theorem abortActiveBatch_slots : SlotShrink ctx (abortActiveBatch ctx).1 := by
  unfold abortActiveBatch
  split
  · exact .refl ctx
  · exact ⟨Nat.le_refl _, .inl rfl, .inl rfl, .inl rfl⟩

theorem executeFailed_slots (f : CapabilityFailed) (ctx : LoopContext) :
    SlotShrink ctx (executeFailed H W f ctx).ctx := by
  have hclear : SlotShrink ctx { ctx with pendingAct := none, drawn := ctx.drawn + 2 } :=
    ⟨Nat.le_add_right _ _, .inr rfl, .inl rfl, .inl rfl⟩
  unfold executeFailed
  split
  · exact .refl ctx
  · split
    · exact .refl ctx
    · simp only
      split
      · exact hclear
      · simp only [StageReply.ok]
        split
        · exact (abortActiveBatch_slots _).after hclear
        · exact hclear.congr rfl rfl rfl rfl

end Act

/-! ### Events -/

theorem StageReply.catchUnwind_ctx (r : StageReply) : r.catchUnwind.ctx = r.ctx := by
  unfold catchUnwind
  split <;> rfl

theorem StageReply.ifNoop_slots {ctx : LoopContext} {r : StageReply}
    {next : LoopContext → StageReply} (h : SlotShrink ctx r.ctx)
    (hnext : ∀ c, SlotShrink c (next c).ctx) : SlotShrink ctx (r.ifNoop next).ctx := by
  unfold ifNoop
  split
  · exact (hnext _).after h
  · exact h

theorem dispatchCapabilityDone_slots (ctx : LoopContext) :
    SlotShrink ctx (dispatchCapabilityDone H W c ctx).ctx := by
  refine StageReply.ifNoop_slots (Decompose.executeComplete_slots H c ctx) fun ctx => ?_
  refine StageReply.ifNoop_slots ?_ fun ctx => ?_
  · rw [StageReply.catchUnwind_ctx]
    exact Plan.executeComplete_slots H W c ctx
  · rw [StageReply.catchUnwind_ctx]
    exact Act.executeComplete_slots H W c ctx

theorem dispatchCapabilityFail_slots (f : CapabilityFailed) (ctx : LoopContext) :
    SlotShrink ctx (dispatchCapabilityFail H W f ctx).ctx := by
  refine StageReply.ifNoop_slots ?_ fun ctx => ?_
  · rw [StageReply.catchUnwind_ctx]
    exact Plan.executeFailed_slots H f ctx
  · rw [StageReply.catchUnwind_ctx]
    exact Act.executeFailed_slots H W f ctx

theorem LoopStageEvent.execute_slots (stageEvent : LoopStageEvent) :
    SlotStep H ctx (stageEvent.execute H W ctx).ctx := by
  cases stageEvent with
  | scan =>
    obtain ⟨hdrawn, hact, hplan, hdecompose⟩ := Observe.executeInner_slots H W ctx
    exact .shrink ⟨hdrawn.ge, .inl hact, .inl hplan, .inl hdecompose⟩
  | planTrigger selected => exact Plan.executeTrigger_slots H W selected ctx
  | actDispatch => exact Act.executeDispatch_slots H W ctx
  | verifyTrigger selected => exact .shrink (Verify.execute_slots H W selected ctx)
  | decompose => exact Decompose.execute_slots H ctx
  | conclude => exact .shrink (.refl ctx)
  | capabilityDone c => exact .shrink (dispatchCapabilityDone_slots H W c ctx)
  | capabilityFail f => exact .shrink (dispatchCapabilityFail_slots H W f ctx)
  | rewardPolicy policy => exact .shrink (Reward.executeFromPolicy_slots policy ctx)

theorem ofStageReply_ctx (stage : Stage) (r : StageReply) :
    (ofStageReply H event stage r).ctx = r.ctx := by
  unfold ofStageReply
  split <;> rfl

theorem executeStageEvent_slots : SlotStep H ctx (executeStageEvent H W ctx event).ctx := by
  unfold executeStageEvent
  split
  · exact .shrink (.refl ctx)
  · split
    · exact .shrink (.refl ctx)
    · rw [ofStageReply_ctx]
      exact LoopStageEvent.execute_slots H W ctx _

theorem emitDebug_slots (kind reason : Text) (payload : Json) :
    SlotShrink ctx (emitDebug H ctx kind reason payload).ctx := by
  unfold emitDebug
  simp only
  split
  · exact .refl ctx
  · exact ⟨Nat.le_refl _, .inl rfl, .inl rfl, .inl rfl⟩

theorem executeObserveMode_slots (mode : ObserveExecutionMode) :
    SlotShrink ctx (executeObserveMode H W ctx event mode).ctx := by
  unfold executeObserveMode
  split
  · exact .refl ctx
  · split
    · exact .refl ctx
    · exact .refl ctx
    · obtain ⟨hdrawn, hact, hplan, hdecompose⟩ := Observe.executeInner_slots H W ctx
      simp only
      split <;> exact ⟨hdrawn.ge, .inl hact, .inl hplan, .inl hdecompose⟩

theorem observeIfAsked_slots (asked : Bool) :
    SlotShrink ctx (observeIfAsked H W ctx event asked).ctx := by
  unfold observeIfAsked
  simp only
  split
  · exact executeObserveMode_slots H W ctx event .forced
  · exact .refl ctx

theorem applyRuntimeEvaluation_slots (forced triggered : Bool) :
    SlotShrink ctx (applyRuntimeEvaluation H W ctx event forced triggered).1.ctx := by
  unfold applyRuntimeEvaluation
  simp only
  split
  · exact .refl ctx
  · unfold handleRuntimeObserveMode
    simp only
    split
    · exact .refl ctx
    · split
      · exact executeObserveMode_slots H W ctx event _
      · exact .refl ctx

theorem Handled.andThen_slots {ctx : LoopContext} {a : Handled} {next : LoopContext → Handled}
    (ha : SlotShrink ctx a.ctx) (hnext : ∀ c, SlotShrink c (next c).ctx) :
    SlotShrink ctx (a.andThen next).ctx := by
  unfold andThen
  split
  · exact ha
  · exact (hnext _).after ha

theorem Handled.andThen_slotStep {H : Host} {ctx : LoopContext} {a : Handled}
    {next : LoopContext → Handled} (ha : SlotShrink ctx a.ctx)
    (hnext : ∀ c, SlotStep H c (next c).ctx) : SlotStep H ctx (a.andThen next).ctx := by
  unfold andThen
  split
  · exact .shrink ha
  · exact (hnext _).after ha

theorem finishEvent_slots (forced triggered : Bool) :
    SlotStep H ctx (finishEvent H W ctx event forced triggered).ctx := by
  have hchecked := applyRuntimeEvaluation_slots H W ctx event forced triggered
  unfold finishEvent
  simp only
  split
  · exact .shrink hchecked
  · exact Handled.andThen_slotStep hchecked fun c => executeStageEvent_slots H W c event

theorem handleRecoveryEvent_slots :
    SlotShrink ctx (handleRecoveryEvent H ctx event).1.ctx := by
  unfold handleRecoveryEvent
  split
  · exact .refl ctx
  · simp only
    split
    · dsimp only
      refine Handled.andThen_slots (emitDebug_slots H ctx _ _ _) fun c => ?_
      refine Handled.andThen_slots (emitDebug_slots H c _ _ _) fun c => ?_
      exact .refl c
    · dsimp only
      refine Handled.andThen_slots (emitDebug_slots H ctx _ _ _) fun c => ?_
      unfold executeRewardRecovery
      split
      · exact .refl c
      · simp only
        split <;> exact Reward.execute_slots _ c
    · exact emitDebug_slots H ctx _ _ _
    · exact emitDebug_slots H ctx _ _ _

theorem settleActed_slots (acted : LoopActed) :
    SlotShrink ctx (settleActed ctx acted) := by
  unfold settleActed applyPostActCleanup unblockTasks releasePaths settleIntents
  simp only
  split <;> split
  all_goals first
    | exact ⟨Nat.le_refl _, .inl rfl, .inl rfl, .inl rfl⟩
    | (split <;> split <;> exact ⟨Nat.le_refl _, .inl rfl, .inl rfl, .inl rfl⟩)

theorem updateObserved_slots (f : SemanticStateSummary → SemanticStateSummary) :
    SlotShrink ctx (updateObserved ctx f) := by
  unfold updateObserved
  split
  · exact .refl ctx
  · exact ⟨Nat.le_refl _, .inl rfl, .inl rfl, .inl rfl⟩

/-- Handlers fill no slot; a successful bootstrap drops the pending action. -/
theorem handleEvent_slots :
    SlotShrink ctx (handleEvent H W ctx event).handled.ctx := by
  have same : ∀ {c : LoopContext}, c.drawn = ctx.drawn → c.pendingAct = ctx.pendingAct →
      c.pendingPlan = ctx.pendingPlan →
      c.pendingDecomposeRequestId = ctx.pendingDecomposeRequestId → SlotShrink ctx c := by
    intro c hdrawn hact hplan hdecompose
    exact ⟨hdrawn.ge, .inl hact, .inl hplan, .inl hdecompose⟩
  cases event
  case debug debug =>
    show SlotShrink ctx (handleDebug ctx debug).handled.ctx
    unfold handleDebug
    iterate 5
      split
      · exact same rfl rfl rfl rfl
    exact same rfl rfl rfl rfl
  case routeSelected selected =>
    simp only [handleEvent]
    split
    · exact .refl ctx
    · show SlotShrink ctx (handleRouteSelected H W ctx (normalizeRoute selected)).ctx
      unfold handleRouteSelected
      split
      · exact .refl ctx
      · simp only
        split <;> split
        all_goals first
          | exact same rfl rfl rfl rfl
          | exact (executeObserveMode_slots H W _ _ _).after (same rfl rfl rfl rfl)
  case loopActed acted =>
    show SlotShrink ctx (handleLoopActed H ctx acted).ctx
    have hsettled := settleActed_slots ctx acted
    unfold handleLoopActed
    simp only
    split
    · exact hsettled
    · exact (emitDebug_slots H _ _ _ _).after
        ⟨hsettled.drawn, .inr rfl, hsettled.plan, hsettled.decompose⟩
  case loopPlanned planned =>
    show SlotShrink ctx (handleLoopPlanned W ctx planned).ctx
    unfold handleLoopPlanned
    simp only
    split <;> split <;> exact same rfl rfl rfl rfl
  case loopRewarded rewarded =>
    show SlotShrink ctx (handleLoopRewarded H ctx rewarded).ctx
    unfold handleLoopRewarded
    split
    · exact .refl ctx
    · exact (emitDebug_slots H _ _ _ _).after (same rfl rfl rfl rfl)
  case subTaskResult result =>
    show SlotShrink ctx (handleSubtaskResult H ctx result).ctx
    unfold handleSubtaskResult
    simp only
    split <;> exact same rfl rfl rfl rfl
  case runtimeStateUpdated payload =>
    show SlotShrink ctx (handleRuntimeStateUpdated ctx payload)
    unfold handleRuntimeStateUpdated
    split
    · exact same rfl rfl rfl rfl
    · split <;> exact same rfl rfl rfl rfl
  case rustcGraphArtifactWritten written =>
    show SlotShrink ctx (handleRustcGraphArtifactWritten ctx written)
    exact updateObserved_slots ctx _
  case rustcCaptureFailed message =>
    exact (updateObserved_slots ctx (·.applyRustcCaptureFailure message)).congr rfl rfl rfl rfl
  case loopObserved observed =>
    show SlotShrink ctx (handleLoopObserved ctx observed)
    unfold handleLoopObserved
    split <;> exact same rfl rfl rfl rfl
  case loopVerified verified =>
    show SlotShrink ctx (handleLoopVerified ctx verified)
    unfold handleLoopVerified
    simp only
    split <;> exact same rfl rfl rfl rfl
  case planningCompleted completed =>
    show SlotShrink ctx (handlePlanningCompleted ctx completed)
    unfold handlePlanningCompleted applyPlanningTransitionEffects
    split <;> exact same rfl rfl rfl rfl
  case promptLoaded payload =>
    show SlotShrink ctx (handlePromptLoaded ctx payload)
    unfold handlePromptLoaded
    split <;> exact same rfl rfl rfl rfl
  case errorOccurred err =>
    show SlotShrink ctx (handleErrorOccurred ctx err)
    unfold handleErrorOccurred
    simp only
    split <;> split <;> exact same rfl rfl rfl rfl
  case toolResult result =>
    show SlotShrink ctx (handleToolResult ctx result)
    unfold handleToolResult
    split <;> exact same rfl rfl rfl rfl
  all_goals exact same rfl rfl rfl rfl

theorem handleFrom_slots (force : Bool) (ctx : LoopContext) :
    SlotStep H ctx (handleFrom H W event force ctx).ctx := by
  have hhandler := handleEvent_slots H W ctx event
  unfold handleFrom
  simp only
  split
  · exact .shrink hhandler
  · refine Handled.andThen_slotStep hhandler fun c => ?_
    exact Handled.andThen_slotStep (observeIfAsked_slots H W c event _) fun c =>
      finishEvent_slots H W c event _ _

/-- Handling an event fills at most one slot. -/
theorem onEvent_slots :
    SlotStep H ctx (onEvent H W ctx event).ctx := by
  have hrecovery := handleRecoveryEvent_slots H ctx event
  unfold onEvent
  simp only
  split
  · exact .shrink hrecovery
  · exact Handled.andThen_slotStep hrecovery fun c =>
      handleFrom_slots H W event (forcesObserve event ctx) c

end Canon.Loop
