import Canon.Loop.Executor

/-! # What stages and handlers leave alone

    One statement per stage and one for all handlers: which fields of the context
    they keep and which events they may emit.  The results about runs use these and
    never look into a stage for a field it does not touch.
-/

namespace Canon.Loop

variable {r : StageReply} (H : Host) (W : World) (ctx : LoopContext) (planned : LoopPlanned)
   (c : CapabilityCompleted) (event : RuntimeEvent)

/-! ### Stages -/

/-- The fields no stage writes. -/
structure StageKeeps (a b : LoopContext) : Prop where
  workspace : b.workspace = a.workspace
  lastObserved : b.lastObserved = a.lastObserved
  lastRouteSelectedTick : b.lastRouteSelectedTick = a.lastRouteSelectedTick
  lastVerified : b.lastVerified = a.lastVerified
  halted : b.halted = a.halted
  currentTick : b.currentTick = a.currentTick

namespace StageKeeps

theorem refl (a : LoopContext) : StageKeeps a a := ⟨rfl, rfl, rfl, rfl, rfl, rfl⟩

/-- Transitivity, the later part first. -/
theorem after {a b c : LoopContext} (h' : StageKeeps b c) (h : StageKeeps a b) :
    StageKeeps a c where
  workspace := h'.workspace.trans h.workspace
  lastObserved := h'.lastObserved.trans h.lastObserved
  lastRouteSelectedTick := h'.lastRouteSelectedTick.trans h.lastRouteSelectedTick
  lastVerified := h'.lastVerified.trans h.lastVerified
  halted := h'.halted.trans h.halted
  currentTick := h'.currentTick.trans h.currentTick

end StageKeeps

/-- What may be emitted at a tick: no verification, nothing that moves the clock or
    the route, and observations of that tick only. -/
def MayEmit (tick : Nat) : RuntimeEvent → Prop
  | .loopVerified _ | .routeTick _ | .routeSelected _ | .tick _ => False
  | .loopObserved observed => observed.tick = tick
  | _ => True

/-- A stage that keeps to its part and emits what may be emitted at a tick.  A stage
    that does so at any tick makes no observation. -/
structure StageReply.Sound (tick : Nat) (ctx : LoopContext) (r : StageReply) : Prop where
  keeps : StageKeeps ctx r.ctx
  emits : ∀ e ∈ r.events, MayEmit tick e

section Stages

variable {tick : Nat}

namespace StageReply

@[simp] theorem events_ok (result : LoopStageResult) :
    (StageReply.ok ctx result).events = result.events := rfl

@[simp] theorem events_panic : (StageReply.panic ctx).events = [] := rfl

theorem sound_ok {ctx after : LoopContext} {result : LoopStageResult}
    (hkeeps : StageKeeps ctx after) (hemits : ∀ e ∈ result.events, MayEmit tick e) :
    (StageReply.ok after result).Sound tick ctx :=
  ⟨hkeeps, hemits⟩

theorem sound_panic {ctx after : LoopContext} (hkeeps : StageKeeps ctx after) :
    (StageReply.panic after).Sound tick ctx :=
  ⟨hkeeps, by simp⟩

theorem sound_noop : (StageReply.ok ctx .noop).Sound tick ctx :=
  sound_ok (.refl ctx) (by simp [LoopStageResult.events])

/-- A stage that starts from a context which already differs. -/
theorem Sound.after {ctx mid : LoopContext} (h : r.Sound tick mid) (hmid : StageKeeps ctx mid) :
    r.Sound tick ctx where
  keeps := h.keeps.after hmid
  emits := h.emits

theorem Sound.catchUnwind {ctx : LoopContext} (h : r.Sound tick ctx) :
    r.catchUnwind.Sound tick ctx := by
  unfold StageReply.catchUnwind
  split
  · refine ⟨h.keeps, ?_⟩
    intro e he
    apply h.emits e
    simpa [StageReply.events, LoopStageResult.events] using Or.inl he
  · exact h

theorem Sound.ifNoop {ctx : LoopContext} {next : LoopContext → StageReply} (h : r.Sound tick ctx)
    (hnext : ∀ c, (next c).Sound tick c) : (r.ifNoop next).Sound tick ctx := by
  unfold StageReply.ifNoop
  split
  · refine ⟨(hnext _).keeps.after h.keeps, ?_⟩
    intro e he
    simp only [StageReply.events, List.append_assoc, List.mem_append] at he
    rcases he with he | he
    · exact h.emits e (List.mem_append_left _ he)
    · exact (hnext _).emits e (by simpa [StageReply.events] using he)
  · exact h

end StageReply

theorem Observe.executeInner_sound :
    (Observe.executeInner H W ctx).Sound ctx.currentTick ctx := by
  unfold Observe.executeInner
  split
  · exact StageReply.sound_ok (.refl ctx) (by simp [LoopStageResult.events])
  · simp only
    split
    · exact StageReply.sound_panic ⟨rfl, rfl, rfl, rfl, rfl, rfl⟩
    · refine StageReply.sound_ok ⟨rfl, rfl, rfl, rfl, rfl, rfl⟩ ?_
      simp [LoopStageResult.events, MayEmit, Observe.observationOf]

theorem Verify.execute_sound (selected : RouteSelected) (ctx : LoopContext) :
    (Verify.execute H W selected ctx).Sound tick ctx := by
  unfold Verify.execute
  simp only
  split
  · exact ⟨⟨rfl, rfl, rfl, rfl, rfl, rfl⟩, by simp [StageReply.events]⟩
  · split
    · exact StageReply.sound_panic ⟨rfl, rfl, rfl, rfl, rfl, rfl⟩
    · refine StageReply.sound_ok ⟨rfl, rfl, rfl, rfl, rfl, rfl⟩ ?_
      simp [LoopStageResult.events, MayEmit]

/-! ### Reward and decompose -/

theorem Reward.settleStagnation_keeps (semantics : Reward.RewardSemantics) :
    StageKeeps ctx (Reward.settleStagnation ctx semantics) := by
  unfold Reward.settleStagnation
  split
  · exact ⟨rfl, rfl, rfl, rfl, rfl, rfl⟩
  · exact ⟨rfl, rfl, rfl, rfl, rfl, rfl⟩

theorem Reward.execute_sound (verified : LoopVerified) (ctx : LoopContext) :
    (Reward.execute verified ctx).Sound tick ctx := by
  unfold Reward.execute
  simp only
  split
  · exact StageReply.sound_panic ⟨rfl, rfl, rfl, rfl, rfl, rfl⟩
  · refine StageReply.sound_ok ((Reward.settleStagnation_keeps _ _).after
      ⟨rfl, rfl, rfl, rfl, rfl, rfl⟩) ?_
    simp [LoopStageResult.events, MayEmit]

theorem Reward.executeFromPolicy_sound (policy : VerifierPolicyUpdated) (ctx : LoopContext) :
    (Reward.executeFromPolicy policy ctx).Sound tick ctx := by
  unfold Reward.executeFromPolicy
  split
  · exact StageReply.sound_panic (.refl ctx)
  · simp only
    split
    · exact StageReply.sound_panic ⟨rfl, rfl, rfl, rfl, rfl, rfl⟩
    · refine StageReply.sound_ok ((Reward.settleStagnation_keeps _ _).after
        ⟨rfl, rfl, rfl, rfl, rfl, rfl⟩) ?_
      simp [LoopStageResult.events, MayEmit]

theorem Reward.executeConclude_sound :
    (Reward.executeConclude ctx).Sound tick ctx :=
  StageReply.sound_ok (.refl ctx) (by simp [LoopStageResult.events, MayEmit])

theorem Decompose.execute_sound :
    (Decompose.execute H ctx).Sound tick ctx := by
  unfold Decompose.execute
  split
  · exact StageReply.sound_noop ctx
  · split
    · exact StageReply.sound_noop ctx
    · refine ⟨⟨rfl, rfl, rfl, rfl, rfl, rfl⟩, ?_⟩
      simp [StageReply.events, LoopStageResult.events, MayEmit]

theorem Decompose.taskEvents_mayEmit {tasks : List Decompose.ParsedTask} {tick : Nat} :
    ∀ e ∈ tasks.flatMap Decompose.taskEvents, MayEmit tick e := by
  intro e he
  obtain ⟨task, -, he⟩ := List.mem_flatMap.mp he
  unfold Decompose.taskEvents at he
  rcases List.mem_cons.mp he with rfl | he
  · trivial
  · obtain ⟨dep, -, rfl⟩ := List.mem_map.mp he
    trivial

theorem Decompose.executeComplete_sound (ctx : LoopContext) :
    (Decompose.executeComplete H c ctx).Sound tick ctx := by
  unfold Decompose.executeComplete
  split
  · exact StageReply.sound_noop ctx
  · simp only
    split
    · exact StageReply.sound_panic ⟨rfl, rfl, rfl, rfl, rfl, rfl⟩
    · split
      · exact (StageReply.sound_noop _).after ⟨rfl, rfl, rfl, rfl, rfl, rfl⟩
      · exact StageReply.sound_ok ⟨rfl, rfl, rfl, rfl, rfl, rfl⟩
          Decompose.taskEvents_mayEmit

/-! ### Plan -/

namespace Plan

theorem rejectionEvents_mayEmit (pending : PendingPlan) (n : Nat) (policy : RetryPolicy)
    (message : Text) (tick : Nat) :
    ∀ e ∈ rejectionEvents W pending n policy message, MayEmit tick e := by
  intro e he
  simp only [rejectionEvents, completedOf, List.mem_append, List.mem_cons, List.mem_map,
    Option.mem_toList, Option.map_eq_some_iff, List.not_mem_nil, or_false] at he
  rcases he with ((rfl | ⟨_, -, rfl⟩) | ⟨_, -, rfl⟩) | rfl | rfl | rfl <;> trivial

theorem submitBatch_sound (pending : PendingPlan) (planned : List LoopPlanned) (tick : Nat) :
    StageKeeps ctx (submitBatch H W ctx pending planned).1 ∧
      ∀ e ∈ (submitBatch H W ctx pending planned).2.events, MayEmit tick e := by
  unfold submitBatch
  simp only
  split
  · exact ⟨⟨rfl, rfl, rfl, rfl, rfl, rfl⟩, rejectionEvents_mayEmit _ _ _ _ _ _⟩
  · split
    · exact ⟨⟨rfl, rfl, rfl, rfl, rfl, rfl⟩, by simp [LoopStageResult.events]⟩
    · refine ⟨⟨rfl, rfl, rfl, rfl, rfl, rfl⟩, ?_⟩
      intro e he
      simp only [LoopStageResult.events, List.mem_append, List.mem_map, List.mem_singleton] at he
      rcases he with ⟨_, -, rfl⟩ | rfl <;> trivial

theorem settleAnswer_sound (ctx : LoopContext) (pending : PendingPlan) (tick : Nat) :
    StageKeeps ctx (settleAnswer H W c ctx pending).1 ∧
      ∀ e ∈ (settleAnswer H W c ctx pending).2.events, MayEmit tick e := by
  unfold settleAnswer
  simp only
  split
  · refine ⟨⟨rfl, rfl, rfl, rfl, rfl, rfl⟩, ?_⟩
    simp [LoopStageResult.events, MayEmit, completedOf]
  · split
    · exact ⟨⟨rfl, rfl, rfl, rfl, rfl, rfl⟩, by simp [LoopStageResult.events]⟩
    · obtain ⟨hkeeps, hemits⟩ := submitBatch_sound H W
        { ctx with
          drawn := _
          lastDoneGoal := _ } pending _ tick
      exact ⟨hkeeps.after ⟨rfl, rfl, rfl, rfl, rfl, rfl⟩, hemits⟩

theorem executeComplete_sound (ctx : LoopContext) : (executeComplete H W c ctx).Sound tick ctx := by
  unfold executeComplete
  split
  · exact StageReply.sound_ok (.refl ctx) (by simp [LoopStageResult.events, MayEmit])
  · rename_i pending _
    split
    · exact StageReply.sound_noop ctx
    · obtain ⟨hkeeps, hemits⟩ := settleAnswer_sound H W c
        { ctx with pendingPlan := none, drawn := ctx.drawn + 1 } pending tick
      refine ⟨hkeeps.after ⟨rfl, rfl, rfl, rfl, rfl, rfl⟩, ?_⟩
      intro e he
      rcases List.mem_append.mp he with he | he
      · rw [List.mem_singleton] at he
        subst he
        trivial
      · exact hemits e he

theorem executeFailed_sound (f : CapabilityFailed) (ctx : LoopContext) :
    (executeFailed H f ctx).Sound tick ctx := by
  unfold executeFailed
  split
  · exact StageReply.sound_noop ctx
  · split
    · exact StageReply.sound_noop ctx
    · refine ⟨⟨rfl, rfl, rfl, rfl, rfl, rfl⟩, ?_⟩
      simp [StageReply.events, LoopStageResult.events, MayEmit, planToolResult, completedOf]

theorem sendPrompt_sound (observed : LoopObserved) (summary : SemanticStateSummary)
    (selected : RouteSelected) :
    (sendPrompt H W ctx observed summary selected).Sound tick ctx := by
  unfold sendPrompt
  simp only
  split
  · exact StageReply.sound_panic (.refl ctx)
  · split
    · exact StageReply.sound_noop ctx
    · refine ⟨⟨rfl, rfl, rfl, rfl, rfl, rfl⟩, ?_⟩
      simp [StageReply.events, LoopStageResult.events, MayEmit, requestEvents]

theorem handleObserved_sound (observed : LoopObserved) (selected : RouteSelected) :
    (handleObserved H W ctx observed selected).Sound tick ctx := by
  unfold handleObserved
  split
  · exact StageReply.sound_noop ctx
  · split
    · exact StageReply.sound_ok (.refl ctx) (by simp [LoopStageResult.events, MayEmit])
    · simp only
      split
      · exact StageReply.sound_noop ctx
      · split
        · exact StageReply.sound_noop ctx
        · split
          · exact StageReply.sound_ok (.refl ctx)
              (by simp [LoopStageResult.events, MayEmit, completedOf])
          · exact (sendPrompt_sound H W _ observed _ selected).after
              ⟨rfl, rfl, rfl, rfl, rfl, rfl⟩

theorem deterministicBootstrapPlan_sound {H : Host} {W : World} {selected : RouteSelected}
    {ctx : LoopContext} {observed : LoopObserved}
    (h : deterministicBootstrapPlan H W selected ctx observed = some r) : r.Sound tick ctx := by
  unfold deterministicBootstrapPlan at h
  simp only at h
  split at h
  · cases h
  · obtain ⟨targetRoot, -, h⟩ := Option.bind_eq_some_iff.mp h
    obtain ⟨⟨cmd, cwd, reason⟩, -, rfl⟩ := Option.map_eq_some_iff.mp h
    exact StageReply.sound_ok ⟨rfl, rfl, rfl, rfl, rfl, rfl⟩
      (by simp [LoopStageResult.events, MayEmit])

theorem executeTrigger_sound (selected : RouteSelected) (ctx : LoopContext) :
    (executeTrigger H W selected ctx).Sound tick ctx := by
  unfold executeTrigger
  split
  · exact StageReply.sound_ok ⟨rfl, rfl, rfl, rfl, rfl, rfl⟩
      (by simp [LoopStageResult.events, MayEmit, completedOf])
  · split
    · exact StageReply.sound_noop ctx
    · split
      · rename_i h
        exact deterministicBootstrapPlan_sound h
      · exact handleObserved_sound H W ctx _ selected

end Plan

/-! ### Act -/

namespace Act

theorem emitActed_mayEmit (pending : PendingAct) (stdout stderr : Text) (exitCode : Option Int)
    (durationMs : Nat) (success : Bool) (resultId : Option Text) (spanId : Text) (tick : Nat) :
    MayEmit tick (emitActed pending stdout stderr exitCode durationMs success resultId spanId) := by
  unfold emitActed
  split <;> trivial

theorem emitConflict_sound (agent action path : Text) :
    (emitConflict H ctx agent action path).Sound tick ctx := by
  unfold emitConflict
  split
  · exact StageReply.sound_panic (.refl ctx)
  · exact StageReply.sound_ok (.refl ctx) (by simp [LoopStageResult.events, MayEmit, debugOf])

theorem missingArgs_sound (reason : Text) :
    (StageReply.ok ctx (.emit (emitMissingArgs reason))).Sound tick ctx :=
  StageReply.sound_ok (.refl ctx)
    (by simp [LoopStageResult.events, MayEmit, emitMissingArgs, debugOf])

theorem sendOut_sound (toolKind : Text) (payload : Json) {before : List RuntimeEvent}
    {call : Text → RuntimeEvent} (hbefore : ∀ e ∈ before, MayEmit tick e)
    (hcall : ∀ requestId, MayEmit tick (call requestId)) :
    (sendOut H ctx planned toolKind payload before call).Sound tick ctx := by
  unfold sendOut
  refine StageReply.sound_ok ⟨rfl, rfl, rfl, rfl, rfl, rfl⟩ ?_
  intro e he
  rcases List.mem_append.mp he with he | he
  · exact hbefore e he
  · simp only [List.mem_cons, List.not_mem_nil, or_false] at he
    rcases he with rfl | rfl | rfl | rfl
    · trivial
    · trivial
    · trivial
    · exact hcall _

theorem runCommand_sound (cmd : Text) (cwd : FilePath) {before : List RuntimeEvent}
    (hbefore : ∀ e ∈ before, MayEmit tick e) :
    (runCommand H ctx planned cmd cwd before).Sound tick ctx := by
  have hsent : (sendOut H ctx planned "bash" (.obj [("cmd", jsonText cmd), ("cwd", jsonText cwd)])
      before fun requestId =>
        .bash { requestId := requestId, cmd := cmd, cwd := some cwd, queued := true }).Sound tick
          ctx :=
    sendOut_sound H ctx planned _ _ hbefore (by intro _; trivial)
  unfold runCommand
  simp only
  split
  · exact hsent
  · split
    · exact StageReply.sound_panic (.refl ctx)
    · refine ⟨hsent.keeps, ?_⟩
      intro e he
      rcases List.mem_append.mp he with he | he
      · rw [List.mem_singleton] at he
        subst he
        trivial
      · exact hsent.emits e (List.mem_append_right _ he)
    · exact hsent

theorem dispatchCommand_sound :
    (dispatchCommand H W ctx planned).Sound tick ctx := by
  unfold dispatchCommand
  simp only
  split
  · exact StageReply.sound_ok (.refl ctx) (by simp [LoopStageResult.events, MayEmit])
  · split
    · exact runCommand_sound H ctx planned _ _ (by simp)
    · exact StageReply.sound_panic (.refl ctx)
    · split
      · exact runCommand_sound H ctx planned _ _ (by simp [MayEmit, debugOf])
      · exact StageReply.sound_panic (.refl ctx)

theorem dispatchWrite_sound :
    (dispatchWrite H ctx planned).Sound tick ctx := by
  unfold dispatchWrite
  split
  · simp only
    split
    · exact emitConflict_sound H ctx _ _ _
    · exact (sendOut_sound H _ planned _ _ (by simp) (by intro _; trivial)).after
        ⟨rfl, rfl, rfl, rfl, rfl, rfl⟩
  · exact missingArgs_sound ctx _

theorem dispatchPatchFile_sound :
    (dispatchPatchFile H ctx planned).Sound tick ctx := by
  unfold dispatchPatchFile
  split
  · exact sendOut_sound H ctx planned _ _ (by simp) (by intro _; trivial)
  · exact missingArgs_sound ctx _

theorem doneAtOnce_sound (kind : Text) (output : List (String × Json)) (stdout stderr : Text)
    (success : Bool) {after : List RuntimeEvent} (hafter : ∀ e ∈ after, MayEmit tick e) :
    (doneAtOnce H W ctx planned kind output stdout stderr success after).Sound tick ctx := by
  unfold doneAtOnce
  refine StageReply.sound_ok ⟨rfl, rfl, rfl, rfl, rfl, rfl⟩ ?_
  intro e he
  rcases List.mem_append.mp he with he | he
  · simp only [List.mem_cons, List.not_mem_nil, or_false] at he
    rcases he with rfl | rfl
    · trivial
    · exact emitActed_mayEmit _ _ _ _ _ _ _ _ _
  · exact hafter e he

theorem dispatchApplyPatch_sound : (dispatchApplyPatch H W ctx planned).Sound tick ctx := by
  unfold dispatchApplyPatch
  split
  · exact missingArgs_sound ctx _
  · simp only
    split
    · exact (emitConflict_sound H _ _ _ _).after ⟨rfl, rfl, rfl, rfl, rfl, rfl⟩
    · exact (doneAtOnce_sound H W _ planned _ _ _ _ _ (by simp)).after
        ⟨rfl, rfl, rfl, rfl, rfl, rfl⟩

theorem proofEvents_mayEmit (project : FilePath) (proof : GraphProofOutcome) (tick : Nat) :
    ∀ e ∈ proofEvents planned project proof, MayEmit tick e := by
  intro e he
  unfold proofEvents at he
  rcases List.mem_cons.mp he with rfl | he
  · trivial
  · split at he
    · cases he
    · rw [List.mem_singleton] at he
      subst he
      trivial

theorem editAtOnce_sound (line : Text) (named proved : Bool) (fields : List (String × Json)) :
    (editAtOnce H W ctx planned line named proved fields).Sound tick ctx := by
  unfold editAtOnce
  apply doneAtOnce_sound H W ctx planned _ _ _ _ _
  intro e he
  split at he
  · exact proofEvents_mayEmit _ _ _ _ e he
  · cases he

theorem dispatchEdit_sound :
    (dispatchEdit H W ctx planned).Sound tick ctx := by
  unfold dispatchEdit
  simp only
  split <;> split
  all_goals first
    | exact editAtOnce_sound H W ctx planned _ _ _ _
    | exact missingArgs_sound ctx _

theorem dispatchRead_sound :
    (dispatchRead H W ctx planned).Sound tick ctx := by
  unfold dispatchRead
  split
  · exact missingArgs_sound ctx _
  · simp only
    split
    · exact doneAtOnce_sound H W ctx planned _ _ _ _ _ (by simp)
    · split
      · exact StageReply.sound_panic (.refl ctx)
      · exact doneAtOnce_sound H W ctx planned _ _ _ _ _ (by simp)

theorem dispatchList_sound :
    (dispatchList H W ctx planned).Sound tick ctx := by
  unfold dispatchList
  exact doneAtOnce_sound H W ctx planned _ _ _ _ _ (by simp)

theorem dispatchPlan_sound :
    (dispatchPlan H W ctx planned).Sound tick ctx := by
  unfold dispatchPlan
  split
  case h_1 | h_2 =>
    apply StageReply.sound_ok (.refl ctx)
    simp [LoopStageResult.events, MayEmit, emitActed, debugOf]
  case h_3 => exact dispatchCommand_sound H W ctx planned
  case h_4 => exact dispatchWrite_sound H ctx planned
  case h_5 => exact dispatchPatchFile_sound H ctx planned
  case h_6 => exact dispatchApplyPatch_sound H W ctx planned
  case h_7 | h_8 | h_9 | h_10 | h_11 => exact dispatchEdit_sound H W ctx planned
  case h_12 => exact dispatchRead_sound H W ctx planned
  case h_13 => exact dispatchList_sound H W ctx planned
  case h_14 | h_15 => exact missingArgs_sound ctx _

theorem actStall_mayEmit (tick : Nat) : ∀ e ∈ actStall ctx, MayEmit tick e := by
  intro e he
  unfold actStall at he
  split at he
  · rw [List.mem_singleton] at he
    subst he
    trivial
  · cases he

theorem executeDispatch_sound :
    (executeDispatch H W ctx).Sound tick ctx := by
  unfold executeDispatch
  split
  · refine ⟨⟨rfl, rfl, rfl, rfl, rfl, rfl⟩, ?_⟩
    intro e he
    rcases List.mem_append.mp he with he | he
    · exact actStall_mayEmit _ _ e he
    · simp only [LoopStageResult.events, List.mem_singleton] at he
      subst he
      trivial
  · rename_i task scheduler _
    have hplan : (dispatchPlan H W
        { ctx with scheduler := scheduler, activeBatchLlmRequestId := task.plan.llmRequestId }
        task.plan).Sound tick ctx :=
      (dispatchPlan_sound H W _ task.plan).after ⟨rfl, rfl, rfl, rfl, rfl, rfl⟩
    have hstall := actStall_mayEmit ctx tick
    simp only
    split
    · rename_i result houtcome
      have hobserve := (Observe.executeInner_sound H W (dispatchPlan H W
        { ctx with scheduler := scheduler, activeBatchLlmRequestId := task.plan.llmRequestId }
        task.plan).ctx).keeps.after hplan.keeps
      have hemits := hplan.emits
      simp only [StageReply.events, houtcome] at hemits
      split
      all_goals
        refine ⟨hobserve, ?_⟩
        intro e he
        simp only [StageReply.events, List.append_nil, List.mem_append] at he hemits
      · exact he.elim (hstall e) fun he => hemits e (.inl he)
      · exact he.elim (hstall e) fun he => hemits e (.inl he)
      · rcases he with (he | he) | he
        · exact hstall e he
        · exact hemits e (.inl he)
        · exact hemits e (.inr he)
    · refine ⟨hplan.keeps, ?_⟩
      intro e he
      have hemits := hplan.emits
      simp only [StageReply.events, List.append_assoc, List.mem_append] at he hemits
      rcases he with he | he
      · exact hstall e he
      · exact hemits e he

theorem executeComplete_sound (ctx : LoopContext) : (executeComplete H W c ctx).Sound tick ctx := by
  unfold executeComplete
  simp only
  split
  · refine ⟨.refl ctx, ?_⟩
    simp [StageReply.events, LoopStageResult.events, MayEmit, debugOf, violation]
  · split
    · refine ⟨.refl ctx, ?_⟩
      simp [StageReply.events, LoopStageResult.events, MayEmit, debugOf, violation]
    · refine ⟨⟨rfl, rfl, rfl, rfl, rfl, rfl⟩, ?_⟩
      intro e he
      simp only [StageReply.events, LoopStageResult.events, List.cons_append, List.nil_append,
        List.mem_cons, List.not_mem_nil, or_false] at he
      rcases he with rfl | rfl
      · trivial
      · split
        · exact emitActed_mayEmit _ _ _ _ _ _ _ _ _
        · trivial

theorem abortActiveBatch_keeps :
    StageKeeps ctx (abortActiveBatch ctx).1 ∧
      ∀ e ∈ (abortActiveBatch ctx).2, ∃ reason, e = emitMissingArgs reason := by
  unfold abortActiveBatch
  split
  · exact ⟨.refl ctx, by simp⟩
  · refine ⟨⟨rfl, rfl, rfl, rfl, rfl, rfl⟩, ?_⟩
    intro e he
    obtain ⟨_, -, rfl⟩ := List.mem_map.mp he
    exact ⟨_, rfl⟩

theorem executeFailed_sound (f : CapabilityFailed) (ctx : LoopContext) :
    (executeFailed H W f ctx).Sound tick ctx := by
  unfold executeFailed
  split
  · exact StageReply.sound_ok (.refl ctx)
      (by simp [LoopStageResult.events, MayEmit, violation, debugOf])
  · rename_i pending _
    split
    · exact StageReply.sound_ok (.refl ctx)
        (by simp [LoopStageResult.events, MayEmit, violation, debugOf])
    · simp only
      split
      · exact StageReply.sound_panic ⟨rfl, rfl, rfl, rfl, rfl, rfl⟩
      · obtain ⟨hkeeps, habort⟩ := abortActiveBatch_keeps
          { ctx with pendingAct := none, drawn := ctx.drawn + 2 }
        refine StageReply.sound_ok ?_ ?_
        · split
          · exact hkeeps.after ⟨rfl, rfl, rfl, rfl, rfl, rfl⟩
          · exact ⟨rfl, rfl, rfl, rfl, rfl, rfl⟩
        · intro e he
          simp only [LoopStageResult.events, List.cons_append, List.mem_cons, List.mem_append] at he
          rcases he with rfl | he | he
          · trivial
          · split at he
            · cases he
            · rw [List.mem_singleton] at he
              subst he
              exact emitActed_mayEmit _ _ _ _ _ _ _ _ _
          · split at he
            · obtain ⟨_, rfl⟩ := habort e he
              trivial
            · cases he

end Act

theorem dispatchCapabilityDone_sound (ctx : LoopContext) :
    (dispatchCapabilityDone H W c ctx).Sound tick ctx := by
  have hreply : StageReply.Sound tick ctx _ :=
    (Decompose.executeComplete_sound H c ctx).ifNoop fun ctx =>
      (Plan.executeComplete_sound H W c ctx).catchUnwind.ifNoop fun ctx =>
        (Act.executeComplete_sound H W c ctx).catchUnwind
  refine ⟨hreply.keeps, ?_⟩
  intro e he
  rcases List.mem_cons.mp he with rfl | he
  · trivial
  · exact hreply.emits e he

theorem dispatchCapabilityFail_sound (f : CapabilityFailed) (ctx : LoopContext) :
    (dispatchCapabilityFail H W f ctx).Sound tick ctx :=
  (Plan.executeFailed_sound H f ctx).catchUnwind.ifNoop fun ctx =>
    (Act.executeFailed_sound H W f ctx).catchUnwind

/-- Only a scan observes. -/
theorem LoopStageEvent.execute_sound (stageEvent : LoopStageEvent)
    (hscan : stageEvent = .scan → tick = ctx.currentTick) :
    (stageEvent.execute H W ctx).Sound tick ctx := by
  cases stageEvent with
  | scan =>
    rw [hscan rfl]
    exact Observe.executeInner_sound H W ctx
  | planTrigger selected => exact Plan.executeTrigger_sound H W selected ctx
  | actDispatch => exact Act.executeDispatch_sound H W ctx
  | verifyTrigger selected => exact Verify.execute_sound H W selected ctx
  | decompose => exact Decompose.execute_sound H ctx
  | conclude => exact Reward.executeConclude_sound ctx
  | capabilityDone c => exact dispatchCapabilityDone_sound H W c ctx
  | capabilityFail f => exact dispatchCapabilityFail_sound H W f ctx
  | rewardPolicy policy => exact Reward.executeFromPolicy_sound policy ctx

end Stages

/-! ### The parts around the handler -/

/-- A part of the handling that keeps to what stages may do. -/
structure Handled.Sound (tick : Nat) (ctx : LoopContext) (h : Handled) : Prop where
  keeps : StageKeeps ctx h.ctx
  emits : ∀ e ∈ h.emitted, MayEmit tick e

section Parts

variable {tick : Nat}

namespace Handled

@[simp] theorem only_ctx : (Handled.only ctx).ctx = ctx := rfl

@[simp] theorem only_emitted : (Handled.only ctx).emitted = [] := rfl

@[simp] theorem only_ran : (Handled.only ctx).ran = [] := rfl

@[simp] theorem only_panicked : (Handled.only ctx).panicked = false := rfl

@[simp] theorem only_andThen (next : LoopContext → Handled) :
    (Handled.only ctx).andThen next = next ctx := by
  simp [andThen, only]

theorem sound_only {ctx after : LoopContext} (hkeeps : StageKeeps ctx after) :
    (Handled.only after).Sound tick ctx :=
  ⟨hkeeps, by simp⟩

theorem Sound.andThen {ctx : LoopContext} {a : Handled} {next : LoopContext → Handled}
    (ha : a.Sound tick ctx) (hnext : ∀ c, StageKeeps ctx c → (next c).Sound tick c) :
    (a.andThen next).Sound tick ctx := by
  have hb := hnext a.ctx ha.keeps
  unfold Handled.andThen
  split
  · exact ha
  · refine ⟨hb.keeps.after ha.keeps, ?_⟩
    intro e he
    rcases List.mem_append.mp he with he | he
    · exact ha.emits e he
    · exact hb.emits e he

end Handled

/-- A stage as a part of the handling. -/
theorem ofStageReply_sound (stage : Stage) {ctx : LoopContext} (h : r.Sound tick ctx) :
    (ofStageReply H event stage r).Sound tick ctx := by
  have hemits := h.emits
  unfold StageReply.events at hemits
  unfold ofStageReply
  split
  case h_1 result hr =>
    refine ⟨h.keeps, ?_⟩
    simpa [hr] using hemits
  case h_2 message hr =>
    refine ⟨h.keeps, ?_⟩
    intro e he
    rcases List.mem_append.mp he with he | he
    · exact hemits e (List.mem_append_left _ he)
    · rw [List.mem_singleton] at he
      subst he
      trivial
  case h_3 hr =>
    refine ⟨h.keeps, ?_⟩
    intro e he
    exact hemits e (List.mem_append_left _ he)

theorem emitDebug_sound (kind reason : Text) (payload : Json) :
    (emitDebug H ctx kind reason payload).Sound tick ctx := by
  unfold emitDebug
  simp only
  split
  · exact Handled.sound_only (.refl ctx)
  · exact ⟨⟨rfl, rfl, rfl, rfl, rfl, rfl⟩, by simp [MayEmit]⟩

@[simp] theorem emitDebug_panicked (kind reason : Text) (payload : Json) :
    (emitDebug H ctx kind reason payload).panicked = false := by
  unfold emitDebug
  simp only
  split <;> rfl

/-- Ticks and routes: on these the loop may observe. -/
def isRouting : RuntimeEvent → Bool
  | .routeTick _ | .routeSelected _ => true
  | _ => false

theorem ObserveExecutionMode.routing_of_allows {mode : ObserveExecutionMode} {event : RuntimeEvent}
    (h : mode.allows event = some true) : isRouting event = true := by
  cases mode <;> cases event <;> first | rfl | cases h

theorem LoopStageEvent.routing_of_scan {event : RuntimeEvent} (h : tryFrom event = some .scan) :
    isRouting event = true := by
  cases event <;> first | rfl | cases h

theorem executeObserveMode_sound (mode : ObserveExecutionMode)
    (hnow : isRouting event = true → tick = ctx.currentTick) :
    (executeObserveMode H W ctx event mode).Sound tick ctx := by
  unfold executeObserveMode
  split
  · exact Handled.sound_only (.refl ctx)
  · split
    · exact ⟨.refl ctx, by simp⟩
    · exact Handled.sound_only (.refl ctx)
    · rename_i hallows
      rw [hnow (ObserveExecutionMode.routing_of_allows hallows)]
      obtain ⟨hkeeps, hemits⟩ := Observe.executeInner_sound H W ctx
      unfold StageReply.events at hemits
      simp only
      split
      · rename_i result houtcome
        refine ⟨⟨hkeeps.workspace, hkeeps.lastObserved, hkeeps.lastRouteSelectedTick,
          hkeeps.lastVerified, hkeeps.halted, hkeeps.currentTick⟩, ?_⟩
        simpa [houtcome] using hemits
      · refine ⟨hkeeps, ?_⟩
        intro e he
        exact hemits e (List.mem_append_left _ he)

theorem observeIfAsked_sound (asked : Bool) (hnow : isRouting event = true → tick = ctx.currentTick)
    :
    (observeIfAsked H W ctx event asked).Sound tick ctx := by
  unfold observeIfAsked
  simp only
  split
  · exact executeObserveMode_sound H W ctx event .forced hnow
  · exact Handled.sound_only (.refl ctx)

theorem applyRuntimeEvaluation_sound (forced triggered : Bool)
    (hnow : isRouting event = true → tick = ctx.currentTick) :
    (applyRuntimeEvaluation H W ctx event forced triggered).1.Sound tick ctx := by
  unfold applyRuntimeEvaluation
  simp only
  split
  · exact Handled.sound_only (.refl ctx)
  · unfold handleRuntimeObserveMode
    simp only
    split
    · exact Handled.sound_only (.refl ctx)
    · split
      · exact executeObserveMode_sound H W ctx event _ hnow
      · exact Handled.sound_only (.refl ctx)

theorem executeStageEvent_sound
    (hscan : LoopStageEvent.tryFrom event = some .scan → tick = ctx.currentTick) :
    (executeStageEvent H W ctx event).Sound tick ctx := by
  unfold executeStageEvent
  split
  · exact ⟨.refl ctx, by simp [MayEmit, constraintTrace]⟩
  · split
    · exact Handled.sound_only (.refl ctx)
    · rename_i stageEvent hstage
      refine ofStageReply_sound H _ _ (LoopStageEvent.execute_sound H W ctx stageEvent ?_)
      intro heq
      exact hscan (heq ▸ hstage)

theorem finishEvent_sound (forced triggered : Bool)
    (hnow : isRouting event = true → tick = ctx.currentTick) :
    (finishEvent H W ctx event forced triggered).Sound tick ctx := by
  have hchecked := applyRuntimeEvaluation_sound H W ctx event forced triggered hnow
  unfold finishEvent
  simp only
  split
  · exact hchecked
  · refine hchecked.andThen fun c hkeeps => executeStageEvent_sound H W c event fun hscan => ?_
    rw [hkeeps.currentTick]
    exact hnow (LoopStageEvent.routing_of_scan hscan)

theorem handleRecoveryEvent_sound :
    (handleRecoveryEvent H ctx event).1.Sound tick ctx := by
  unfold handleRecoveryEvent
  split
  · exact Handled.sound_only (.refl ctx)
  · simp only
    split
    · dsimp only
      refine (emitDebug_sound H ctx _ _ _).andThen fun c _ => ?_
      refine (emitDebug_sound H c _ _ _).andThen fun c _ => ?_
      exact ⟨.refl c, by simp [MayEmit, errorEvent]⟩
    · refine (emitDebug_sound H ctx _ _ _).andThen fun c _ => ?_
      unfold executeRewardRecovery
      split
      · exact Handled.sound_only (.refl c)
      · rename_i verified _
        obtain ⟨hkeeps, hemits⟩ := Reward.execute_sound verified c
        unfold StageReply.events at hemits
        simp only
        split
        · rename_i result houtcome
          refine ⟨hkeeps, ?_⟩
          simpa [houtcome] using hemits
        · refine ⟨hkeeps, ?_⟩
          intro e he
          exact hemits e (List.mem_append_left _ he)
    · exact emitDebug_sound H ctx _ _ _
    · exact emitDebug_sound H ctx _ _ _

end Parts

/-! ### Events -/

def tickAfter : RuntimeEvent → Nat → Nat
  | .tick tick, _ | .routeTick tick, _ => tick
  | _, tick => tick

def verifiedAfter : RuntimeEvent → Option LoopVerified → Option LoopVerified
  | .loopVerified verified, _ => some verified
  | _, old => old

/-- A reward that asks for it and a fatal invariant halt the loop; the running mode
    ends this. -/
def haltedAfter : RuntimeEvent → Bool → Bool
  | .loopRewarded rewarded, halted => rewarded.halt || halted
  | .runtimeStateUpdated payload, halted =>
    if boolAt payload "fatal_invariant" then true
    else if (payload.get "runtime_mode").bind Json.asText = some "running" then false
    else halted
  | _, halted => halted

/-- The fields that depend on nothing but the event. -/
structure EventKeeps (event : RuntimeEvent) (a b : LoopContext) : Prop where
  currentTick : b.currentTick = tickAfter event a.currentTick
  lastVerified : b.lastVerified = verifiedAfter event a.lastVerified
  halted : b.halted = haltedAfter event a.halted

theorem EventKeeps.andStage {event : RuntimeEvent} {a b c : LoopContext}
    (h : EventKeeps event a b) (hstage : StageKeeps b c) : EventKeeps event a c where
  currentTick := hstage.currentTick.trans h.currentTick
  lastVerified := hstage.lastVerified.trans h.lastVerified
  halted := hstage.halted.trans h.halted

/-- A part of the handling up to and with the handler of the event. -/
structure Handled.SoundFor (event : RuntimeEvent) (tick : Nat) (ctx : LoopContext) (h : Handled) :
    Prop where
  keeps : EventKeeps event ctx h.ctx
  emits : ∀ e ∈ h.emitted, MayEmit tick e

section Events

variable {tick : Nat}

theorem Handled.SoundFor.andThen {event : RuntimeEvent} {ctx : LoopContext} {a : Handled}
    {next : LoopContext → Handled} (ha : a.SoundFor event tick ctx)
    (hnext : ∀ c, EventKeeps event ctx c → (next c).Sound tick c) :
    (a.andThen next).SoundFor event tick ctx := by
  obtain ⟨hkeeps, hemits⟩ := hnext a.ctx ha.keeps
  unfold Handled.andThen
  split
  · exact ha
  · refine ⟨ha.keeps.andStage hkeeps, ?_⟩
    intro e he
    rcases List.mem_append.mp he with he | he
    · exact ha.emits e he
    · exact hemits e he

/-- A handler that sets the context and then does no more than a stage may. -/
theorem Handled.Sound.soundFor {event : RuntimeEvent} {ctx mid : LoopContext} {h : Handled}
    (hs : h.Sound tick mid) (hmid : EventKeeps event ctx mid) : h.SoundFor event tick ctx where
  keeps := hmid.andStage hs.keeps
  emits := hs.emits

/-- A handler that emits nothing. -/
theorem Handled.soundFor_only {event : RuntimeEvent} {ctx after : LoopContext}
    (hkeeps : EventKeeps event ctx after) : (Handled.only after).SoundFor event tick ctx :=
  ⟨hkeeps, by simp⟩

theorem handleRouteSelected_sound (selected original : RouteSelected)
    (hnow : tick = ctx.currentTick) :
    (handleRouteSelected H W ctx selected).SoundFor (.routeSelected original) tick ctx := by
  unfold handleRouteSelected
  split
  · exact ⟨⟨rfl, rfl, rfl⟩, by simp⟩
  · simp only
    split <;> split
    -- The route is remembered first; then it may observe.
    all_goals first
      | exact Handled.soundFor_only ⟨rfl, rfl, rfl⟩
      | refine Handled.Sound.soundFor (executeObserveMode_sound H W _ _ .triggered ?_)
          ⟨rfl, rfl, rfl⟩
        exact fun _ => hnow

theorem settleActed_keeps (acted : LoopActed) :
    EventKeeps (.loopActed acted) ctx (settleActed ctx acted) := by
  unfold settleActed applyPostActCleanup unblockTasks releasePaths settleIntents
  simp only
  split <;> split
  all_goals first
    | exact ⟨rfl, rfl, rfl⟩
    | (split <;> split <;> exact ⟨rfl, rfl, rfl⟩)

theorem handleLoopActed_sound (acted : LoopActed) :
    (handleLoopActed H ctx acted).SoundFor (.loopActed acted) tick ctx := by
  have hkeeps := settleActed_keeps ctx acted
  unfold handleLoopActed
  simp only
  split
  · exact Handled.soundFor_only hkeeps
  · exact (emitDebug_sound H _ _ _ _).soundFor
      ⟨hkeeps.currentTick, hkeeps.lastVerified, hkeeps.halted⟩

theorem handleLoopRewarded_sound (rewarded : LoopRewarded) :
    (handleLoopRewarded H ctx rewarded).SoundFor (.loopRewarded rewarded) tick ctx := by
  unfold handleLoopRewarded
  split
  · rename_i h
    have hhalt : rewarded.halt = false := by simpa using h
    exact Handled.soundFor_only ⟨rfl, rfl, by simp [haltedAfter, hhalt]⟩
  · rename_i h
    have hhalt : rewarded.halt = true := by simpa using h
    exact (emitDebug_sound H _ _ _ _).soundFor ⟨rfl, rfl, by simp [haltedAfter, hhalt]⟩

theorem updateObserved_keeps (f : SemanticStateSummary → SemanticStateSummary) :
    (updateObserved ctx f).currentTick = ctx.currentTick ∧
      (updateObserved ctx f).lastVerified = ctx.lastVerified ∧
      (updateObserved ctx f).halted = ctx.halted := by
  unfold updateObserved
  split <;> exact ⟨rfl, rfl, rfl⟩

theorem handleLoopPlanned_sound :
    (handleLoopPlanned W ctx planned).SoundFor (.loopPlanned planned) tick ctx := by
  unfold handleLoopPlanned
  cases haction : planned.actionId with
  | none =>
    dsimp only
    split
    · exact Handled.soundFor_only ⟨rfl, rfl, rfl⟩
    · exact ⟨⟨rfl, rfl, rfl⟩, by simp⟩
  | some actionId =>
    dsimp only
    split
    · exact Handled.soundFor_only ⟨rfl, rfl, rfl⟩
    · refine ⟨⟨rfl, rfl, rfl⟩, ?_⟩
      intro e he
      obtain ⟨dep, -, rfl⟩ := List.mem_map.mp he
      trivial

theorem handleSubtaskResult_sound (result : SubTaskResult) :
    (handleSubtaskResult H ctx result).SoundFor (.subTaskResult result) tick ctx := by
  unfold handleSubtaskResult
  simp only
  split <;> exact ⟨⟨rfl, rfl, rfl⟩, by simp⟩

theorem handleRuntimeStateUpdated_keeps (payload : Json) :
    EventKeeps (.runtimeStateUpdated payload) ctx (handleRuntimeStateUpdated ctx payload) := by
  unfold handleRuntimeStateUpdated
  refine ⟨?_, ?_, ?_⟩
  · split
    · rfl
    · split <;> rfl
  · split
    · rfl
    · split <;> rfl
  · simp only [haltedAfter]
    split
    · rfl
    · split <;> rfl

theorem handleDebug_keeps (debug : DebugEvent) :
    (handleDebug ctx debug).handled.SoundFor (.debug debug) tick ctx := by
  unfold handleDebug
  iterate 5
    split
    · exact Handled.soundFor_only ⟨rfl, rfl, rfl⟩
  exact Handled.soundFor_only ⟨rfl, rfl, rfl⟩

/-- What the handler of an event does to the fields results about runs depend on. -/
theorem handleEvent_sound (hnow : isRouting event = true → tick = tickAfter event ctx.currentTick) :
    (handleEvent H W ctx event).handled.SoundFor event tick ctx := by
  cases event
  case debug debug => exact handleDebug_keeps ctx debug
  case routeSelected selected =>
    simp only [handleEvent]
    split
    · exact Handled.soundFor_only ⟨rfl, rfl, rfl⟩
    · exact handleRouteSelected_sound H W ctx _ selected (hnow rfl)
  case loopActed acted => exact handleLoopActed_sound H ctx acted
  case loopPlanned planned => exact handleLoopPlanned_sound W ctx planned
  case loopRewarded rewarded => exact handleLoopRewarded_sound H ctx rewarded
  case subTaskResult result => exact handleSubtaskResult_sound H ctx result
  case runtimeStateUpdated payload =>
    exact Handled.soundFor_only (handleRuntimeStateUpdated_keeps ctx payload)
  case rustcGraphArtifactWritten written =>
    obtain ⟨htick, hverified, hhalted⟩ := updateObserved_keeps ctx _
    exact Handled.soundFor_only ⟨htick, hverified, hhalted⟩
  case rustcCaptureFailed message =>
    obtain ⟨htick, hverified, hhalted⟩ :=
      updateObserved_keeps ctx (·.applyRustcCaptureFailure message)
    exact Handled.soundFor_only ⟨htick, hverified, hhalted⟩
  case loopObserved observed =>
    apply Handled.soundFor_only
    unfold handleLoopObserved
    split <;> exact ⟨rfl, rfl, rfl⟩
  case loopVerified verified =>
    apply Handled.soundFor_only
    unfold handleLoopVerified
    simp only
    split <;> exact ⟨rfl, rfl, rfl⟩
  case planningCompleted completed =>
    apply Handled.soundFor_only
    unfold handlePlanningCompleted applyPlanningTransitionEffects
    split <;> exact ⟨rfl, rfl, rfl⟩
  case promptLoaded payload =>
    apply Handled.soundFor_only
    unfold handlePromptLoaded
    split <;> exact ⟨rfl, rfl, rfl⟩
  case errorOccurred err =>
    apply Handled.soundFor_only
    unfold handleErrorOccurred
    simp only
    split <;> split <;> exact ⟨rfl, rfl, rfl⟩
  case toolResult result =>
    apply Handled.soundFor_only
    unfold handleToolResult
    split <;> exact ⟨rfl, rfl, rfl⟩
  all_goals exact Handled.soundFor_only ⟨rfl, rfl, rfl⟩

/-! ### The whole handling -/

/-- Everything after the recovery handler. -/
def handleFrom (force : Bool) (ctx : LoopContext) :
    Handled :=
  let reply := handleEvent H W ctx event
  if reply.stop then reply.handled
  else
    reply.handled.andThen fun ctx =>
      (observeIfAsked H W ctx event (reply.triggerObserve || force)).andThen fun ctx =>
        finishEvent H W ctx event force reply.triggerObserve

theorem handleFrom_sound (force : Bool) (ctx : LoopContext)
    (hnow : isRouting event = true → tick = tickAfter event ctx.currentTick) :
    (handleFrom H W event force ctx).SoundFor event tick ctx := by
  have hhandler := handleEvent_sound H W ctx event hnow
  unfold handleFrom
  simp only
  split
  · exact hhandler
  · refine hhandler.andThen fun c hkeeps => ?_
    have hthen : isRouting event = true → tick = c.currentTick := hkeeps.currentTick ▸ hnow
    refine (observeIfAsked_sound H W c event _ hthen).andThen fun c hkeeps => ?_
    exact finishEvent_sound H W c event _ _ (hkeeps.currentTick ▸ hthen)

/-- An event that is no recovery event passes the recovery handler untouched. -/
theorem onEvent_of_not_recovery {event : RuntimeEvent} (h : recoveryExpected event = none)
    (H : Host) (W : World) (ctx : LoopContext) :
    onEvent H W ctx event = handleFrom H W event false ctx := by
  have hforce : forcesObserve event ctx = false := by
    simp [forcesObserve, h]
  have hrecovery : handleRecoveryEvent H ctx event = (.only ctx, false) := by
    simp [handleRecoveryEvent, h]
  unfold onEvent
  simp only [hforce, hrecovery, Handled.only_andThen]
  rfl

/-- When no observation is asked for, only the halt check stands before the stage. -/
theorem finishEvent_unasked :
    finishEvent H W ctx event false false =
      if ctx.halted then .only ctx else executeStageEvent H W ctx event := by
  have hmode : evaluateLoopRuntime ctx.halted false false (suppressesObserveOnInvariant event) =
      .none := by
    simp [evaluateLoopRuntime]
  have hchecked : applyRuntimeEvaluation H W ctx event false false = (.only ctx, ctx.halted) := by
    simp [applyRuntimeEvaluation, handleRuntimeObserveMode, hmode]
  unfold finishEvent
  simp only [hchecked, Handled.only_andThen]

/-- An event whose handler only sets the context. -/
theorem onEvent_of_set {event : RuntimeEvent} (hrecovery : recoveryExpected event = none)
    {H : Host} {W : World} {ctx after : LoopContext}
    (hset : handleEvent H W ctx event = .set after) :
    onEvent H W ctx event =
      if after.halted then .only after else executeStageEvent H W after event := by
  rw [onEvent_of_not_recovery hrecovery, ← finishEvent_unasked]
  unfold handleFrom
  simp [hset, HandlerReply.set, HandlerReply.goOn, observeIfAsked]

/-- Recovery events are traces. -/
theorem debug_of_recovery {event : RuntimeEvent} {expected : Option Text}
    (h : recoveryExpected event = some expected) : ∃ debug, event = .debug debug := by
  unfold recoveryExpected at h
  split at h
  · exact ⟨_, rfl⟩
  · cases h

/-- Only ticks and routes observe, and they observe the tick they leave behind. -/
theorem onEvent_soundAt (hnow : isRouting event = true → tick = tickAfter event ctx.currentTick) :
    (onEvent H W ctx event).SoundFor event tick ctx := by
  cases hexpected : recoveryExpected event with
  | none =>
    rw [onEvent_of_not_recovery hexpected]
    exact handleFrom_sound H W event false ctx hnow
  | some expected =>
    obtain ⟨debug, rfl⟩ := debug_of_recovery hexpected
    have hreceived : Handled.Sound tick ctx _ := handleRecoveryEvent_sound H ctx (.debug debug)
    have hkeeps : EventKeeps (.debug debug) ctx (handleRecoveryEvent H ctx (.debug debug)).1.ctx :=
      ⟨hreceived.keeps.currentTick, hreceived.keeps.lastVerified, hreceived.keeps.halted⟩
    unfold onEvent
    simp only
    split
    · exact ⟨hkeeps, hreceived.emits⟩
    · unfold Handled.andThen
      split
      · exact ⟨hkeeps, hreceived.emits⟩
      · have hfrom : Handled.SoundFor (.debug debug) tick _ _ :=
          handleFrom_sound H W (.debug debug) (forcesObserve (.debug debug) ctx)
            (handleRecoveryEvent H ctx (.debug debug)).1.ctx (by simp [isRouting])
        refine ⟨⟨hfrom.keeps.currentTick.trans hkeeps.currentTick,
          hfrom.keeps.lastVerified.trans hkeeps.lastVerified,
          hfrom.keeps.halted.trans hkeeps.halted⟩, ?_⟩
        intro e he
        rcases List.mem_append.mp he with he | he
        · exact hreceived.emits e he
        · exact hfrom.emits e he

theorem onEvent_sound :
    (onEvent H W ctx event).SoundFor event (tickAfter event ctx.currentTick) ctx :=
  onEvent_soundAt H W ctx event fun _ => rfl

end Events

end Canon.Loop
