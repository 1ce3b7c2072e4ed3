import Canon.Loop.Confinement
import Canon.Loop.Executor

/-! # Accepted plans and the act stage

    The planner's check of a command and the check right before it is run look at
    the same constraints in two different states.  Where the target directory is
    there they agree; where it is missing the planner trusts the observation.  What
    only the act stage looks at (destructive commands, claimed files, the cut of a
    long text) the planner does not see at all.
-/

namespace Canon.Loop

variable (H : Host) (W : World) (ctx : LoopContext) (planned : LoopPlanned)
   (state : ConstraintState)

/-! ### The two states -/

@[simp] theorem evaluateConstraintContext_action (action : ConstraintAction) :
    evaluateConstraintContext ⟨state, none, some action, none⟩ =
      evaluateConstraintAction state action := rfl

/-- The state in which the planner checks the legality of an action. -/
def plannerState (fs : Fs) (targetRoot : FilePath) (summary : SemanticStateSummary) :
    ConstraintState :=
  plannerConstraintState summary (plannerWorkspacePresence fs targetRoot summary).1
    (plannerWorkspacePresence fs targetRoot summary).2 (effectiveActionableFailure summary)

/-- The planner lets an action pass only when the constraints allow it. -/
theorem AcceptedAction.allowed {fs : Fs} {summary : SemanticStateSummary} {targetRoot : FilePath}
    {planned : LoopPlanned} (h : AcceptedAction fs summary targetRoot planned)
    {action : ConstraintAction} (hclass : classifyConstraintActionForPlan planned = some action) :
    evaluateConstraintAction (plannerState fs targetRoot summary) action = .allow := by
  have hpre := h.preconditions
  unfold validatePreconditions at hpre
  rw [firstError_eq_ok_iff] at hpre
  simp only [List.forall_mem_cons] at hpre
  obtain ⟨-, -, -, -, -, -, -, -, -, -, -, -, -, hlegal, -⟩ := hpre
  unfold validateRepairActionLegality at hlegal
  rw [firstError_eq_ok_iff] at hlegal
  have hone := hlegal _ (List.mem_singleton.mpr rfl)
  simp only [hclass, evaluateConstraintContext_action] at hone
  show evaluateConstraintAction (plannerConstraintState summary
    (plannerWorkspacePresence fs targetRoot summary).1
    (plannerWorkspacePresence fs targetRoot summary).2 (effectiveActionableFailure summary))
    action = .allow
  split at hone
  · assumption
  all_goals cases hone

/-- A directory that is there looks the same to both. -/
theorem plannerState_of_exists {fs : Fs} {targetRoot : FilePath} (summary : SemanticStateSummary)
    (h : fs.pathExists targetRoot = true) :
    (plannerState fs targetRoot summary).realPathExists = true ∧
      (plannerState fs targetRoot summary).realCargoProject =
        fs.pathExists (FilePath.join targetRoot "Cargo.toml") := by
  simp [plannerState, plannerConstraintState, plannerWorkspacePresence, h]

/-- The command as it is run: bootstrap commands are adapted to what is there. -/
def executedCommand (fs : Fs) (targetRoot : FilePath) (cmd : Text) : Text :=
  match metaInvariantClassifyBootstrapTool cmd with
  | some .cargoNew =>
    if fs.pathExists targetRoot && !fs.pathExists (FilePath.join targetRoot "Cargo.toml") then
      rewriteCargoNewToInit cmd
    else cmd
  | some .cargoInit =>
    if fs.pathExists targetRoot then cmd else rewriteCargoInitToNew cmd targetRoot
  | none => cmd

/-- The commands that are refused because the target directory is missing: a
    validation, and `cargo new` when there is a manifest all the same (which happens
    only for the empty path). -/
def refusedUnlessThere (fs : Fs) (targetRoot : FilePath) (cmd : Text) : Bool :=
  !fs.pathExists targetRoot &&
    match metaInvariantClassifyBootstrapTool cmd with
    | some .cargoNew => fs.pathExists (FilePath.join targetRoot "Cargo.toml")
    | some .cargoInit => false
    | none => runsValidation cmd

/-- How the check before execution answers. -/
def ExecDecision.Means (fs : Fs) (targetRoot : FilePath) (cmd : Text) : ExecDecision → Prop
  | .allow => refusedUnlessThere fs targetRoot cmd = false ∧ executedCommand fs targetRoot cmd = cmd
  | .forbid _ => refusedUnlessThere fs targetRoot cmd = true
  | .rewrite (.runCommand cmd' _) _ =>
    refusedUnlessThere fs targetRoot cmd = false ∧ executedCommand fs targetRoot cmd = cmd'
  | .rewrite (.other _) _ => False

/-! ### What the constraints allow -/

theorem allowed_cargoInit {state : ConstraintState}
    (h : evaluateConstraintAction state .cargoInit = .allow) :
    state.realPathExists = true ∧ state.realCargoProject = false := by
  simp only [evaluateConstraintAction] at h
  split at h
  · cases h
  · split at h
    · cases h
    · simp_all

theorem allowed_cargoNew {state : ConstraintState}
    (h : evaluateConstraintAction state .cargoNew = .allow) :
    state.realPathExists = false ∧ state.realCargoProject = false := by
  simp only [evaluateConstraintAction] at h
  split at h
  · cases h
  · split at h
    · cases h
    · simp_all

theorem allowed_validation {state : ConstraintState}
    (h : evaluateConstraintAction state .validation = .allow) :
    state.validationBlocked = false ∧ state.entrypointMissing = false ∧
      state.moduleGapsPresent = false := by
  simp only [evaluateConstraintAction] at h
  split at h
  · cases h
  · split at h
    · cases h
    · split at h
      · cases h
      · simp_all

theorem allowed_repairWorkspace {state : ConstraintState}
    (h : evaluateConstraintAction state .repairWorkspace = .allow) :
    state.failureClassNoActionable = false ∧ state.actionableFailure = true ∧
      state.failureScopeLocalized = false := by
  simp only [evaluateConstraintAction] at h
  split at h
  · cases h
  · split at h
    · cases h
    · simp_all

theorem evaluate_cargoNew_there (hthere : state.realPathExists = true)
    (hcargo : state.realCargoProject = false) :
    ∃ reason, evaluateConstraintAction state .cargoNew = .rewriteAction .cargoInit reason := by
  simp only [evaluateConstraintAction, hthere, hcargo, Bool.not_false, Bool.and_self, if_true]
  exact ⟨_, rfl⟩

theorem evaluate_cargoNew_missing (hthere : state.realPathExists = false) :
    if state.realCargoProject then
      ∃ reason, evaluateConstraintAction state .cargoNew = .forbid reason
    else evaluateConstraintAction state .cargoNew = .allow := by
  simp only [evaluateConstraintAction, hthere, Bool.false_and]
  split
  · exact ⟨_, rfl⟩
  · rfl

theorem evaluate_cargoInit_missing (hthere : state.realPathExists = false) :
    ∃ reason, evaluateConstraintAction state .cargoInit = .rewriteAction .cargoNew reason := by
  simp only [evaluateConstraintAction, hthere, Bool.not_false, if_true]
  exact ⟨_, rfl⟩

theorem evaluate_cargoInit_there (hthere : state.realPathExists = true)
    (hcargo : state.realCargoProject = false) :
    evaluateConstraintAction state .cargoInit = .allow := by
  simp only [evaluateConstraintAction, hthere, hcargo, Bool.not_true]
  rfl

/-- With the rest in order a validation depends on the directory. -/
theorem evaluate_validation (hblocked : state.validationBlocked = false)
    (hentry : state.entrypointMissing = false) (hgaps : state.moduleGapsPresent = false) :
    if state.realPathExists then evaluateConstraintAction state .validation = .allow
    else ∃ reason, evaluateConstraintAction state .validation = .forbid reason := by
  simp only [evaluateConstraintAction, hblocked, hentry, hgaps, Bool.or_self]
  cases state.realPathExists
  · exact ⟨_, rfl⟩
  · rfl

theorem evaluate_repairWorkspace (hclass : state.failureClassNoActionable = false)
    (hfailure : state.actionableFailure = true) (hscope : state.failureScopeLocalized = false) :
    evaluateConstraintAction state .repairWorkspace = .allow := by
  simp only [evaluateConstraintAction, hclass, hfailure, hscope, Bool.not_true, Bool.or_self]
  rfl

/-! ### The check before execution -/

/-- The check before execution, by what the constraints decide about the class. -/
theorem validateExecAction_eq {state : ExecState} {cmd : Text} {action : ConstraintAction}
    {decision : ConstraintDecision} (cwd : FilePath)
    (hclass : classifyExecAction (.runCommand cmd cwd) = action)
    (hdecision : evaluateConstraintAction state.constraintState action = decision) :
    validateExecAction state (.runCommand cmd cwd) =
      match decision with
      | .allow => .allow
      | .forbid reason => .forbid reason
      | .rewriteAction .cargoNew reason =>
        .rewrite (.runCommand (rewriteCargoInitToNew cmd state.targetRoot)
          ((FilePath.parent state.targetRoot).getD state.targetRoot)) reason
      | .rewriteAction .cargoInit reason =>
        .rewrite (.runCommand (rewriteCargoNewToInit cmd) state.targetRoot) reason
      | .rewriteAction _ reason => .forbid reason
      | .rewriteRoute _ _ => .allow := by
  simp only [validateExecAction, hclass, evaluateConstraintContext_action, hdecision]
  cases decision with
  | rewriteAction action reason => cases action <;> rfl
  | _ => rfl

section Commands

variable {fs : Fs} {summary : SemanticStateSummary} {targetRoot : FilePath} {planned : LoopPlanned}
  {cmd : Text}

/-- The class the planner gives a command. -/
theorem classify_command (hkind : planned.actionKind = .runCommand)
    (hcmd : planned.field "cmd" = some cmd) :
    classifyConstraintActionForPlan planned = some
      (if Text.contains "cargo init" cmd then .cargoInit
        else if Text.contains "cargo new" cmd then .cargoNew
        else if runsValidation cmd then .validation
        else .repairWorkspace) := by
  unfold classifyConstraintActionForPlan
  rw [hkind, hcmd]
  rfl

/-- `cargo new` (whatever else is in the command): the planner never lets it pass
    where there is a manifest in an existing directory. -/
theorem means_of_cargoNew (h : AcceptedAction fs summary targetRoot planned)
    (hkind : planned.actionKind = .runCommand) (hcmd : planned.field "cmd" = some cmd)
    (htool : metaInvariantClassifyBootstrapTool cmd = some .cargoNew)
    (hnew : Text.contains "cargo new" cmd = true) (cwd : FilePath) :
    (validateExecAction (ExecState.fromSemanticSummary fs targetRoot summary)
      (.runCommand cmd cwd)).Means fs targetRoot cmd := by
  have hclass : classifyExecAction (.runCommand cmd cwd) = .cargoNew := by
    simp only [classifyExecAction, htool]
  have hnone : fs.pathExists targetRoot = true →
      fs.pathExists (FilePath.join targetRoot "Cargo.toml") = false := by
    intro hthere
    obtain ⟨-, hcargo⟩ := plannerState_of_exists summary hthere
    have hallowed := h.allowed (classify_command hkind hcmd)
    split at hallowed
    · rw [← hcargo]
      exact (allowed_cargoInit hallowed).2
    · rw [← hcargo]
      exact (allowed_cargoNew hallowed).2
  cases hthere : fs.pathExists targetRoot with
  | true =>
    obtain ⟨reason, hdecision⟩ := evaluate_cargoNew_there
      (ExecState.fromSemanticSummary fs targetRoot summary).constraintState hthere (hnone hthere)
    rw [validateExecAction_eq cwd hclass hdecision]
    constructor
    · simp only [refusedUnlessThere, hthere, Bool.not_true, Bool.false_and]
    · simp only [executedCommand, htool, hthere, hnone hthere, Bool.not_false, Bool.and_self,
      if_true]
  | false =>
    have hdecision := evaluate_cargoNew_missing
      (ExecState.fromSemanticSummary fs targetRoot summary).constraintState hthere
    split at hdecision
    · rename_i hcargo
      obtain ⟨reason, hdecision⟩ := hdecision
      rw [validateExecAction_eq cwd hclass hdecision]
      show refusedUnlessThere fs targetRoot cmd = true
      simp only [refusedUnlessThere, htool, hthere, Bool.not_false, Bool.true_and]
      exact hcargo
    · rename_i hcargo
      rw [validateExecAction_eq cwd hclass hdecision]
      constructor
      · simp only [refusedUnlessThere, htool, hthere, Bool.not_false, Bool.true_and]
        exact Bool.not_eq_true _ ▸ hcargo
      · simp only [executedCommand, htool, hthere, Bool.false_and]
        rfl

/-- `cargo init` without `cargo new`. -/
theorem means_of_cargoInit (h : AcceptedAction fs summary targetRoot planned)
    (hkind : planned.actionKind = .runCommand) (hcmd : planned.field "cmd" = some cmd)
    (htool : metaInvariantClassifyBootstrapTool cmd = some .cargoInit)
    (hinit : Text.contains "cargo init" cmd = true) (cwd : FilePath) :
    (validateExecAction (ExecState.fromSemanticSummary fs targetRoot summary)
      (.runCommand cmd cwd)).Means fs targetRoot cmd := by
  have hclass : classifyExecAction (.runCommand cmd cwd) = .cargoInit := by
    simp only [classifyExecAction, htool]
  have hallowed := h.allowed (classify_command hkind hcmd)
  rw [if_pos hinit] at hallowed
  cases hthere : fs.pathExists targetRoot with
  | true =>
    have hcargo := (plannerState_of_exists summary hthere).2
    rw [(allowed_cargoInit hallowed).2] at hcargo
    have hdecision := evaluate_cargoInit_there
      (ExecState.fromSemanticSummary fs targetRoot summary).constraintState hthere hcargo.symm
    rw [validateExecAction_eq cwd hclass hdecision]
    constructor
    · simp only [refusedUnlessThere, hthere, Bool.not_true, Bool.false_and]
    · simp only [executedCommand, htool, hthere, if_true]
  | false =>
    obtain ⟨reason, hdecision⟩ := evaluate_cargoInit_missing
      (ExecState.fromSemanticSummary fs targetRoot summary).constraintState hthere
    rw [validateExecAction_eq cwd hclass hdecision]
    constructor
    · simp only [refusedUnlessThere, htool, Bool.and_false]
    · simp only [executedCommand, htool, hthere]
      rfl

/-- A validation needs the directory; everything else the planner has checked. -/
theorem means_of_validation (h : AcceptedAction fs summary targetRoot planned)
    (hkind : planned.actionKind = .runCommand) (hcmd : planned.field "cmd" = some cmd)
    (htool : metaInvariantClassifyBootstrapTool cmd = none)
    (hinit : ¬ Text.contains "cargo init" cmd = true)
    (hnew : ¬ Text.contains "cargo new" cmd = true)
    (hvalidates : runsValidation cmd = true) (cwd : FilePath) :
    (validateExecAction (ExecState.fromSemanticSummary fs targetRoot summary)
      (.runCommand cmd cwd)).Means fs targetRoot cmd := by
  have hclass : classifyExecAction (.runCommand cmd cwd) = .validation := by
    simp only [classifyExecAction, htool, hvalidates, if_true]
  have hallowed := h.allowed (classify_command hkind hcmd)
  rw [if_neg hinit, if_neg hnew, if_pos hvalidates] at hallowed
  obtain ⟨hblocked, hentry, hgaps⟩ := allowed_validation hallowed
  have hentry' :
    (ExecState.fromSemanticSummary fs targetRoot summary).entrypointMissing = false := by
    have : entrypointUnknown summary = false := hentry
    simp only [ExecState.fromSemanticSummary, this, Bool.false_and]
  have hdecision := evaluate_validation
    (ExecState.fromSemanticSummary fs targetRoot summary).constraintState hblocked hentry' hgaps
  have hexecuted : executedCommand fs targetRoot cmd = cmd := by
    simp only [executedCommand, htool]
  split at hdecision
  · rename_i hthere
    have hthere : fs.pathExists targetRoot = true := hthere
    rw [validateExecAction_eq cwd hclass hdecision]
    refine ⟨?_, hexecuted⟩
    simp only [refusedUnlessThere, hthere, Bool.not_true, Bool.false_and]
  · rename_i hthere
    have hthere : fs.pathExists targetRoot = false := Bool.not_eq_true _ ▸ hthere
    obtain ⟨reason, hdecision⟩ := hdecision
    rw [validateExecAction_eq cwd hclass hdecision]
    show refusedUnlessThere fs targetRoot cmd = true
    simp only [refusedUnlessThere, htool, hthere, hvalidates, Bool.not_false, Bool.and_self]

/-- Any other command is a repair of the workspace, and there the two states agree. -/
theorem means_of_repair (h : AcceptedAction fs summary targetRoot planned)
    (hkind : planned.actionKind = .runCommand) (hcmd : planned.field "cmd" = some cmd)
    (htool : metaInvariantClassifyBootstrapTool cmd = none)
    (hinit : ¬ Text.contains "cargo init" cmd = true)
    (hnew : ¬ Text.contains "cargo new" cmd = true)
    (hvalidates : ¬ runsValidation cmd = true) (cwd : FilePath) :
    (validateExecAction (ExecState.fromSemanticSummary fs targetRoot summary)
      (.runCommand cmd cwd)).Means fs targetRoot cmd := by
  have hclass : classifyExecAction (.runCommand cmd cwd) = .repairWorkspace := by
    simp only [classifyExecAction, htool]
    exact if_neg hvalidates
  have hallowed := h.allowed (classify_command hkind hcmd)
  rw [if_neg hinit, if_neg hnew, if_neg hvalidates] at hallowed
  obtain ⟨hnoAction, hfailure, hscope⟩ := allowed_repairWorkspace hallowed
  have hscope : effectiveFailureScopeLocalized summary = false := hscope
  have hfailure : effectiveActionableFailure summary = true := hfailure
  simp only [effectiveFailureScopeLocalized, Bool.or_eq_false_iff] at hscope
  obtain ⟨⟨⟨hlocalized, hgaps⟩, hunknown⟩, htargeted⟩ := hscope
  -- The planner counts an unknown entrypoint as a failure, but as a localized one.
  have hfailure' :
      (ExecState.fromSemanticSummary fs targetRoot summary).actionableFailure = true := by
    simp only [effectiveActionableFailure, hunknown, Bool.or_false] at hfailure
    exact hfailure
  have hscope' :
      (ExecState.fromSemanticSummary fs targetRoot summary).failureScopeLocalized = false := by
    simp only [ExecState.fromSemanticSummary, hlocalized, hgaps, htargeted, Bool.or_self]
  have hdecision := evaluate_repairWorkspace
    (ExecState.fromSemanticSummary fs targetRoot summary).constraintState hnoAction hfailure'
      hscope'
  rw [validateExecAction_eq cwd hclass hdecision]
  constructor
  · simp only [refusedUnlessThere, htool, Bool.not_eq_true _ ▸ hvalidates, Bool.and_false]
  · simp only [executedCommand, htool]

/-- What the check before execution says about a command the planner accepted. -/
theorem means_of_accepted (h : AcceptedAction fs summary targetRoot planned)
    (hkind : planned.actionKind = .runCommand) (hcmd : planned.field "cmd" = some cmd)
    (cwd : FilePath) :
    (validateExecAction (ExecState.fromSemanticSummary fs targetRoot summary)
      (.runCommand cmd cwd)).Means fs targetRoot cmd := by
  by_cases hnew : Text.contains "cargo new" cmd = true
  · have htool : metaInvariantClassifyBootstrapTool cmd = some .cargoNew := if_pos hnew
    exact means_of_cargoNew h hkind hcmd htool hnew cwd
  · by_cases hinit : Text.contains "cargo init" cmd = true
    · have htool : metaInvariantClassifyBootstrapTool cmd = some .cargoInit :=
        (if_neg hnew).trans (if_pos hinit)
      exact means_of_cargoInit h hkind hcmd htool hinit cwd
    · have htool : metaInvariantClassifyBootstrapTool cmd = none :=
        (if_neg hnew).trans (if_neg hinit)
      by_cases hvalidates : runsValidation cmd = true
      · exact means_of_validation h hkind hcmd htool hinit hnew hvalidates cwd
      · exact means_of_repair h hkind hcmd htool hinit hnew hvalidates cwd

end Commands

/-! ### The act stage -/

namespace Act

/-- The stage comes back, with a result or an error. -/
def Returns (r : StageReply) : Prop := r.outcome ≠ .panic

theorem returns_ok (result : LoopStageResult) :
    Returns (.ok ctx result) := by
  unfold Returns StageReply.ok
  simp

theorem not_returns_panic : ¬ Returns (.panic ctx) := by
  unfold Returns StageReply.panic
  simp

theorem returns_sendOut (toolKind : Text) (payload : Json) (before : List RuntimeEvent)
    (call : Text → RuntimeEvent) :
    Returns (sendOut H ctx planned toolKind payload before call) :=
  returns_ok _ _

theorem returns_doneAtOnce (kind : Text) (output : List (String × Json)) (stdout stderr : Text)
    (success : Bool) (after : List RuntimeEvent) :
    Returns (doneAtOnce H W ctx planned kind output stdout stderr success after) :=
  returns_ok _ _

theorem returns_runCommand_iff {ctx : LoopContext} (cmd : Text) (cwd : FilePath)
    (before : List RuntimeEvent) (hpolicy : ctx.destructiveCmdPolicy = .block) :
    Returns (runCommand H ctx planned cmd cwd before) ↔
      isPotentiallyDestructive cmd ctx.workspace = false := by
  unfold runCommand
  simp only [hpolicy]
  split
  · rename_i hharmless
    exact iff_of_true (returns_sendOut H ctx planned _ _ _ _) (by simpa using hharmless)
  · rename_i hharmless
    exact iff_of_false (not_returns_panic ctx) (by simpa using hharmless)

/-- A claimed file is in the way only of builds with debug assertions. -/
theorem returns_emitConflict_iff (agent action path : Text) :
    Returns (emitConflict H ctx agent action path) ↔ H.debugAssertions = false := by
  unfold emitConflict
  split
  · rename_i hassert
    exact iff_of_false (not_returns_panic ctx) (by simp [hassert])
  · rename_i hassert
    exact iff_of_true (returns_ok _ _) (by simpa using hassert)

theorem returns_dispatchWrite_iff :
    Returns (dispatchWrite H ctx planned) ↔
      (H.debugAssertions = true → ∀ path content, planned.field "path" = some path →
        planned.field "content" = some content →
        ∃ tracker, FileWriteTracker.claim ctx.fileWriteTracker (resolveActionPath path ctx)
          orchestrator (actionKey planned) = .ok tracker) := by
  unfold dispatchWrite
  split
  · rename_i path content hpath hcontent
    simp only [hpath, hcontent, Option.some.injEq]
    split
    · rename_i agent action hclaim
      rw [returns_emitConflict_iff]
      constructor
      · intro hassert htrue
        simp [hassert] at htrue
      · intro hall
        by_contra hassert
        obtain ⟨tracker, htracker⟩ := hall (by simpa using hassert) path content rfl rfl
        rw [hclaim] at htracker
        cases htracker
    · rename_i tracker hclaim
      apply iff_of_true (returns_sendOut H _ planned _ _ _ _)
      intro _ path' content' hpath' _
      subst hpath'
      exact ⟨tracker, hclaim⟩
  · rename_i hmissing
    apply iff_of_true (returns_ok _ _)
    intro _ path content hpath hcontent
    exact absurd hcontent (hmissing path content hpath)

theorem returns_dispatchApplyPatch_iff :
    Returns (dispatchApplyPatch H W ctx planned) ↔
      (H.debugAssertions = true → ∀ patch, planned.field "patch" = some patch →
        (claimAll (actionKey planned) ctx.fileWriteTracker
          ((extractPathsFromPatch patch).map (resolveActionPath · ctx))).2 = none) := by
  unfold dispatchApplyPatch
  split
  · rename_i hmissing
    apply iff_of_true (returns_ok _ _)
    intro _ patch hpatch
    rw [hmissing] at hpatch
    cases hpatch
  · rename_i patch hpatch
    simp only [hpatch, Option.some.injEq, forall_eq']
    split
    · rename_i tracker agent action path hclaims
      have hclaims : (claimAll (actionKey planned) ctx.fileWriteTracker
          ((extractPathsFromPatch patch).map (resolveActionPath · ctx))).2 =
            some (agent, action, path) := congrArg Prod.snd hclaims
      rw [returns_emitConflict_iff, hclaims]
      simp
    · rename_i tracker hclaims
      have hclaims : (claimAll (actionKey planned) ctx.fileWriteTracker
          ((extractPathsFromPatch patch).map (resolveActionPath · ctx))).2 = none :=
        congrArg Prod.snd hclaims
      exact iff_of_true (returns_doneAtOnce H W _ planned _ _ _ _ _ _) fun _ => hclaims

theorem returns_dispatchRead_iff :
    Returns (dispatchRead H W ctx planned) ↔
      ∀ path content, planned.field "path" = some path →
        W.fs.readToString (resolveActionPath path ctx) = some content →
        Text.byteLen content ≤ 8000 ∨ (Text.takeBytes? 8000 content).isSome := by
  unfold dispatchRead
  split
  · rename_i hmissing
    apply iff_of_true (returns_ok _ _)
    intro path content hpath
    rw [hmissing] at hpath
    cases hpath
  · rename_i path hpath
    simp only [hpath, Option.some.injEq]
    split
    · rename_i hread
      apply iff_of_true (returns_doneAtOnce H W ctx planned _ _ _ _ _ _)
      intro path' content hpath' hcontent
      subst hpath'
      rw [hread] at hcontent
      cases hcontent
    · rename_i content hread
      have hcut : (cutContent content).isSome ↔
          Text.byteLen content ≤ 8000 ∨ (Text.takeBytes? 8000 content).isSome := by
        unfold cutContent
        split
        · rename_i hlong
          simp [Nat.not_le.mpr hlong]
        · rename_i hlong
          simp [Nat.not_lt.mp hlong]
      have hall : (∀ path' content', path = path' →
          W.fs.readToString (resolveActionPath path' ctx) = some content' →
          Text.byteLen content' ≤ 8000 ∨ (Text.takeBytes? 8000 content').isSome) ↔
            (cutContent content).isSome := by
        rw [hcut]
        constructor
        · intro h
          exact h path content rfl hread
        · intro h path' content' hpath' hcontent'
          subst hpath'
          rw [hread] at hcontent'
          cases hcontent'
          exact h
      rw [hall]
      split
      · rename_i hnone
        exact iff_of_false (not_returns_panic ctx) (by simp [hnone])
      · rename_i text hsome
        exact iff_of_true (returns_doneAtOnce H W ctx planned _ _ _ _ _ _) (by simp [hsome])

theorem returns_dispatchEdit :
    Returns (dispatchEdit H W ctx planned) := by
  unfold dispatchEdit
  simp only
  split <;> split
  all_goals first
    | exact returns_doneAtOnce H W ctx planned _ _ _ _ _ _
    | exact returns_ok _ _

/-- A command survives when it is not refused for a missing directory and not
    destructive. -/
def CommandSafe (fs : Fs) (workspace targetRoot : FilePath) (cmd : Text) : Prop :=
  refusedUnlessThere fs targetRoot cmd = false ∧
    isPotentiallyDestructive (executedCommand fs targetRoot cmd) workspace = false

theorem returns_dispatchCommand_iff {W : World} {ctx : LoopContext} {observed : LoopObserved}
    {targetRoot : FilePath} {planned : LoopPlanned}
    (h : AcceptedAction W.fs observed.semanticSummary targetRoot planned)
    (hkind : planned.actionKind = .runCommand) (hobserved : ctx.lastObserved = some observed)
    (hpolicy : ctx.destructiveCmdPolicy = .block) :
    Returns (dispatchCommand H W ctx planned) ↔
      ∀ cmd, planned.field "cmd" = some cmd → CommandSafe W.fs ctx.workspace targetRoot cmd := by
  unfold dispatchCommand
  simp only
  split
  · rename_i hmissing
    exact iff_of_true (returns_ok _ _) (by simp [hmissing])
  · rename_i cmd hcmd
    have hmeans := means_of_accepted h hkind hcmd ((planned.field "cwd").getD ".")
    simp only [hobserved, Option.map_some, Option.getD_some, h.root, hcmd, Option.some.injEq,
      forall_eq']
    unfold CommandSafe
    split
    · rename_i hallow
      rw [hallow] at hmeans
      obtain ⟨hrefused, hexecuted⟩ := hmeans
      rw [returns_runCommand_iff H planned _ _ _ hpolicy, hexecuted]
      simp [hrefused]
    · rename_i reason hforbid
      rw [hforbid] at hmeans
      have hrefused : refusedUnlessThere W.fs targetRoot cmd = true := hmeans
      exact iff_of_false (not_returns_panic ctx) (by simp [hrefused])
    · rename_i rewritten reason hrewrite
      rw [hrewrite] at hmeans
      split
      · obtain ⟨hrefused, hexecuted⟩ := hmeans
        rw [returns_runCommand_iff H planned _ _ _ hpolicy, hexecuted]
        simp [hrefused]
      · exact hmeans.elim

/-- What an action needs to be dispatched without a panic. -/
def ActSafe (summary : SemanticStateSummary) (planned : LoopPlanned) : Prop :=
  match planned.actionKind with
  | .runCommand => ∀ cmd targetRoot, planned.field "cmd" = some cmd →
      summary.targetRoot = some targetRoot → CommandSafe W.fs ctx.workspace targetRoot cmd
  | .writeFile => H.debugAssertions = true → ∀ path content, planned.field "path" = some path →
      planned.field "content" = some content →
      ∃ tracker, FileWriteTracker.claim ctx.fileWriteTracker (resolveActionPath path ctx)
        orchestrator (actionKey planned) = .ok tracker
  | .applyPatch => H.debugAssertions = true → ∀ patch, planned.field "patch" = some patch →
      (claimAll (actionKey planned) ctx.fileWriteTracker
        ((extractPathsFromPatch patch).map (resolveActionPath · ctx))).2 = none
  | .readFile => ∀ path content, planned.field "path" = some path →
      W.fs.readToString (resolveActionPath path ctx) = some content →
      Text.byteLen content ≤ 8000 ∨ (Text.takeBytes? 8000 content).isSome
  | _ => True

/-- An accepted action is dispatched without a panic exactly when it is safe. -/
theorem dispatch_returns_iff (H : Host) (W : World) {ctx : LoopContext} {observed : LoopObserved}
    {planned : LoopPlanned} {retryPolicy : RetryPolicy} {trend : ObjectiveTrendState}
    {results : List SemanticExecutionResultRecord}
    {forcedObjective : Option DevelopmentObjectiveKind}
    {forcedStrategy : Option DevelopmentStrategyKind}
    (haccept : validateActionBatch W.fs [planned] retryPolicy observed.semanticSummary trend
      results forcedObjective forcedStrategy = .ok ())
    (hobserved : ctx.lastObserved = some observed)
    (hpolicy : ctx.destructiveCmdPolicy = .block) :
    Returns (dispatchPlan H W ctx planned) ↔
      ActSafe H W ctx observed.semanticSummary planned := by
  obtain ⟨action, targetRoot, heq, haction⟩ := acceptedAction_of_accepted haccept
  obtain rfl : planned = action := by simpa using heq
  unfold dispatchPlan ActSafe
  split
  case h_3 hkind =>
    rw [returns_dispatchCommand_iff H haction hkind hobserved hpolicy]
    simp [haction.root, hkind]
  case h_4 hkind => simp only [returns_dispatchWrite_iff, hkind]
  case h_6 hkind => simp only [returns_dispatchApplyPatch_iff, hkind]
  case h_12 hkind => simp only [returns_dispatchRead_iff, hkind]
  case h_5 hkind =>
    simp only [hkind, iff_true]
    unfold dispatchPatchFile
    split
    · exact returns_sendOut H ctx planned _ _ _ _
    · exact returns_ok _ _
  case h_7 hkind | h_8 hkind | h_9 hkind | h_10 hkind | h_11 hkind =>
    simp only [hkind, iff_true]
    exact returns_dispatchEdit H W ctx planned
  all_goals
    rename_i hkind
    simp only [hkind, iff_true]
    exact returns_ok _ _

/-! ### A command the planner accepts -/

/-- The library in `/w` with a failure of the whole workspace. -/
def workspaceFailure : SemanticStateSummary :=
  { SemanticStateSummary.empty with
    version := 1
    complete := true
    targetRoot := some "/w"
    pathExists := true
    cargoProject := true
    entrypointKind := some "lib"
    sourceFiles := ["src/lib.rs", "tests/run_test.rs"]
    failureClass := some "generic_compiler_failure"
    failureScope := some "workspace" }

def commandPlan (cmd : Text) : LoopPlanned :=
  { (default : LoopPlanned) with
    actionKind := .runCommand
    actionPayload := .obj
      [("cmd", jsonText cmd), ("cwd", .str "/w"),
       ("failure_class", .str "generic_compiler_failure"), ("verifier", .str "cargo_check")] }

def failureObserved : LoopObserved :=
  { (default : LoopObserved) with semanticSummary := workspaceFailure }

/-- The context in `/w` after the failure was observed. -/
def failureContext : LoopContext :=
  { LoopContext.new "/w" .block with lastObserved := some failureObserved }

theorem dispatch_returns_cargo_update :
    Returns (dispatchPlan tallyHost (quietWorld libProject) failureContext
      (commandPlan "cargo update")) := by
  have haccept : validateActionBatch (quietWorld libProject).fs [commandPlan "cargo update"] .none
      failureObserved.semanticSummary errorTrend [] none none = .ok () := by
    decide +kernel
  apply (dispatch_returns_iff tallyHost (quietWorld libProject) haccept rfl rfl).mpr
  intro cmd targetRoot hcmd hroot
  obtain rfl : "cargo update".toList = cmd := Option.some.inj hcmd
  obtain rfl : "/w".toList = targetRoot := Option.some.inj hroot
  constructor <;> decide +kernel

/-- `git clean -fd` is accepted, and dispatching it panics. -/
theorem accepted_plan_panics :
    ¬ ∀ (H : Host) (W : World) (ctx : LoopContext) (observed : LoopObserved)
        (planned : LoopPlanned) (retryPolicy : RetryPolicy) (trend : ObjectiveTrendState)
        (results : List SemanticExecutionResultRecord)
        (forcedObjective : Option DevelopmentObjectiveKind)
        (forcedStrategy : Option DevelopmentStrategyKind),
        validateActionBatch W.fs [planned] retryPolicy observed.semanticSummary trend results
          forcedObjective forcedStrategy = .ok () →
        ctx.lastObserved = some observed → ctx.destructiveCmdPolicy = .block →
        Returns (dispatchPlan H W ctx planned) := by
  intro hall
  have haccept : validateActionBatch (quietWorld libProject).fs [commandPlan "git clean -fd"] .none
      failureObserved.semanticSummary errorTrend [] none none = .ok () := by
    decide +kernel
  refine hall tallyHost (quietWorld libProject) failureContext failureObserved _ _ _ _ _ _ haccept
    rfl rfl ?_
  rfl

end Act

end Canon.Loop
