import Canon.Loop.Footprint

/-! # From verification to reward

    The reward of a verify round is computed when its `VerifierPolicyUpdated` is
    handled, from the last `LoopVerified`.  The verify stage emits only the former,
    so the reward stage never finds the latter.
-/

namespace Canon.Loop

/-- The ticks of the rewards among some events. -/
def rewardTicks (events : List RuntimeEvent) : List Nat :=
  events.filterMap fun
    | .loopRewarded rewarded => some rewarded.tick
    | _ => none

/-- A verification that is delivered was emitted before; after a panic nothing is
    delivered. -/
def OwnVerification (s : LoopState) (d : Delivery) : Prop :=
  s.crashed = false ∧
    match d.event with
    | .loopVerified _ | .verifierPolicyUpdated _ => d.event ∈ s.emitted
    | _ => True

/-- The result of a verify round is handled without a panic and rewarded once, with
    the tick of the round. -/
def RewardsRound (H : Host) (s : LoopState) (d : Delivery) : Prop :=
  ∀ policy, d.event = .verifierPolicyUpdated policy →
    (s.reply H d).panicked = false ∧ rewardTicks (s.reply H d).emitted = [policy.tick]

/-- The executor has never seen or announced a verification. -/
structure Unverified (s : LoopState) : Prop where
  lastVerified : s.ctx.lastVerified = none
  emitted : ∀ verified, RuntimeEvent.loopVerified verified ∉ s.emitted

theorem unverified_step (H : Host) {s : LoopState} {d : Delivery} (h : Unverified s)
    (hown : OwnVerification s d) : Unverified (loopStep H s d) := by
  have hsound := onEvent_sound H d.world s.ctx d.event
  have hevent : ∀ verified, d.event ≠ .loopVerified verified := by
    intro verified hd
    apply h.emitted verified
    simpa [OwnVerification, hd] using hown.2
  unfold loopStep
  rw [hown.1]
  simp only [LoopState.reply]
  constructor
  · show (onEvent H d.world s.ctx d.event).ctx.lastVerified = none
    rw [hsound.keeps.lastVerified, ← h.lastVerified]
    cases hd : d.event
    case loopVerified verified => exact absurd hd (hevent verified)
    all_goals rfl
  · intro verified hmem
    rcases List.mem_append.mp hmem with hmem | hmem
    · exact h.emitted verified hmem
    · exact hsound.emits _ hmem

/-- Without a verification the reward stage panics; a halted executor does not even
    start it. -/
theorem onEvent_policy_of_unverified (H : Host) (W : World) {ctx : LoopContext}
    (h : ctx.lastVerified = none) (policy : VerifierPolicyUpdated) :
    (onEvent H W ctx (.verifierPolicyUpdated policy)).panicked = !ctx.halted ∧
      (onEvent H W ctx (.verifierPolicyUpdated policy)).emitted = [] := by
  rw [onEvent_of_set rfl rfl]
  have hhalted : (applyVerifierPolicyUpdate ctx policy).halted = ctx.halted := rfl
  have hverified : (applyVerifierPolicyUpdate ctx policy).lastVerified = none := h
  rw [hhalted]
  cases ctx.halted
  · simp [executeStageEvent, LoopStageEvent.tryFrom, LoopStageEvent.execute,
      Reward.executeFromPolicy, hverified, ofStageReply, StageReply.panic]
  · simp

theorem not_rewardsRound_of_unverified (H : Host) {s : LoopState} {d : Delivery}
    (h : Unverified s) {policy : VerifierPolicyUpdated}
    (hd : d.event = .verifierPolicyUpdated policy) : ¬ RewardsRound H s d := by
  intro hrewards
  obtain ⟨-, hticks⟩ := hrewards policy hd
  unfold LoopState.reply at hticks
  rw [hd, (onEvent_policy_of_unverified H d.world h.lastVerified policy).2] at hticks
  simp [rewardTicks] at hticks

theorem along_rewardsRound_iff (H : Host) {s : LoopState} {acts : List Delivery}
    (h : Unverified s) (hown : (loopMachine H).Along OwnVerification s acts) :
    (loopMachine H).Along (RewardsRound H) s acts ↔
      ∀ d ∈ acts, ∀ policy, d.event ≠ .verifierPolicyUpdated policy := by
  induction acts generalizing s with
  | nil => simp
  | cons d acts ih =>
    obtain ⟨hd, hrest⟩ := hown
    have hnext : Unverified ((loopMachine H).step s d) := unverified_step H h hd
    rw [Machine.along_cons, ih hnext hrest, List.forall_mem_cons]
    refine and_congr_left fun _ => ?_
    constructor
    · intro hrewards policy hpolicy
      exact not_rewardsRound_of_unverified H h hpolicy hrewards
    · intro hother policy hpolicy
      exact absurd hpolicy (hother policy)

theorem unverified_start (workspace : FilePath) (policy : DestructiveCmdPolicy) :
    Unverified (LoopState.start (LoopContext.new workspace policy)) :=
  ⟨rfl, by simp [LoopState.start]⟩

/-- In a run from a fresh context whose verifications are the executor's own, verify
    rounds are rewarded only when there is none: each result that is delivered
    either panics or, in a halted loop, is dropped. -/
theorem rounds_rewarded_iff (H : Host) (workspace : FilePath) (policy : DestructiveCmdPolicy)
    (acts : List Delivery)
    (hown : (loopMachine H).Along OwnVerification
      (LoopState.start (LoopContext.new workspace policy)) acts) :
    (loopMachine H).Along (RewardsRound H)
        (LoopState.start (LoopContext.new workspace policy)) acts ↔
      ∀ d ∈ acts, ∀ update, d.event ≠ .verifierPolicyUpdated update :=
  along_rewardsRound_iff H (unverified_start workspace policy) hown

/-! ### A first verify round -/

/-- What the first round of tick 1 reports. -/
def firstRound : VerifierPolicyUpdated :=
  Verify.policyUpdate tallyHost { startInW.ctx with currentTick := 1 } 1 true []

/-- The clock, a route to `verify` and the delivery of what the round reports. -/
def verifyRun : List Delivery :=
  [⟨emptyDir, .tick 1⟩, ⟨emptyDir, .routeSelected (routeTo "verify" 1)⟩,
    ⟨emptyDir, .verifierPolicyUpdated firstRound⟩]

theorem verifyRun_own : (loopMachine tallyHost).Along OwnVerification startInW verifyRun := by
  refine ⟨⟨rfl, trivial⟩, ⟨rfl, trivial⟩, ⟨by rfl, ?_⟩, trivial⟩
  have hemitted : (loopStep tallyHost (loopStep tallyHost startInW ⟨emptyDir, .tick 1⟩)
      ⟨emptyDir, .routeSelected (routeTo "verify" 1)⟩).emitted =
        [.verifierPolicyUpdated firstRound] := by
    rfl
  exact hemitted ▸ List.mem_singleton.mpr rfl

theorem rounds_rewarded_iff_verifyRun :
    (loopMachine tallyHost).Along (RewardsRound tallyHost) startInW verifyRun ↔
      ∀ d ∈ verifyRun, ∀ update, d.event ≠ .verifierPolicyUpdated update :=
  rounds_rewarded_iff tallyHost "/w" .block verifyRun verifyRun_own

/-- The round of `verifyRun` is not rewarded: its delivery panics. -/
theorem first_round_not_rewarded :
    ¬ ∀ (H : Host) (workspace : FilePath) (policy : DestructiveCmdPolicy) (acts : List Delivery),
        (loopMachine H).Along OwnVerification
          (LoopState.start (LoopContext.new workspace policy)) acts →
        (loopMachine H).Along (RewardsRound H)
          (LoopState.start (LoopContext.new workspace policy)) acts := by
  intro hall
  obtain ⟨-, -, hround, -⟩ := hall tallyHost "/w" .block verifyRun verifyRun_own
  obtain ⟨hpanicked, -⟩ := hround firstRound rfl
  have hpanics : (onEvent tallyHost emptyDir (loopStep tallyHost (loopStep tallyHost startInW
      ⟨emptyDir, .tick 1⟩) ⟨emptyDir, .routeSelected (routeTo "verify" 1)⟩).ctx
        (.verifierPolicyUpdated firstRound)).panicked = true := by
    rfl
  exact absurd (hpanics.symm.trans hpanicked) (by decide)

end Canon.Loop
