import Canon.Lib.Machine
import Canon.Route.Successor

/-! # The gatekeeper of routes

    `Gatekeeper::review` takes the route a model picked through a list of rules: scores
    the model gave itself, a confidence, a limit of repetitions, and what the loop requires.
    It counts its own calls and the repetitions of the lane it granted.

    * `review`: the rules in the order of the source,
    * `required`: what the rules at the end leave of a wish,
    * `cycleCount_run`, `repeatCount_run`: what the counters have counted,
    * `gate_of_run`: what is granted in any run of reviews.
-/

namespace Canon.Route.Gate

open Canon.Loop

variable (cfg : GuardConfig) (state : GateState) (pick : RouteSelection) (signals : RuntimeSignals)
    (d : Draft)

/-! ### What is reviewed -/

/-- The scores that a rule reads; `f32` each. -/
structure LlmSignals where
  goalAlignmentScore : Float32
  confidence : Float32
  errorLikelihood : Float32
  planValidity : Float32
  stateConsistency : Float32
  progressScore : Float32
  blockingSeverity : Float32
  contextCompleteness : Float32
  executionRisk : Float32
  recoveryDifficulty : Float32
  verificationCoverage : Float32
  changeImpact : Float32
  noveltyScore : Float32
  terminationReadiness : Float32

structure RuntimeSignals where
  contextReady : Bool
  hasQueuedPlan : Bool
  performedRecently : Bool
  repairStalled : Bool
  repairPressureScore : Nat
  finishReady : Bool
  lastActionKind : Text
  llmSignals : Option LlmSignals
  deltaG : Option Float32

/-- `last_action_kind == "done"`. -/
def RuntimeSignals.lastDone : Bool :=
  signals.lastActionKind = "done".toList

structure GuardConfig where
  maxCycles : Nat
  maxRepeatLane : Nat
  minimumConfidence : Option Float32
  fallbackLane : RouteKind

/-- `GuardConfig::default`. -/
def GuardConfig.default : GuardConfig where
  maxCycles := 64
  maxRepeatLane := 3
  minimumConfidence := some 0.20
  fallbackLane := .observe

structure RouteSelection where
  route : RouteKind
  confidence : Option Float32

structure GateState where
  cycleCount : Nat
  previousLane : Option RouteKind
  repeatCount : Nat

def GateState.init : GateState := ⟨0, none, 0⟩

structure GateResult where
  lane : RouteKind
  changed : Bool
  note : String
  shouldStop : Bool

def u32Max : Nat := 4294967295

/-- `saturating_add(1)` of a `u32`. -/
def satSucc (n : Nat) : Nat := min (n + 1) u32Max

/-! ### Rules -/

/-- A lane on its way through the rules. -/
structure Draft where
  lane : RouteKind
  changed : Bool
  notes : List String

/-- A rule that fires overwrites the lane and leaves a note. -/
def Draft.rule (fires : Prop) [Decidable fires] (lane : RouteKind) (note : String) :
    Draft :=
  if fires then ⟨lane, true, d.notes ++ [note]⟩ else d

/-- The rules of the scores, by priority; of the warnings most speak of `act` alone. -/
def scoreRules (s : LlmSignals) (signals : RuntimeSignals) (d : Draft) : Draft :=
  let d := d.rule (s.goalAlignmentScore < 0.3) .plan "sig:goal_align<0.3[critical] → plan"
  let d := d.rule (s.stateConsistency < 0.4) .observe
    "sig:state_consistency<0.4[critical] → observe"
  let d := d.rule (s.planValidity < 0.5 ∧ signals.hasQueuedPlan = false) .plan
    "sig:plan_validity<0.5[critical] → plan"
  let d := d.rule (s.blockingSeverity > 0.8) .observe
    "sig:blocking_severity>0.8[critical] → observe"
  let d := d.rule (s.contextCompleteness < 0.3) .observe
    "sig:context_completeness<0.3[critical] → observe"
  let d := d.rule (s.executionRisk > 0.8) .plan "sig:execution_risk>0.8[critical] → plan"
  let d := d.rule (s.recoveryDifficulty > 0.8) .verify
    "sig:recovery_difficulty>0.8[critical] → verify"
  let d := d.rule (s.goalAlignmentScore < 0.5 ∧ s.goalAlignmentScore ≥ 0.3 ∧
    signals.hasQueuedPlan = false) .plan "sig:goal_align 0.3–0.5[warning] → plan"
  let d := d.rule (s.confidence < 0.4 ∧ d.lane = .act) .observe
    "sig:confidence<0.4[critical] → observe"
  let d := d.rule (s.confidence ≥ 0.4 ∧ s.confidence < 0.6 ∧ d.lane = .act) .verify
    "sig:confidence 0.4–0.6[warning] → verify"
  let d := d.rule (s.executionRisk ≥ 0.6 ∧ s.executionRisk ≤ 0.8 ∧ d.lane = .act) .verify
    "sig:execution_risk 0.6–0.8[warning] → verify"
  let d := d.rule (s.errorLikelihood > 0.7 ∧ d.lane = .act) .verify
    "sig:error_likelihood>0.7[critical] → verify"
  let d := d.rule (s.errorLikelihood ≥ 0.5 ∧ s.errorLikelihood ≤ 0.7 ∧ d.lane = .act) .verify
    "sig:error_likelihood 0.5–0.7[warning] → verify"
  let d := d.rule (s.blockingSeverity ≥ 0.6 ∧ s.blockingSeverity ≤ 0.8 ∧ d.lane = .act) .observe
    "sig:blocking_severity 0.6–0.8[warning] → observe"
  let d := d.rule (s.contextCompleteness ≥ 0.3 ∧ s.contextCompleteness < 0.5 ∧ d.lane = .act)
    .observe "sig:context_completeness 0.3–0.5[warning] → observe"
  let d := d.rule (s.noveltyScore < 0.1 ∧ signals.hasQueuedPlan = false) .plan
    "sig:novelty<0.1[critical] → plan"
  let d := d.rule (s.noveltyScore ≥ 0.1 ∧ s.noveltyScore < 0.3 ∧ d.lane = .act) .plan
    "sig:novelty 0.1–0.3[warning] → plan"
  let d := d.rule (s.verificationCoverage < 0.3 ∧ d.lane = .act) .verify
    "sig:verify_coverage<0.3[critical] → verify"
  let d := d.rule (s.changeImpact > 0.8 ∧ d.lane = .act) .verify
    "sig:change_impact>0.8[critical] → verify"
  let d := d.rule (s.recoveryDifficulty ≥ 0.6 ∧ s.recoveryDifficulty ≤ 0.8 ∧ d.lane = .act) .verify
    "sig:recovery_difficulty 0.6–0.8[warning] → verify"
  let d := d.rule (s.progressScore < 0.2 ∧ s.noveltyScore < 0.3) .plan
    "sig:stagnation(progress+novelty)[critical] → plan"
  let d := d.rule (s.terminationReadiness > 0.95 ∧ s.verificationCoverage < 0.5) .verify
    "sig:term_ready>0.95+coverage_low → verify"
  d.rule (s.terminationReadiness > 0.9 ∧ s.verificationCoverage ≥ 0.7 ∧ signals.finishReady = true)
    .conclude "sig:term_ready>0.9+coverage_ok → conclude"

def llmRules : Draft :=
  match signals.llmSignals with
  | some s => scoreRules s signals d
  | none => d

def goodnessRule : Draft :=
  match signals.deltaG with
  | some deltaG => d.rule (deltaG < 0.0 ∧ signals.hasQueuedPlan = false) .plan "delta_g<0 → plan"
  | none => d

def confidenceRule : Draft :=
  match cfg.minimumConfidence, pick.confidence with
  | some minimum, some confidence => d.rule (confidence < minimum) cfg.fallbackLane "low confidence"
  | _, _ => d

/-- The rules that say what is wished for. -/
def wishRules : Draft :=
  let d := goodnessRule signals (llmRules signals ⟨pick.route, false, []⟩)
  let d := d.rule (signals.finishReady = true ∧ signals.hasQueuedPlan = false) .conclude
    "finish_ready=true → conclude"
  confidenceRule cfg pick d

/-- The limit of repetitions. -/
def repeatRules (repeatCount : Nat) (signals : RuntimeSignals) (d : Draft) :
    Draft :=
  if cfg.maxRepeatLane < repeatCount ∧ signals.hasQueuedPlan = false then
    if signals.performedRecently = true then
      ⟨.verify, true, d.notes ++ ["repeat limit reached under unverified state; forcing verify"]⟩
    else ⟨cfg.fallbackLane, true, d.notes ++ ["repeat limit reached"]⟩
  else d

/-- The rules that hold whatever is wished for. -/
def requireRules : Draft :=
  let d := d.rule (signals.performedRecently = true ∧ signals.hasQueuedPlan = false ∧
    d.lane ≠ .verify) .verify "acted_unverified=true requires verify"
  let d := d.rule (signals.repairStalled = true ∧ signals.hasQueuedPlan = false ∧
    signals.performedRecently = false ∧ d.lane ≠ .plan) .plan
    "repair loop stalled requires plan for replan"
  let d := d.rule (signals.repairPressureScore > 0 ∧ signals.hasQueuedPlan = false ∧
    (d.lane = .verify ∨ d.lane = .conclude)) .plan "repair pressure requires plan"
  let d := d.rule (signals.hasQueuedPlan = true ∧ d.lane ≠ .act) .act "queued plan requires act"
  let d := d.rule (d.lane = .act ∧ signals.hasQueuedPlan = false) .plan
    "act blocked: no queued plan; select plan to produce one"
  -- An `else if` in the source: where the rule above fires, the lane is not `act` any more.
  let d := d.rule (d.lane = .act ∧ ¬ (signals.contextReady = true ∨ signals.hasQueuedPlan = true))
    .observe "act requires context_ready or queued plan"
  let d := d.rule (d.lane = .verify ∧ ¬ (signals.performedRecently = true ∨
    signals.lastDone = true ∨ signals.finishReady = true)) .plan
    "verify requires recent execution, done action, or finish_ready"
  d.rule (d.lane = .conclude ∧ signals.finishReady = false) .verify "conclude requires finish_ready"

def concludeNow : GateResult where
  lane := .conclude
  changed := true
  note := "cycle cap reached; forcing conclude"
  shouldStop := true

/-- The repetitions of the lane that is granted now. -/
def repeats (lane : RouteKind) : Nat :=
  if state.previousLane = some lane then satSucc state.repeatCount else 1

def reviewDraft : Draft :=
  requireRules signals (repeatRules cfg state.repeatCount signals (wishRules cfg pick signals))

/-- The cap of the cycles, reached without a queued plan. -/
def Capped : Prop :=
  cfg.maxCycles < satSucc state.cycleCount ∧ signals.hasQueuedPlan = false

instance (cfg : GuardConfig) (state : GateState) (signals : RuntimeSignals) :
    Decidable (Capped cfg state signals) := inferInstanceAs (Decidable (_ ∧ _))

def review : GateResult × GateState :=
  let cycleCount := satSucc state.cycleCount
  if Capped cfg state signals then (concludeNow, { state with cycleCount })
  else
    -- Past the cap a queued plan starts the count again.
    let cycleCount := if cfg.maxCycles < cycleCount then 0 else cycleCount
    let d := reviewDraft cfg state pick signals
    let note := if d.notes = [] then "accepted" else "; ".intercalate d.notes
    (⟨d.lane, d.changed, note, d.lane = .conclude⟩,
      ⟨cycleCount, some d.lane, repeats state d.lane⟩)

/-! ### What the rules leave of a wish -/

@[simp] theorem Draft.rule_lane (fires : Prop) [Decidable fires] (lane : RouteKind) (note : String)
    : (d.rule fires lane note).lane = if fires then lane else d.lane := by
  unfold Draft.rule
  split <;> rfl

/-- The lane that is granted to a wish. -/
def required (wish : RouteKind) : RouteKind :=
  if signals.hasQueuedPlan then .act
  else if signals.performedRecently then
    if signals.repairPressureScore > 0 then .plan else .verify
  else if signals.repairStalled then .plan
  else match wish with
    | .act => .plan
    | .verify =>
      if signals.repairPressureScore > 0 then .plan
      else if signals.lastDone || signals.finishReady then .verify
      else .plan
    | .conclude =>
      if signals.repairPressureScore > 0 then .plan
      else if signals.finishReady then .conclude
      else .verify
    | lane => lane

theorem requireRules_lane :
    (requireRules signals d).lane = required signals d.lane := by
  unfold requireRules required
  cases hqueued : signals.hasQueuedPlan with
  | true => by_cases hact : d.lane = .act <;> simp [hact]
  | false =>
    -- Without a plan the flags and the wish decide; the pressure alone is a number.
    by_cases hpressure : signals.repairPressureScore > 0
    · cases hperf : signals.performedRecently <;> cases hstall : signals.repairStalled <;>
        cases hlane : d.lane <;> simp [hlane, hpressure]
    · cases hdone : signals.lastDone <;>
        cases hperf : signals.performedRecently <;> cases hstall : signals.repairStalled <;>
        cases hfin : signals.finishReady <;> cases hlane : d.lane <;>
        simp [hlane, hpressure]

/-- Acting needs a queued plan, and a queued plan is acted on. -/
theorem required_eq_act (wish : RouteKind) :
    required signals wish = .act ↔ signals.hasQueuedPlan = true := by
  unfold required
  cases hqueued : signals.hasQueuedPlan with
  | true => simp
  | false => cases wish <;> grind

theorem required_eq_conclude {signals : RuntimeSignals} {wish : RouteKind}
    (h : required signals wish = .conclude) :
    signals.finishReady = true ∧ signals.performedRecently = false ∧
      signals.repairStalled = false ∧ signals.repairPressureScore = 0 := by
  unfold required at h
  cases wish <;> grind

theorem required_eq_verify {signals : RuntimeSignals} {wish : RouteKind}
    (h : required signals wish = .verify) :
    signals.performedRecently = true ∨ signals.lastDone = true ∨ signals.finishReady = true ∨
      wish = .conclude := by
  unfold required at h
  cases wish <;> grind

/-! ### Changes are noted -/

/-- A lane that was not changed is the one picked, and nothing was noted. -/
def Draft.Explained (pick : RouteKind) (d : Draft) : Prop :=
  d.changed = false → d.lane = pick ∧ d.notes = []

theorem Draft.Explained.rule {pick : RouteKind} {d : Draft} (h : d.Explained pick) (fires : Prop)
    [Decidable fires] (lane : RouteKind) (note : String) :
    (d.rule fires lane note).Explained pick := by
  unfold Draft.rule
  split
  · intro hchanged
    cases hchanged
  · exact h

theorem Draft.Explained.scoreRules {pick : RouteKind} {d : Draft} (h : d.Explained pick)
    (s : LlmSignals) (signals : RuntimeSignals) : (scoreRules s signals d).Explained pick := by
  unfold Gate.scoreRules
  repeat apply Draft.Explained.rule
  exact h

theorem explained_wishRules : (wishRules cfg pick signals).Explained pick.route := by
  have hpicked : Draft.Explained pick.route ⟨pick.route, false, []⟩ := fun _ => ⟨rfl, rfl⟩
  have hllm : (llmRules signals ⟨pick.route, false, []⟩).Explained pick.route := by
    unfold llmRules
    split
    · exact hpicked.scoreRules _ signals
    · exact hpicked
  have hgoodness :
      (goodnessRule signals (llmRules signals ⟨pick.route, false, []⟩)).Explained pick.route := by
    unfold goodnessRule
    split
    · exact hllm.rule _ _ _
    · exact hllm
  unfold wishRules confidenceRule
  split
  · exact (hgoodness.rule _ _ _).rule _ _ _
  · exact hgoodness.rule _ _ _

theorem Draft.Explained.repeatRules {pick : RouteKind} {d : Draft} (h : d.Explained pick)
    (cfg : GuardConfig) (repeatCount : Nat) (signals : RuntimeSignals) :
    (repeatRules cfg repeatCount signals d).Explained pick := by
  unfold Gate.repeatRules
  split
  · split
    · intro hchanged
      cases hchanged
    · intro hchanged
      cases hchanged
  · exact h

theorem Draft.Explained.requireRules {pick : RouteKind} {d : Draft} (h : d.Explained pick)
    (signals : RuntimeSignals) : (requireRules signals d).Explained pick := by
  unfold Gate.requireRules
  repeat apply Draft.Explained.rule
  exact h

/-! ### One review -/

section Review

variable {cfg : GuardConfig} {state : GateState} {pick : RouteSelection} {signals : RuntimeSignals}

theorem review_capped (h : Capped cfg state signals) :
    review cfg state pick signals =
      (concludeNow, { state with cycleCount := satSucc state.cycleCount }) :=
  if_pos h

theorem review_cycleCount (h : signals.hasQueuedPlan = false) :
    (review cfg state pick signals).2.cycleCount = satSucc state.cycleCount := by
  by_cases hcap : Capped cfg state signals
  · rw [review_capped hcap]
  · have hbelow : ¬ cfg.maxCycles < satSucc state.cycleCount := fun hlt => hcap ⟨hlt, h⟩
    unfold review
    rw [if_neg hcap]
    exact if_neg hbelow

/-- The wish that the requirements are applied to. -/
def wish (cfg : GuardConfig) (state : GateState) (pick : RouteSelection)
    (signals : RuntimeSignals) : RouteKind :=
  (repeatRules cfg state.repeatCount signals (wishRules cfg pick signals)).lane

theorem review_lane (h : ¬ Capped cfg state signals) :
    (review cfg state pick signals).1.lane = required signals (wish cfg state pick signals) := by
  unfold review
  rw [if_neg h]
  exact requireRules_lane signals _

theorem review_shouldStop :
    (review cfg state pick signals).1.shouldStop = true ↔
      (review cfg state pick signals).1.lane = .conclude := by
  unfold review
  split
  · exact iff_of_true rfl rfl
  · exact decide_eq_true_iff

theorem review_unchanged (h : (review cfg state pick signals).1.changed = false) :
    (review cfg state pick signals).1.lane = pick.route ∧
      (review cfg state pick signals).1.note = "accepted" := by
  unfold review at h ⊢
  split
  · rename_i hcap
    rw [if_pos hcap] at h
    cases h
  · rename_i hcap
    rw [if_neg hcap] at h
    have hwished := explained_wishRules cfg pick signals
    have hexplained : (reviewDraft cfg state pick signals).Explained pick.route :=
      (hwished.repeatRules cfg state.repeatCount signals).requireRules signals
    obtain ⟨hlane, hnotes⟩ := hexplained h
    exact ⟨hlane, if_pos hnotes⟩

theorem review_repeatCount (h : ¬ Capped cfg state signals) :
    (review cfg state pick signals).2.previousLane =
        some (review cfg state pick signals).1.lane ∧
      (review cfg state pick signals).2.repeatCount =
        repeats state (review cfg state pick signals).1.lane := by
  unfold review
  rw [if_neg h]
  exact ⟨rfl, rfl⟩

/-- Beyond the limit of repetitions the model has no say. -/
theorem wish_at_limit (h : cfg.maxRepeatLane < state.repeatCount)
    (hqueued : signals.hasQueuedPlan = false) :
    required signals (wish cfg state pick signals) = required signals cfg.fallbackLane := by
  unfold wish repeatRules
  rw [if_pos ⟨h, hqueued⟩]
  -- After an action the limit wishes for `verify`, but then no wish counts.
  cases hperf : signals.performedRecently with
  | true => simp [required, hperf, hqueued]
  | false => rfl

end Review

/-! ### Runs -/

abbrev Request := RouteSelection × RuntimeSignals

def gate (cfg : GuardConfig) : Machine GateState Request where
  step state req := (review cfg state req.1 req.2).2

/-- The results of a run of reviews. -/
def reviews (cfg : GuardConfig) : GateState → List Request → List GateResult
  | _, [] => []
  | state, req :: reqs =>
    (review cfg state req.1 req.2).1 :: reviews cfg ((gate cfg).step state req) reqs

variable {cfg : GuardConfig} {reqs : List Request}

/-- Reviews without a queued plan are counted. -/
theorem cycleCount_run (state : GateState) (hqueued : ∀ req ∈ reqs, req.2.hasQueuedPlan = false) :
    min (state.cycleCount + reqs.length) u32Max ≤ ((gate cfg).run state reqs).cycleCount := by
  induction reqs generalizing state with
  | nil => exact Nat.min_le_left _ _
  | cons req reqs ih =>
    have hstep : ((gate cfg).step state req).cycleCount = satSucc state.cycleCount :=
      review_cycleCount (hqueued req (by simp))
    have htail := ih ((gate cfg).step state req) fun r hr => hqueued r (by simp [hr])
    rw [hstep] at htail
    unfold satSucc at htail
    rw [Machine.run_cons, List.length_cons]
    omega

/-- Granted once more, a lane is counted once more. -/
theorem step_repeats {lane : RouteKind} (hlane : lane ≠ .conclude) {state : GateState}
    {req : Request} (h : (review cfg state req.1 req.2).1.lane = lane) :
    ((gate cfg).step state req).previousLane = some lane ∧
      ((gate cfg).step state req).repeatCount = repeats state lane := by
  have hcap : ¬ Capped cfg state req.2 := by
    -- A review at the cap grants `conclude`, and is not counted.
    intro hcap
    rw [review_capped hcap] at h
    exact hlane h.symm
  rw [← h]
  exact review_repeatCount hcap

theorem repeatCount_run {lane : RouteKind} (hlane : lane ≠ .conclude) {state : GateState}
    (hresults : ∀ r ∈ reviews cfg state reqs, r.lane = lane)
    (hprev : state.previousLane = some lane) :
    min (state.repeatCount + reqs.length) u32Max ≤ ((gate cfg).run state reqs).repeatCount := by
  induction reqs generalizing state with
  | nil => exact Nat.min_le_left _ _
  | cons req reqs ih =>
    obtain ⟨hnext, hcount⟩ := step_repeats hlane (hresults _ List.mem_cons_self)
    have htail := ih (fun r hr => hresults r (List.mem_cons_of_mem _ hr)) hnext
    rw [hcount] at htail
    unfold repeats satSucc at htail
    rw [if_pos hprev] at htail
    rw [Machine.run_cons, List.length_cons]
    omega

/-- A lane that is granted again and again is counted, whatever was before. -/
theorem length_le_repeatCount {lane : RouteKind} (hlane : lane ≠ .conclude) (state : GateState)
    (hresults : ∀ r ∈ reviews cfg state reqs, r.lane = lane) (hsome : reqs ≠ []) :
    min reqs.length u32Max ≤ ((gate cfg).run state reqs).repeatCount := by
  cases reqs with
  | nil => exact absurd rfl hsome
  | cons req reqs =>
    obtain ⟨hnext, hcount⟩ := step_repeats hlane (hresults _ List.mem_cons_self)
    have htail := repeatCount_run hlane (fun r hr => hresults r (List.mem_cons_of_mem _ hr)) hnext
    have hone : 1 ≤ repeats state lane := by
      unfold repeats satSucc u32Max
      split <;> omega
    rw [hcount] at htail
    rw [Machine.run_cons, List.length_cons]
    omega

/-! ### What is granted -/

/-- The grounds of a result. -/
structure Grounded (cfg : GuardConfig) (state : GateState) (pick : RouteSelection)
    (signals : RuntimeSignals) (r : GateResult) : Prop where
  act : r.lane = .act ↔ signals.hasQueuedPlan = true
  stop : r.shouldStop = true ↔ r.lane = .conclude
  conclude : r.lane = .conclude → Capped cfg state signals ∨
    signals.finishReady = true ∧ signals.performedRecently = false ∧
      signals.repairStalled = false ∧ signals.repairPressureScore = 0
  verify : r.lane = .verify → signals.performedRecently = true ∨ signals.lastDone = true ∨
    signals.finishReady = true ∨ wish cfg state pick signals = .conclude
  unchanged : r.changed = false → r.lane = pick.route ∧ r.note = "accepted"

theorem review_grounded (cfg : GuardConfig) (state : GateState) (pick : RouteSelection)
    (signals : RuntimeSignals) :
    Grounded cfg state pick signals (review cfg state pick signals).1 := by
  by_cases hcap : Capped cfg state signals
  · rw [review_capped hcap]
    have hqueued : signals.hasQueuedPlan ≠ true := by simp [hcap.2]
    have hlane : concludeNow.lane ≠ .act := by decide
    exact {
      act := iff_of_false hlane hqueued
      stop := iff_of_true rfl rfl
      conclude := fun _ => .inl hcap
      verify := fun h => by cases h
      unchanged := fun h => by cases h }
  · have hlane : (review cfg state pick signals).1.lane = _ := review_lane hcap
    exact {
      act := by rw [hlane]; exact required_eq_act signals _
      stop := review_shouldStop
      conclude := fun h => .inr (required_eq_conclude (hlane ▸ h))
      verify := fun h => required_eq_verify (hlane ▸ h)
      unchanged := review_unchanged }

/-- **What the gate grants.**  In every run of reviews each result has its ground.  As many
    reviews without a queued plan as the cap has cycles end in `conclude`, and after a lane that
    was granted more often in a row than the limit allows neither the pick nor the scores decide. -/
theorem gate_of_run (cfg : GuardConfig) (hcycles : cfg.maxCycles < u32Max)
    (hrepeat : cfg.maxRepeatLane < u32Max) (before : List Request) (pick : RouteSelection)
    (signals : RuntimeSignals) :
    let state := (gate cfg).run .init before
    let r := (review cfg state pick signals).1
    Grounded cfg state pick signals r ∧
      ∀ older recent, before = older ++ recent → signals.hasQueuedPlan = false →
        ((∀ req ∈ recent, req.2.hasQueuedPlan = false) → cfg.maxCycles ≤ recent.length →
          r.lane = .conclude) ∧
        ∀ lane, lane ≠ .conclude →
          (∀ x ∈ reviews cfg ((gate cfg).run .init older) recent, x.lane = lane) →
          cfg.maxRepeatLane < recent.length →
          r.lane = if Capped cfg state signals then .conclude
            else required signals cfg.fallbackLane := by
  intro state r
  refine ⟨review_grounded cfg state pick signals, ?_⟩
  intro older recent hbefore hqueued
  have hstate : state = (gate cfg).run ((gate cfg).run .init older) recent := by
    rw [← Machine.run_append, ← hbefore]
  constructor
  · intro hrecent hlength
    have hcount : min (((gate cfg).run .init older).cycleCount + recent.length) u32Max ≤
        state.cycleCount := by
      rw [hstate]
      exact cycleCount_run _ hrecent
    -- The count does not wrap: the cap lies below its largest value.
    have hcap : Capped cfg state signals := by
      refine ⟨?_, hqueued⟩
      unfold satSucc
      omega
    show (review cfg state pick signals).1.lane = .conclude
    rw [review_capped hcap]
    rfl
  · intro lane hlane hresults hlength
    have hsome : recent ≠ [] := by
      intro hnil
      rw [hnil] at hlength
      exact absurd hlength (Nat.not_lt_zero _)
    have hcount := length_le_repeatCount hlane _ hresults hsome
    rw [← hstate] at hcount
    have hlimit : cfg.maxRepeatLane < state.repeatCount := by omega
    -- The cap comes first; without it the limit decides.
    show (review cfg state pick signals).1.lane = _
    by_cases hcap : Capped cfg state signals
    · rw [review_capped hcap, if_pos hcap]
      rfl
    · rw [review_lane hcap, if_neg hcap]
      exact wish_at_limit hlimit hqueued

/-- A plan is acted on, although the model would observe. -/
theorem gate_of_run_queued :
    let idle : RuntimeSignals := ⟨true, false, false, false, 0, false, [], none, none⟩
    let queued : RuntimeSignals := { idle with hasQueuedPlan := true }
    let state := (gate .default).run .init [(⟨.plan, some 0.9⟩, idle)]
    (review .default state ⟨.observe, some 0.9⟩ queued).1.lane = .act :=
  (gate_of_run .default (by decide) (by decide) [_] _ _).1.act.mpr rfl

end Canon.Route.Gate
