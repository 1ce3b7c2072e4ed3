import Canon.Loop.Slots

/-! # Answers to dispatched actions

    An answer is offered to the decompose stage, the plan stage and the act stage in
    this order, and the first that does something ends the dispatch.  This module
    follows every action that was sent out until it is answered, and says when its
    answer is reported.
-/

namespace Canon.Loop

/-! ### Requests that were sent out -/

/-- The request an event answers. -/
def answeredId : RuntimeEvent → Option Text
  | .capabilityCompleted c => some c.requestId
  | .capabilityFailed f => some f.requestId
  | _ => none

/-- The executor with the actions that were sent out and not answered. -/
structure TrackedState where
  loop : LoopState
  waiting : List PendingAct

def TrackedState.start (ctx : LoopContext) : TrackedState := ⟨LoopState.start ctx, []⟩

/-- The action that is pending in `b` and was not in `a`. -/
def sentBetween (a b : LoopContext) : List PendingAct :=
  match b.pendingAct with
  | some p => if a.pendingAct.map (·.requestId) = some p.requestId then [] else [p]
  | none => []

def trackedStep (H : Host) (t : TrackedState) (d : Delivery) : TrackedState :=
  if t.loop.crashed then t
  else
    let after := loopStep H t.loop d
    { loop := after
      waiting := (t.waiting ++ sentBetween t.loop.ctx after.ctx).filter fun p =>
        answeredId d.event ≠ some p.requestId }

def trackedMachine (H : Host) : Machine TrackedState Delivery := ⟨trackedStep H⟩

/-! ### Identifiers -/

/-- The identifier was drawn. -/
def Drawn (H : Host) (n : Nat) (id : Text) : Prop := ∃ k, k < n ∧ id = H.uuid k

theorem Drawn.mono {H : Host} {m n : Nat} {id : Text} (h : Drawn H m id) (hle : m ≤ n) :
    Drawn H n id := by
  obtain ⟨k, hk, rfl⟩ := h
  exact ⟨k, hk.trans_le hle, rfl⟩

/-- What is drawn later is another identifier. -/
theorem Drawn.ne_later {H : Host} {n k : Nat} {id : Text} (h : Drawn H n id) (hk : n ≤ k) :
    id ≠ H.uuid k := by
  obtain ⟨j, hj, rfl⟩ := h
  intro heq
  have := H.uuid_injective heq
  omega

/-- The actions that matter: those waited for and the pending one. -/
def IsAct (waiting : List PendingAct) (ctx : LoopContext) (p : PendingAct) : Prop :=
  p ∈ waiting ∨ ctx.pendingAct = some p

/-- Identifiers are drawn for one request only. -/
structure OneUse (H : Host) (waiting : List PendingAct) (ctx : LoopContext) : Prop where
  act : ∀ p, IsAct waiting ctx p → Drawn H ctx.drawn p.requestId
  plan : ∀ q, ctx.pendingPlan = some q → Drawn H ctx.drawn q.requestId
  decompose : ∀ id, ctx.pendingDecomposeRequestId = some id → Drawn H ctx.drawn id
  same : ∀ p q, IsAct waiting ctx p → IsAct waiting ctx q → p.requestId = q.requestId → p = q
  plan_ne : ∀ p q, IsAct waiting ctx p → ctx.pendingPlan = some q → p.requestId ≠ q.requestId
  decompose_ne : ∀ p id, IsAct waiting ctx p → ctx.pendingDecomposeRequestId = some id →
    p.requestId ≠ id

theorem eq_of_shrunk {α : Type} {x y : Option α} {v : α} (h : y = x ∨ y = none)
    (hy : y = some v) : x = some v := by
  rcases h with rfl | rfl
  · exact hy
  · cases hy

section Step

variable {H : Host} {waiting waiting' : List PendingAct} {a b : LoopContext}

theorem isAct_of_shrunk (hwaiting : ∀ p ∈ waiting', p ∈ waiting ∨ b.pendingAct = some p)
    (hact : b.pendingAct = a.pendingAct ∨ b.pendingAct = none) {p : PendingAct}
    (hp : IsAct waiting' b p) : IsAct waiting a p := by
  rcases hp with hp | hp
  · rcases hwaiting p hp with hp | hp
    · exact .inl hp
    · exact .inr (eq_of_shrunk hact hp)
  · exact .inr (eq_of_shrunk hact hp)

/-- Steps keep identifiers apart: a slot that is filled gets one that was never
    drawn before. -/
theorem OneUse.step (h : OneUse H waiting a) (hstep : SlotStep H a b)
    (hwaiting : ∀ p ∈ waiting', p ∈ waiting ∨ b.pendingAct = some p) : OneUse H waiting' b := by
  cases hstep with
  | shrink hs =>
    have back : ∀ {p}, IsAct waiting' b p → IsAct waiting a p := isAct_of_shrunk hwaiting hs.act
    exact
      { act := fun p hp => (h.act p (back hp)).mono hs.drawn
        plan := fun q hq => (h.plan q (eq_of_shrunk hs.plan hq)).mono hs.drawn
        decompose := fun id hid => (h.decompose id (eq_of_shrunk hs.decompose hid)).mono hs.drawn
        same := fun p q hp hq => h.same p q (back hp) (back hq)
        plan_ne := fun p q hp hq => h.plan_ne p q (back hp) (eq_of_shrunk hs.plan hq)
        decompose_ne := fun p id hp hid =>
          h.decompose_ne p id (back hp) (eq_of_shrunk hs.decompose hid) }
  | fill k hk hk' hfills =>
    have hdrawn : a.drawn ≤ b.drawn := hk.trans hk'.le
    cases hfills with
    | plan pending hfilled hid hact hdecompose =>
      have back : ∀ {p}, IsAct waiting' b p → IsAct waiting a p := isAct_of_shrunk hwaiting hact
      have only : ∀ {q}, b.pendingPlan = some q → q.requestId = H.uuid k := by
        intro q hq
        rw [hfilled] at hq
        cases hq
        exact hid
      exact
        { act := fun p hp => (h.act p (back hp)).mono hdrawn
          plan := fun q hq => ⟨k, hk', only hq⟩
          decompose := fun id hid => (h.decompose id (eq_of_shrunk hdecompose hid)).mono hdrawn
          same := fun p q hp hq => h.same p q (back hp) (back hq)
          plan_ne := fun p q hp hq => (only hq) ▸ (h.act p (back hp)).ne_later hk
          decompose_ne := fun p id hp hid =>
            h.decompose_ne p id (back hp) (eq_of_shrunk hdecompose hid) }
    | decompose hfilled hact hplan =>
      have back : ∀ {p}, IsAct waiting' b p → IsAct waiting a p := isAct_of_shrunk hwaiting hact
      have only : ∀ {id}, b.pendingDecomposeRequestId = some id → id = H.uuid k := by
        intro id hid
        rw [hfilled] at hid
        cases hid
        rfl
      exact
        { act := fun p hp => (h.act p (back hp)).mono hdrawn
          plan := fun q hq => (h.plan q (eq_of_shrunk hplan hq)).mono hdrawn
          decompose := fun id hid => ⟨k, hk', only hid⟩
          same := fun p q hp hq => h.same p q (back hp) (back hq)
          plan_ne := fun p q hp hq => h.plan_ne p q (back hp) (eq_of_shrunk hplan hq)
          decompose_ne := fun p id hp hid => (only hid) ▸ (h.act p (back hp)).ne_later hk }
    | act pending hfilled hid hplan hdecompose =>
      -- An action is an old one that is waited for, or the one just sent out.
      have split : ∀ {p}, IsAct waiting' b p → p ∈ waiting ∨ p = pending := by
        intro p hp
        have hnew : b.pendingAct = some p → p = pending := by
          intro hp
          rw [hfilled] at hp
          cases hp
          rfl
        rcases hp with hp | hp
        · exact (hwaiting p hp).imp_right hnew
        · exact .inr (hnew hp)
      have older : ∀ {p}, p ∈ waiting → Drawn H a.drawn p.requestId := fun hp => h.act _ (.inl hp)
      refine ⟨?_, ?_, ?_, ?_, ?_, ?_⟩
      · intro p hp
        rcases split hp with hp | rfl
        · exact (older hp).mono hdrawn
        · exact ⟨k, hk', hid⟩
      · intro q hq
        exact (h.plan q (eq_of_shrunk hplan hq)).mono hdrawn
      · intro id hid'
        exact (h.decompose id (eq_of_shrunk hdecompose hid')).mono hdrawn
      · intro p q hp hq heq
        rcases split hp with hp | rfl <;> rcases split hq with hq | rfl
        · exact h.same p q (.inl hp) (.inl hq) heq
        · exact absurd (heq.trans hid) ((older hp).ne_later hk)
        · exact absurd (heq.symm.trans hid) ((older hq).ne_later hk)
        · rfl
      · intro p q hp hq
        rcases split hp with hp | rfl
        · exact h.plan_ne p q (.inl hp) (eq_of_shrunk hplan hq)
        · rw [hid]
          exact ((h.plan q (eq_of_shrunk hplan hq)).ne_later hk).symm
      · intro p id hp hid'
        rcases split hp with hp | rfl
        · exact h.decompose_ne p id (.inl hp) (eq_of_shrunk hdecompose hid')
        · rw [hid]
          exact ((h.decompose id (eq_of_shrunk hdecompose hid')).ne_later hk).symm

end Step

theorem sentBetween_pending {a b : LoopContext} {p : PendingAct} (h : p ∈ sentBetween a b) :
    b.pendingAct = some p := by
  unfold sentBetween at h
  split at h
  · rename_i q hq
    split at h
    · cases h
    · rw [List.mem_singleton] at h
      rw [h]
      exact hq
  · cases h

theorem oneUse_run (H : Host) (workspace : FilePath) (policy : DestructiveCmdPolicy)
    (acts : List Delivery) :
    let t := (trackedMachine H).run (TrackedState.start (LoopContext.new workspace policy)) acts
    OneUse H t.waiting t.loop.ctx := by
  refine Machine.run_invariant (trackedMachine H) (I := fun t => OneUse H t.waiting t.loop.ctx)
    ?_ acts ?_
  · intro t d h
    show OneUse H (trackedStep H t d).waiting (trackedStep H t d).loop.ctx
    unfold trackedStep
    split
    · exact h
    · rename_i halive
      have hafter : (loopStep H t.loop d).ctx = (onEvent H d.world t.loop.ctx d.event).ctx := by
        simp only [loopStep, if_neg halive, LoopState.reply]
      apply h.step (hafter ▸ onEvent_slots H d.world t.loop.ctx d.event)
      intro p hp
      have hp := (List.mem_filter.mp hp).1
      rcases List.mem_append.mp hp with hp | hp
      · exact .inl hp
      · exact .inr (sentBetween_pending hp)
  · exact
      { act := by simp [IsAct, TrackedState.start, LoopState.start, LoopContext.new]
        plan := by simp [TrackedState.start, LoopState.start, LoopContext.new]
        decompose := by simp [TrackedState.start, LoopState.start, LoopContext.new]
        same := by simp [IsAct, TrackedState.start, LoopState.start, LoopContext.new]
        plan_ne := by simp [TrackedState.start, LoopState.start, LoopContext.new]
        decompose_ne := by simp [TrackedState.start, LoopState.start, LoopContext.new] }

/-! ### Answers -/

/-- The actions reported among some events. -/
def actedActions (events : List RuntimeEvent) : List (Option Text) :=
  events.filterMap fun
    | .loopActed acted => some acted.actionId
    | _ => none

theorem actedActions_append (as bs : List RuntimeEvent) :
    actedActions (as ++ bs) = actedActions as ++ actedActions bs :=
  List.filterMap_append

/-- One report, of this action, and the request is no longer pending. -/
def Answers (p : PendingAct) (r : StageReply) : Prop :=
  actedActions r.events = [p.actionId] ∧ r.ctx.pendingAct ≠ some p

/-- The result has something to report: a success, or some output. -/
def HasReport (H : Host) (W : World) (result : CapabilityResult) : Prop :=
  (Act.extractResultFields H W result).success = true ∨
    (Act.extractResultFields H W result).stdout ≠ [] ∨
    (Act.extractResultFields H W result).stderr ≠ []

section Answers

variable {H : Host} {ctx : LoopContext} {waiting : List PendingAct} {p : PendingAct}
variable {c : CapabilityCompleted} {f : CapabilityFailed}

/-- The decompose stage lets the answer of an action pass, and so does the plan
    stage while it waits for another answer. -/
theorem decompose_passes (h : OneUse H waiting ctx) (hp : p ∈ waiting)
    (hc : c.requestId = p.requestId) : Decompose.executeComplete H c ctx = .ok ctx .noop := by
  unfold Decompose.executeComplete
  rw [if_pos]
  intro hpending
  exact h.decompose_ne p _ (.inl hp) hpending hc.symm

theorem plan_passes (h : OneUse H waiting ctx) (hp : p ∈ waiting) (W : World)
    (hc : c.requestId = p.requestId) {q : PendingPlan} (hq : ctx.pendingPlan = some q) :
    Plan.executeComplete H W c ctx = .ok ctx .noop := by
  unfold Plan.executeComplete
  simp only [hq]
  rw [if_pos]
  rw [hc]
  exact (h.plan_ne p q (.inl hp) hq).symm

theorem plan_failure_passes (h : OneUse H waiting ctx) (hp : p ∈ waiting)
    (hf : f.requestId = p.requestId) : Plan.executeFailed H f ctx = .ok ctx .noop := by
  unfold Plan.executeFailed
  split
  · rfl
  · rename_i q hq
    rw [if_pos]
    rw [hf]
    exact (h.plan_ne p q (.inl hp) hq).symm

/-- The act stage reports the answer of its pending action, if there is something
    to report. -/
theorem act_complete_answers_iff (h : OneUse H waiting ctx) (hp : p ∈ waiting) (W : World)
    (hc : c.requestId = p.requestId) :
    Answers p (Act.executeComplete H W c ctx) ↔
      ctx.pendingAct = some p ∧ HasReport H W c.result := by
  unfold Act.executeComplete
  simp only
  split
  · rename_i hnone
    simp [Answers, actedActions, StageReply.events, LoopStageResult.events, Act.debugOf,
      Act.violation, hnone]
  · rename_i q hq
    split
    · rename_i hne
      have hother : ctx.pendingAct ≠ some p := by
        rw [hq]
        intro heq
        cases heq
        exact hne hc.symm
      simp [Answers, actedActions, StageReply.events, LoopStageResult.events, Act.debugOf,
        Act.violation, hother]
    · rename_i heq
      obtain rfl : q = p := h.same q p (.inr hq) (.inl hp) ((not_not.mp heq).trans hc)
      have hreport : ((Act.extractResultFields H W c.result).success ||
          (!(Act.extractResultFields H W c.result).stdout.isEmpty ||
            !(Act.extractResultFields H W c.result).stderr.isEmpty)) = true ↔
          HasReport H W c.result := by
        simp [HasReport]
      rw [← hreport]
      split
      · rename_i hsome
        simp [Answers, actedActions, StageReply.events, LoopStageResult.events, Act.debugOf,
          Act.emitActed, hq, hsome]
      · rename_i hsome
        simp [Answers, actedActions, StageReply.events, LoopStageResult.events, Act.debugOf,
          Act.toolResultOf, hsome]

theorem abortActiveBatch_acted (ctx : LoopContext) :
    actedActions (Act.abortActiveBatch ctx).2 = [] := by
  unfold actedActions
  rw [List.filterMap_eq_nil_iff]
  intro e he
  obtain ⟨reason, rfl⟩ := (Act.abortActiveBatch_keeps ctx).2 e he
  rfl

theorem abortActiveBatch_pendingAct (ctx : LoopContext) :
    (Act.abortActiveBatch ctx).1.pendingAct = ctx.pendingAct := by
  unfold Act.abortActiveBatch
  split <;> rfl

/-- The reply to a failure, by what it reports between the result and the traces of
    the aborted batch. -/
theorem answers_failure_iff {after : LoopContext} {result : ToolResult}
    {acted aborted : List RuntimeEvent} (haborted : actedActions aborted = [])
    (hcleared : after.pendingAct = none) :
    Answers p (StageReply.ok after
        (.emitMany (.toolResult result :: acted ++ aborted))).catchUnwind ↔
      actedActions acted = [p.actionId] := by
  have hevents : (StageReply.ok after
      (.emitMany (.toolResult result :: acted ++ aborted))).catchUnwind.events =
        [.toolResult result] ++ acted ++ aborted := rfl
  have hctx : (StageReply.ok after
      (.emitMany (.toolResult result :: acted ++ aborted))).catchUnwind.ctx = after := rfl
  unfold Answers
  rw [hevents, hctx, actedActions_append, actedActions_append, haborted, hcleared]
  simp [actedActions]

theorem act_failed_answers_iff (h : OneUse H waiting ctx) (hp : p ∈ waiting) (W : World)
    (hf : f.requestId = p.requestId) :
    Answers p (Act.executeFailed H W f ctx).catchUnwind ↔
      ctx.pendingAct = some p ∧ f.error ≠ [] := by
  unfold Act.executeFailed
  split
  · rename_i hnone
    simp [Answers, actedActions, StageReply.events, StageReply.ok, StageReply.catchUnwind,
      LoopStageResult.events, Act.debugOf, Act.violation, hnone]
  · rename_i q hq
    split
    · rename_i hne
      have hother : ctx.pendingAct ≠ some p := by
        rw [hq]
        intro heq
        cases heq
        exact hne hf.symm
      simp [Answers, actedActions, StageReply.events, StageReply.ok, StageReply.catchUnwind,
        LoopStageResult.events, Act.debugOf, Act.violation, hother]
    · rename_i heq
      obtain rfl : q = p := h.same q p (.inr hq) (.inl hp) ((not_not.mp heq).trans hf)
      simp only [hq, true_and]
      split
      · rename_i hpanic
        simp only [Bool.and_eq_true, decide_eq_true_eq] at hpanic
        simp [Answers, actedActions, StageReply.events, StageReply.panic, StageReply.catchUnwind,
          LoopStageResult.events, hpanic.1]
      · have hafter : ∀ after : LoopContext, after.pendingAct = none →
            actedActions (if q.actionKind = .runCommand then Act.abortActiveBatch after
              else ({ after with activeBatchLlmRequestId := none }, [])).2 = [] ∧
            (if q.actionKind = .runCommand then Act.abortActiveBatch after
              else ({ after with activeBatchLlmRequestId := none }, [])).1.pendingAct = none := by
          intro after hnone
          split
          · exact ⟨abortActiveBatch_acted after, (abortActiveBatch_pendingAct after).trans hnone⟩
          · exact ⟨rfl, hnone⟩
        obtain ⟨haborted, hcleared⟩ := hafter
          { ctx with pendingAct := none, drawn := ctx.drawn + 2 } rfl
        apply (answers_failure_iff haborted hcleared).trans
        split
        · rename_i herror
          simp [actedActions, herror]
        · rename_i herror
          simp [actedActions, Act.emitActed, herror]

theorem act_complete_catchUnwind (H : Host) (W : World) (c : CapabilityCompleted)
    (ctx : LoopContext) :
    (Act.executeComplete H W c ctx).catchUnwind = Act.executeComplete H W c ctx := by
  unfold Act.executeComplete
  simp only
  split
  · rfl
  · split <;> rfl

/-- A completion is reported only when it reaches the act stage, which it does only
    while a plan is pending. -/
theorem done_answers_iff (h : OneUse H waiting ctx) (hp : p ∈ waiting) (W : World)
    (hc : c.requestId = p.requestId) :
    Answers p (dispatchCapabilityDone H W c ctx) ↔
      ctx.pendingAct = some p ∧ ctx.pendingPlan.isSome = true ∧ HasReport H W c.result := by
  unfold dispatchCapabilityDone
  simp only [decompose_passes h hp hc]
  cases hplan : ctx.pendingPlan with
  | none =>
    have hswallowed : Plan.executeComplete H W c ctx = .ok ctx (.emit (.debug
        { source := "plan_stage"
          kind := "pending_plan_missing_telemetry"
          payload := .obj [("semantic_violation", .bool true)] })) := by
      simp only [Plan.executeComplete, hplan]
    refine iff_of_false ?_ (by simp)
    rintro ⟨hacted, -⟩
    simp [StageReply.ifNoop, StageReply.ok, StageReply.catchUnwind, StageReply.events, hswallowed,
      actedActions, LoopStageResult.events] at hacted
  | some q =>
    have hact := act_complete_answers_iff h hp W hc
    rw [← act_complete_catchUnwind] at hact
    simp only [Option.isSome_some, true_and]
    rw [← hact]
    have hpass : ((StageReply.ok ctx .noop).ifNoop fun ctx =>
        (Plan.executeComplete H W c ctx).catchUnwind.ifNoop fun ctx =>
          (Act.executeComplete H W c ctx).catchUnwind) =
        (Act.executeComplete H W c ctx).catchUnwind := by
      show ((Plan.executeComplete H W c ctx).catchUnwind.ifNoop fun ctx =>
        (Act.executeComplete H W c ctx).catchUnwind) = _
      rw [plan_passes h hp W hc hplan]
      rfl
    rw [hpass]
    exact Iff.rfl

theorem fail_answers_iff (h : OneUse H waiting ctx) (hp : p ∈ waiting) (W : World)
    (hf : f.requestId = p.requestId) :
    Answers p (dispatchCapabilityFail H W f ctx) ↔ ctx.pendingAct = some p ∧ f.error ≠ [] := by
  rw [← act_failed_answers_iff h hp W hf]
  unfold dispatchCapabilityFail
  rw [plan_failure_passes h hp hf]
  exact Iff.rfl

end Answers

/-! ### Answers nobody waits for -/

/-- No slot holds the request. -/
structure Unmatched (ctx : LoopContext) (id : Text) : Prop where
  act : ∀ p, ctx.pendingAct = some p → p.requestId ≠ id
  plan : ∀ q, ctx.pendingPlan = some q → q.requestId ≠ id
  decompose : ctx.pendingDecomposeRequestId ≠ some id

theorem done_unmatched (H : Host) (W : World) {ctx : LoopContext} {c : CapabilityCompleted}
    (h : Unmatched ctx c.requestId) : (dispatchCapabilityDone H W c ctx).ctx = ctx := by
  have hdecompose : Decompose.executeComplete H c ctx = .ok ctx .noop := if_pos h.decompose
  have hplan : (Plan.executeComplete H W c ctx).ctx = ctx := by
    unfold Plan.executeComplete
    split
    · rfl
    · rename_i q hq
      rw [if_pos (h.plan q hq)]
      rfl
  have hact : (Act.executeComplete H W c ctx).ctx = ctx := by
    unfold Act.executeComplete
    simp only
    split
    · rfl
    · rename_i p hp
      rw [if_pos (h.act p hp)]
  unfold dispatchCapabilityDone
  simp only [hdecompose]
  show ((Plan.executeComplete H W c ctx).catchUnwind.ifNoop fun ctx =>
    (Act.executeComplete H W c ctx).catchUnwind).ctx = ctx
  unfold StageReply.ifNoop
  split
  · simp only [StageReply.catchUnwind_ctx, hplan, hact]
  · rw [StageReply.catchUnwind_ctx, hplan]

theorem fail_unmatched (H : Host) (W : World) {ctx : LoopContext} {f : CapabilityFailed}
    (h : Unmatched ctx f.requestId) : (dispatchCapabilityFail H W f ctx).ctx = ctx := by
  have hplan : Plan.executeFailed H f ctx = .ok ctx .noop := by
    unfold Plan.executeFailed
    split
    · rfl
    · rename_i q hq
      rw [if_pos (h.plan q hq)]
  have hact : (Act.executeFailed H W f ctx).ctx = ctx := by
    unfold Act.executeFailed
    split
    · rfl
    · rename_i p hp
      rw [if_pos (h.act p hp)]
      rfl
  unfold dispatchCapabilityFail
  rw [hplan]
  show (Act.executeFailed H W f ctx).catchUnwind.ctx = ctx
  rw [StageReply.catchUnwind_ctx, hact]

/-! ### Runs -/

/-- After any run, the completion of an action that was sent out and not answered is
    reported exactly when the action is still the pending one, a plan is pending and
    there is something to report; its failure exactly when it is still the pending
    one and the error has a text.  An answer nobody waits for changes nothing. -/
theorem answers_iff (H : Host) (workspace : FilePath) (policy : DestructiveCmdPolicy)
    (acts : List Delivery) (t : TrackedState)
    (ht : t = (trackedMachine H).run (TrackedState.start (LoopContext.new workspace policy)) acts) :
    (∀ p ∈ t.waiting, ∀ (W : World) (c : CapabilityCompleted), c.requestId = p.requestId →
      (Answers p (dispatchCapabilityDone H W c t.loop.ctx) ↔
        t.loop.ctx.pendingAct = some p ∧ t.loop.ctx.pendingPlan.isSome = true ∧
          HasReport H W c.result)) ∧
    (∀ p ∈ t.waiting, ∀ (W : World) (f : CapabilityFailed), f.requestId = p.requestId →
      (Answers p (dispatchCapabilityFail H W f t.loop.ctx) ↔
        t.loop.ctx.pendingAct = some p ∧ f.error ≠ [])) ∧
    (∀ (W : World) (c : CapabilityCompleted), Unmatched t.loop.ctx c.requestId →
      (dispatchCapabilityDone H W c t.loop.ctx).ctx = t.loop.ctx) ∧
    (∀ (W : World) (f : CapabilityFailed), Unmatched t.loop.ctx f.requestId →
      (dispatchCapabilityFail H W f t.loop.ctx).ctx = t.loop.ctx) := by
  have h : OneUse H t.waiting t.loop.ctx := by
    rw [ht]
    exact oneUse_run H workspace policy acts
  refine ⟨?_, ?_, ?_, ?_⟩
  · intro p hp W c hc
    exact done_answers_iff h hp W hc
  · intro p hp W f hf
    exact fail_answers_iff h hp W hf
  · intro W c hc
    exact done_unmatched H W hc
  · intro W f hf
    exact fail_unmatched H W hf

/-! ### An action that is sent out -/

def patchAction : LoopPlanned :=
  { (default : LoopPlanned) with
    tick := 1
    actionKind := .patchFile
    actionPayload := .obj [("path", .str "src/lib.rs"), ("old", .str "a"), ("new", .str "b")]
    actionId := some "patch" }

/-- The action is planned, and the route to `act` sends it out. -/
def patchRun : List Delivery :=
  [.loopPlanned patchAction, .tick 1, .routeSelected (routeTo "act" 1)].map (⟨emptyDir, ·⟩)

def patchState : TrackedState :=
  (trackedMachine tallyHost).run (TrackedState.start (LoopContext.new "/w" .block)) patchRun

def patchPending : PendingAct := Act.pendingOf patchAction "file.patch" "u" "ui" "patch"

theorem patchState_waiting : patchState.waiting = [patchPending] := by
  rfl

def patchDone : CapabilityCompleted :=
  { (default : CapabilityCompleted) with
    requestId := "u"
    result := .process 0 true "patched" [] }

/-- Its failure is reported. -/
theorem patch_failure_answered :
    Answers patchPending (dispatchCapabilityFail tallyHost emptyDir
      { requestId := "u", capability := "file", error := "no such file" } patchState.loop.ctx) := by
  have hwaiting : patchPending ∈ patchState.waiting := by
    rw [patchState_waiting]
    exact List.mem_singleton.mpr rfl
  refine ((answers_iff tallyHost "/w" .block patchRun patchState rfl).2.1 patchPending hwaiting
    emptyDir _ rfl).mpr ⟨?_, ?_⟩
  · rfl
  · decide

/-- Its completion is not: no plan is pending, so the plan stage ends the dispatch. -/
theorem patch_completion_unanswered :
    ¬ ∀ (H : Host) (workspace : FilePath) (policy : DestructiveCmdPolicy) (acts : List Delivery)
        (p : PendingAct) (W : World) (c : CapabilityCompleted),
        p ∈ ((trackedMachine H).run (TrackedState.start (LoopContext.new workspace policy))
          acts).waiting →
        c.requestId = p.requestId →
        Answers p (dispatchCapabilityDone H W c ((trackedMachine H).run
          (TrackedState.start (LoopContext.new workspace policy)) acts).loop.ctx) := by
  intro hall
  have hwaiting : patchPending ∈ patchState.waiting := by
    rw [patchState_waiting]
    exact List.mem_singleton.mpr rfl
  obtain ⟨hacted, -⟩ := hall tallyHost "/w" .block patchRun patchPending emptyDir patchDone hwaiting
    rfl
  have hnone : actedActions
      (dispatchCapabilityDone tallyHost emptyDir patchDone patchState.loop.ctx).events = [] := by
    rfl
  exact absurd (hnone.symm.trans hacted) (by simp)

end Canon.Loop
