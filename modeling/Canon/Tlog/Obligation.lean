import Canon.Tlog.Acceptance

/-! # Required successors

    A control event can leave an obligation: the next control event has to be of
    one kind.  The writer takes an open obligation away in two places without an event that
    meets it: after an event that violates it, and when the event that would meet it fails in
    the append.  The obligation an observation would leave is not opened by the writer, on
    purpose; the transition check stands in for it as long as no effect event hides the
    observation.  In every other run each obligation is met by the next control event of the
    log.
-/

namespace Canon.Tlog

/-- `b` meets the obligation `a` leaves, if it leaves one. -/
def Follows (a b : CanonEvent) : Prop := ∀ req ∈ requiredSuccessor a, Discharges req b

instance : DecidableRel Follows := fun a b =>
  inferInstanceAs (Decidable (∀ req ∈ requiredSuccessor a, Discharges req b))

/-! ### Calls that lose an obligation -/

/-- An event gets past the checks in front of the obligation. -/
structure ComesToObligation (env : Env) (w : Writer) (event : CanonEvent) : Prop where
  retry : checkInvalidRetry env w event = none
  valid : validateEvent event = .ok ()
  transition : transitionError w event = none

instance (env : Env) (w : Writer) (event : CanonEvent) :
    Decidable (ComesToObligation env w event) :=
  decidable_of_iff
    (checkInvalidRetry env w event = none ∧ (validateEvent event).toOption = some () ∧
      (transitionError w event).isNone = true)
    (by
      rw [validateEvent_toOption, Option.isNone_iff_eq_none]
      exact ⟨fun ⟨h₁, h₂, h₃⟩ => ⟨h₁, h₂, h₃⟩, fun h => ⟨h.retry, h.valid, h.transition⟩⟩)

/-- The verdict takes the obligation away without an event that meets it: the violation goes on
    record, or the event that would meet it lies behind the clock of the writer. -/
def PendingVerdict.Loses (env : Env) (w : Writer) (call : CanonEvent × Surroundings) :
    PendingVerdict → Prop
  | .violated req => OnRecord env call.2 w call.1 (some req.parent) ∨ w.lastTs ≤ call.2.now
  | .discharged => call.1.ts < w.lastTs
  | .untouched => False

instance (env : Env) (w : Writer) (call : CanonEvent × Surroundings) (verdict : PendingVerdict) :
    Decidable (verdict.Loses env w call) :=
  match verdict with
  | .violated _ => inferInstanceAs (Decidable (_ ∨ _))
  | .discharged => inferInstanceAs (Decidable (_ < _))
  | .untouched => inferInstanceAs (Decidable False)

def LosesObligation (env : Env) (w : Writer) (call : CanonEvent × Surroundings) : Prop :=
  ComesToObligation env w call.1 ∧ (checkPending w.pending call.1).Loses env w call

instance (env : Env) (w : Writer) (call : CanonEvent × Surroundings) :
    Decidable (LosesObligation env w call) :=
  inferInstanceAs (Decidable (_ ∧ _))

/-- The last control event is an observation that an effect event hides from the transition
    check, and the call comes with a control event other than a route selection. -/
def SlipsPastObservation (env : Env) (s : LogState) (w : Writer) (event : CanonEvent) : Prop :=
  ComesToObligation env w event ∧ event.isControl = true ∧ event.kind ≠ .routeSelected ∧
    (lastControl s.log).map (·.kind) = some .loopObserved ∧
    s.log.getLast?.map CanonEvent.isControl = some false

instance (env : Env) (s : LogState) (w : Writer) (event : CanonEvent) :
    Decidable (SlipsPastObservation env s w event) :=
  inferInstanceAs (Decidable (_ ∧ _))

def KeepsObligations (env : Env) (s : LogState) (call : CanonEvent × Surroundings) : Prop :=
  ∀ w ∈ s.writer, ¬ LosesObligation env w call ∧ ¬ SlipsPastObservation env s w call.1

instance (env : Env) (s : LogState) (call : CanonEvent × Surroundings) :
    Decidable (KeepsObligations env s call) :=
  inferInstanceAs (Decidable (∀ w ∈ s.writer, _))

section Call

variable {env : Env} {sur : Surroundings} {dir : Dir} {w : Writer} {event : CanonEvent}
  {message : String}

/-- A report that is new and late ends the call before the obligation is dropped. -/
theorem violated_kept {parent : Option String} (hrecord : ¬ OnRecord env sur w event parent)
    (hlate : ¬ w.lastTs ≤ sur.now) (f : Option PendingTransition → Option PendingTransition) :
    ((recordRejectedEdgeWith (writeCanonEventInner env.serde) env sur false dir w event message
        parent).andThen fun dir w =>
          .fail dir { w with pending := f w.pending } message).writer.pending = w.pending := by
  rw [recordRejectedEdgeWith_of_not_onRecord hrecord]
  generalize (w.rejectedEdges.insertIfNew _).2 = edges
  have hnot : ¬ Accepts { w with rejectedEdges := edges }
      (buildInvariantViolationEventWithParent sur event message
        (parent.getD (event.parentIds.head?.getD sur.parentId))) := by
    rw [accepts_iff_of_nonNull ⟨rfl, rfl, rfl⟩]
    exact hlate
  obtain ⟨error, hr⟩ := writeCanonEventInner_of_not_accepts hnot env.serde false dir
  rw [hr]
  rfl

/-- A call that returns an error keeps the obligation, unless it loses it. -/
theorem pending_kept (hkeeps : ¬ LosesObligation env w (event, sur))
    (herr : (writeCanonEvent env sur dir w event).outcome = .err message) :
    (writeCanonEvent env sur dir w event).writer.pending = w.pending := by
  have hshape := writeCanonEvent_shape env sur dir w event
  generalize writeCanonEvent env sur dir w event = r at hshape herr ⊢
  cases hshape with
  | refused held text parent f why =>
    have hkept : (recordRejectedEdge env sur held dir w event text parent).writer.pending =
        w.pending := (recordRejectedEdge_end env sur held dir w event text parent).2
    cases why with
    | violated retry valid legal failed =>
      rw [LosesObligation, failed] at hkeeps
      obtain ⟨hnew, hlate⟩ := not_or.mp fun h => hkeeps ⟨⟨retry, valid, legal⟩, h⟩
      exact violated_kept hnew hlate fun _ => none
    | _ =>
      unfold WriteResult.andThen
      split <;> exact hkept
  | remembered passes suppressed => cases herr
  | append w' touched passes unsuppressed =>
    rw [persistWith_inner] at herr ⊢
    by_cases hacc : Accepts w' event
    · rw [persist_of_accepts hacc] at herr
      cases herr
    · have hpending : (persist env dir w' event).writer.pending = w'.pending := by
        obtain ⟨error, hr⟩ := writeCanonEventInner_of_not_accepts hacc env.serde false dir
        rw [persist, persistWith, hr]
        rfl
      rw [hpending]
      cases touched with
      | discharge answers =>
        rw [accepts_iff_of_nonNull (nonNull_of_valid passes.valid), not_le] at hacc
        rw [LosesObligation, answers] at hkeeps
        exact absurd ⟨⟨passes.retry, passes.valid, passes.transition⟩, hacc⟩ hkeeps
      | remember => rfl
      | plain => rfl

end Call

/-! ### Runs -/

structure ObligationInv (s : LogState) : Prop where
  chain : ControlChain Follows s.log
  slot : ∀ w, s.writer = some w → s.log = [] ∨ w.lastEvent = s.log.getLast?
  pending : ∀ w a, s.writer = some w → lastControl s.log = some a → a.kind ≠ .loopObserved →
    w.pending = requiredSuccessor a

theorem ObligationInv.initial (env : Env) (dir : Dir) (config : SegmentConfig) :
    ObligationInv (.opened env dir config) where
  chain := List.isChain_nil
  slot := fun _ _ => .inl rfl
  pending := by
    intro w a _ ha
    cases ha

/-- What an observation asks for is all that the transition check lets pass after it. -/
theorem follows_of_observed {a b : CanonEvent} (ha : a.kind = .loopObserved)
    (hb : b.kind = .routeSelected) : Follows a b := by
  intro req hreq
  have hexpected : req.expected ∈ a.kind.allowedNext := requiredSuccessor_mem_allowedNext hreq
  rw [ha] at hexpected
  exact .inl (hb.trans (List.mem_singleton.mp hexpected).symm)

/-- A control event that is persisted meets what the last control event asks for. -/
theorem ObligationInv.follows {env : Env} {s : LogState} (h : ObligationInv s) {w : Writer}
    (hw : s.writer = some w) {event : CanonEvent} (hctl : event.isControl = true)
    (hpasses : PassesChecks env w event) (hguard : ¬ SlipsPastObservation env s w event)
    {a : CanonEvent} (ha : lastControl s.log = some a) : Follows a event := by
  by_cases hobs : a.kind = .loopObserved
  · apply follows_of_observed hobs
    by_contra hkind
    have hcomes : ComesToObligation env w event :=
      ⟨hpasses.retry, hpasses.valid, hpasses.transition⟩
    -- The observation is still the last event, so the transition check has seen it.
    obtain ⟨last, hlast⟩ : ∃ last, s.log.getLast? = some last := by
      cases hlast : s.log.getLast? with
      | none =>
        rw [List.getLast?_eq_none_iff.mp hlast] at ha
        cases ha
      | some last => exact ⟨last, rfl⟩
    have hlastctl : last.isControl = true := by
      by_contra heffect
      refine hguard ⟨hcomes, hctl, hkind, by simp [ha, hobs], ?_⟩
      simpa [hlast] using heffect
    rw [lastControl_of_getLast? hlast hlastctl] at ha
    obtain rfl := Option.some.inj ha
    have hslot : w.lastEvent = some last := by
      rcases h.slot w hw with hnil | hslot
      · simp [hnil] at hlast
      · rw [hslot, hlast]
    have hok : validateTransition last event = .ok () := by
      have htransition := hpasses.transition
      simp only [transitionError, hslot] at htransition
      split at htransition
      · assumption
      · cases htransition
    have hmem := validateTransition_ok_iff.mp hok hlastctl hctl
    rw [hobs] at hmem
    exact hkind (List.mem_singleton.mp hmem)
  · intro req hreq
    -- The open obligation is the one of `a`.
    have hallowed := hpasses.pending
    rw [h.pending w a hw ha hobs, Option.mem_def.mp hreq] at hallowed
    exact discharges_of_not_violated hctl hallowed

theorem ObligationInv.step {env : Env} {s : LogState} (h : ObligationInv s)
    {call : CanonEvent × Surroundings} (hguard : KeepsObligations env s call) :
    ObligationInv ((gateMachine env).step s call) := by
  cases hw : s.writer with
  | none =>
    rw [gateMachine_idle _ hw]
    exact h
  | some w =>
    obtain ⟨hkeeps, hseen⟩ := hguard w hw
    rcases gate_step_cases env hw call with hstep | hstep
    · obtain ⟨hctl, hpasses, hlog, w', hw', hlast', hpend'⟩ := hstep
      have hctl' : (normalizeDelta call.1).isControl = true := by simpa using hctl
      refine ⟨?_, ?_, ?_⟩
      · rw [hlog]
        apply h.chain.append_control hctl'
        intro a ha req hreq
        exact discharges_normalizeDelta.mpr (h.follows hw hctl hpasses hseen ha req hreq)
      · intro w'' hw''
        obtain rfl : w' = w'' := Option.some.inj (hw'.symm.trans hw'')
        rw [hlog, hlast', List.getLast?_concat]
        exact .inr rfl
      -- The event just persisted is the last control event now.
      · intro w'' a hw'' ha hobs
        obtain rfl : w' = w'' := Option.some.inj (hw'.symm.trans hw'')
        rw [hlog, lastControl_append_control _ hctl'] at ha
        obtain rfl := Option.some.inj ha
        rw [normalizeDelta_kind] at hobs
        rw [hpend', pendingAfter, if_neg hobs, normalizeDelta_requiredSuccessor,
          if_pos (by simpa [CanonEvent.isControl] using hctl)]
    · refine ⟨?_, ?_, ?_⟩
      · rw [ControlChain, hstep.controls]
        exact h.chain
      · intro w' hw'
        rcases hstep.slot w' hw' with hslot | ⟨hsame, hlog⟩
        · exact .inr hslot
        · rw [hsame, hlog]
          exact h.slot w hw
      · intro w' a hw' ha hobs
        rw [lastControl, hstep.controls] at ha
        -- The last control event is the same as before.
        have hbefore := h.pending w a hw ha hobs
        rcases hstep.pending w' hw' with hsame | ⟨hnone, -, message, herr⟩
        · rw [hsame, hbefore]
        · have hkept := pending_kept hkeeps herr
          have hwriter : w' = (writeCanonEvent env call.2 s.dir w call.1).writer := by
            simp only [gateMachine, hw, herr, reduceCtorEq, if_false] at hw'
            exact (Option.some.inj hw').symm
          rw [hwriter, hkept, hbefore]

/-- **Required successors.**  In every run whose calls keep the obligations, each control event
    of the log is followed, as the next control event, by one that meets its obligation. -/
theorem required_successor_follows (env : Env) (dir : Dir) (config : SegmentConfig)
    (calls : List (CanonEvent × Surroundings))
    (hguard : (gateMachine env).Along (KeepsObligations env) (.opened env dir config) calls)
    (before : List (CanonEvent × Surroundings)) (hbefore : before <+: calls) :
    ControlChain Follows ((gateMachine env).run (.opened env dir config) before).log := by
  obtain ⟨after, rfl⟩ := hbefore
  have hinv := (gateMachine env).run_invariant_of_along (G := KeepsObligations env)
    (I := ObligationInv) (fun _ _ h hg => h.step hg) (ObligationInv.initial env dir config)
    ((Machine.along_append _ _ _ _ _).mp hguard).1
  exact hinv.chain

/-! ### Sample runs -/

/-- An act without an id is refused while the route waits for an observation. -/
theorem required_successor_follows_observe :
    ControlChain Follows ((gateMachine chainEnv).run freshChain (callsOf
      [sampleEvent "route-1" .routeSelected 1 (.obj [("approved_route", .str "observe")]),
       sampleEvent "" .loopActed 2 (.obj []),
       sampleEvent "obs-1" .loopObserved 3 (.obj [])])).log :=
  required_successor_follows chainEnv Dir.empty .default _ (by decide +kernel) _ List.prefix_rfl

/-- An act that was refused after a route to `observe` is taken at the second try. -/
theorem required_successor_missed :
    ¬ ControlChain Follows ((gateMachine chainEnv).run freshChain (callsOf
        [sampleEvent "route-1" .routeSelected 1 (.obj [("approved_route", .str "observe")]),
         sampleEvent "act-1" .loopActed 4 (.obj []),
         sampleEvent "act-2" .loopActed 6 (.obj [])])).log := by
  decide +kernel

end Canon.Tlog
