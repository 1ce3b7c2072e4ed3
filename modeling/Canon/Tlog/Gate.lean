import Canon.Tlog.Writer

/-! # What one gated write can do

    `write_canon_event` has many ways through it, but few ends: it appends
    nothing, it appends the report of a rejected event, or it appends the event
    itself.  `writeCanonEvent_end` says so once, with what each end does to the
    writer; the properties of runs are derived from it.
-/

namespace Canon.Tlog

variable {parent : Option String} {w : Writer} {env : Env} (event : CanonEvent)

/-! ### Normalisation -/

theorem normalizeDelta_requiredSuccessor :
    requiredSuccessor (normalizeDelta event) = requiredSuccessor event := by
  unfold normalizeDelta
  split <;> rfl

@[simp] theorem normalizeDelta_isControl :
    (normalizeDelta event).isControl = event.isControl := by
  simp [CanonEvent.isControl]

/-! ### The ends of a call -/

/-- Nothing was appended. -/
structure Unwritten (dir : Dir) (w : Writer) (r : WriteResult) : Prop where
  dir_eq : r.dir = dir
  config : r.writer.config = w.config
  seq : r.writer.seq = w.seq
  files : r.writer.files = w.files
  lastEvent : r.writer.lastEvent = w.lastEvent
  wrote : r.wrote = []

/-- The one record of `e` was appended. -/
structure AppendedOne (S : Serde) (dir : Dir) (w : Writer) (e : CanonEvent)
    (r : WriteResult) : Prop where
  dir_eq : r.dir = (appended S dir w e).dir
  config : r.writer.config = w.config
  seq : r.writer.seq = w.seq + 1
  files : r.writer.files = (appended S dir w e).files
  wrote : r.wrote = [normalizeDelta e]

/-- The obligation after a call that did not persist its event: a control event
    that is refused can take it away. -/
def PendingAfterRefusal (w : Writer) (event : CanonEvent) (r : WriteResult) : Prop :=
  r.writer.pending = w.pending ∨
    r.writer.pending = none ∧ event.isControl = true ∧ r.outcome ≠ .ok

/-- The obligation after `event` was persisted. -/
def pendingAfter (pending : Option PendingTransition) (event : CanonEvent) :
    Option PendingTransition :=
  if event.kind = .loopObserved then none
  else if event.kind.eventClass = .control then requiredSuccessor event
  else pending

/-- Every check in front of the append lets the event pass. -/
structure PassesChecks (env : Env) (w : Writer) (event : CanonEvent) : Prop where
  retry : checkInvalidRetry env w event = none
  valid : validateEvent event = .ok ()
  transition : transitionError w event = none
  pending : ∀ req, checkPending w.pending event ≠ .violated req

inductive WriteEnd (env : Env) (dir : Dir) (w : Writer) (event : CanonEvent)
    (r : WriteResult) : Prop where
  | nothing (unwritten : Unwritten dir w r) (live : r.outcome ≠ .stuck)
      (pending : PendingAfterRefusal w event r)
  | reported (violation : CanonEvent) (kind : violation.kind = .code)
      (append : AppendedOne env.serde dir w violation r)
      (lastEvent : r.outcome ≠ .stuck → r.writer.lastEvent = some (normalizeDelta violation))
      (pending : PendingAfterRefusal w event r)
      (refused : r.outcome ≠ .ok)
  | persisted (append : AppendedOne env.serde dir w event r)
      (passes : PassesChecks env w event)
      (lastEvent : r.writer.lastEvent = some (normalizeDelta event))
      (pending : r.writer.pending = pendingAfter w.pending event)
      (outcome : r.outcome = .ok)

/-! ### Reports -/

theorem insertIfNew_fst {α : Type} [DecidableEq α] (c : DedupCache α) (h : α) :
    (c.insertIfNew h).1 = true ↔ h ∉ c.seen := by
  unfold DedupCache.insertIfNew
  by_cases hseen : h ∈ c.seen
  · simp [hseen]
  · rw [if_neg hseen]
    simp only [hseen, not_false_eq_true, iff_true]
    split
    · split <;> rfl
    · rfl

/-- There is nothing to report: the event is a report itself, or its edge is on record. -/
def OnRecord (env : Env) (sur : Surroundings) (w : Writer) (event : CanonEvent)
    (parent : Option String) : Prop :=
  isInvariantViolationEvent event = true ∨
    rejectedEdge env event (parent.getD (event.parentIds.head?.getD sur.parentId)) ∈
      w.rejectedEdges.seen

instance (env : Env) (sur : Surroundings) (w : Writer) (event : CanonEvent)
    (parent : Option String) : Decidable (OnRecord env sur w event parent) :=
  inferInstanceAs (Decidable (_ ∨ _))

theorem recordRejectedEdgeWith_of_onRecord {sur : Surroundings} {event : CanonEvent}
    (h : OnRecord env sur w event parent) (inner : Bool → Dir → Writer → CanonEvent → WriteResult)
    (held : Bool) (dir : Dir) (message : String) :
    recordRejectedEdgeWith inner env sur held dir w event message parent = .done dir w := by
  rcases h with hviolation | hseen
  · exact if_pos hviolation
  · unfold recordRejectedEdgeWith
    split
    · rfl
    · simp only [DedupCache.insertIfNew, if_pos hseen, Bool.false_eq_true, if_false]

/-- What is new on record is written by the raw append. -/
theorem recordRejectedEdgeWith_of_not_onRecord {sur : Surroundings} {event : CanonEvent}
    (h : ¬ OnRecord env sur w event parent) (inner : Bool → Dir → Writer → CanonEvent → WriteResult)
    (held : Bool) (dir : Dir) (message : String) :
    let from' := parent.getD (event.parentIds.head?.getD sur.parentId)
    recordRejectedEdgeWith inner env sur held dir w event message parent =
      inner held dir
        { w with
          rejectedEdges := (w.rejectedEdges.insertIfNew (rejectedEdge env event from')).2 }
        (buildInvariantViolationEventWithParent sur event message from') := by
  intro from'
  rw [OnRecord, not_or] at h
  unfold recordRejectedEdgeWith
  rw [if_neg h.1]
  exact if_pos ((insertIfNew_fst _ _).mpr h.2)

/-- The end of a report, before the caller turns it into its own error. -/
inductive ReportEnd (env : Env) (dir : Dir) (w : Writer) (r : WriteResult) :
    Prop where
  | nothing (unwritten : Unwritten dir w r) (live : r.outcome ≠ .stuck)
  | reported (violation : CanonEvent) (kind : violation.kind = .code)
      (append : AppendedOne env.serde dir w violation r)
      (lastEvent : r.outcome ≠ .stuck → r.writer.lastEvent = some (normalizeDelta violation))

theorem recordRejectedEdge_end (env : Env) (sur : Surroundings) (held : Bool) (dir : Dir)
    (w : Writer) (event : CanonEvent) (message : String) (parent : Option String) :
    ReportEnd env dir w (recordRejectedEdge env sur held dir w event message parent) ∧
      (recordRejectedEdge env sur held dir w event message parent).writer.pending = w.pending := by
  unfold recordRejectedEdge
  by_cases hrecord : OnRecord env sur w event parent
  · rw [recordRejectedEdgeWith_of_onRecord hrecord]
    exact ⟨.nothing ⟨rfl, rfl, rfl, rfl, rfl, rfl⟩ (by simp [WriteResult.done]), rfl⟩
  · rw [recordRejectedEdgeWith_of_not_onRecord hrecord]
    -- Which parent is named does not matter below, only the kind of the report.
    generalize parent.getD (event.parentIds.head?.getD sur.parentId) = from'
    generalize hv : buildInvariantViolationEventWithParent sur event message from' = violation
    have hkind : violation.kind = .code := by rw [← hv]; rfl
    generalize (w.rejectedEdges.insertIfNew (rejectedEdge env event from')).2 = edges
    -- A clock that ran backwards leaves no report.
    by_cases hacc : Accepts { w with rejectedEdges := edges } violation
    · rw [writeCanonEventInner_of_accepts hacc]
      refine ⟨.reported violation hkind ⟨rfl, rfl, rfl, rfl, rfl⟩ ?_, rfl⟩
      cases held <;> simp
    · obtain ⟨message', hr⟩ :=
        writeCanonEventInner_of_not_accepts hacc env.serde held dir
      rw [hr]
      exact ⟨.nothing ⟨rfl, rfl, rfl, rfl, rfl, rfl⟩ (by simp [WriteResult.fail]), rfl⟩

/-- A report followed by the caller's error.  `f` is what the caller still does to
    the obligation. -/
theorem ReportEnd.andThen_fail {dir : Dir} {r : WriteResult} (h : ReportEnd env dir w r)
    (hpend : r.writer.pending = w.pending) {event : CanonEvent}
    (f : Option PendingTransition → Option PendingTransition)
    (hf : ∀ p, f p = p ∨ f p = none ∧ event.isControl = true) (err : String) :
    WriteEnd env dir w event
      (r.andThen fun dir w => .fail dir { w with pending := f w.pending } err) := by
  obtain ⟨rdir, rw', outcome, wrote⟩ := r
  cases outcome with
  | ok =>
    have hpending : PendingAfterRefusal w event
        { dir := rdir, writer := { rw' with pending := f rw'.pending }, outcome := .err err,
          wrote := wrote ++ [] } := by
      simp only at hpend
      rcases hf rw'.pending with hkeep | ⟨hdrop, hctl⟩
      · exact .inl (hkeep.trans hpend)
      · exact .inr ⟨hdrop, hctl, by simp⟩
    cases h with
    | nothing hu hlive =>
      obtain ⟨hd, hc, hs, hfi, hl, hw⟩ := hu
      exact .nothing
        ⟨hd, hc, hs, hfi, hl, by simpa [WriteResult.fail, WriteResult.andThen] using hw⟩
        (by simp [WriteResult.fail, WriteResult.andThen]) hpending
    | reported v hkind ha hl =>
      obtain ⟨hd, hc, hs, hfi, hw⟩ := ha
      exact .reported v hkind
        ⟨hd, hc, hs, hfi, by simpa [WriteResult.fail, WriteResult.andThen] using hw⟩
        (fun _ => hl (by simp)) hpending (by simp [WriteResult.fail, WriteResult.andThen])
  | err message =>
    cases h with
    | nothing hu hlive => exact .nothing hu hlive (.inl hpend)
    | reported v hkind ha hl =>
      exact .reported v hkind ha hl (.inl hpend) (by simp [WriteResult.andThen])
  -- A report that never returns is on disk, and the caller does nothing more.
  | stuck =>
    cases h with
    | nothing hu hlive => exact absurd rfl hlive
    | reported v hkind ha hl =>
      exact .reported v hkind ha hl (.inl hpend) (by simp [WriteResult.andThen])

/-! ### Persisting -/

theorem persistWith_inner (env : Env) (dir : Dir) (w : Writer) (event : CanonEvent) :
    persistWith (writeCanonEventInner env.serde) dir w event = persist env dir w event := rfl

/-- Only a control event meets or violates the obligation. -/
theorem isControl_of_ne_untouched {pending : Option PendingTransition} {event : CanonEvent}
    (h : checkPending pending event ≠ .untouched) : event.isControl = true := by
  cases hctl : event.kind.eventClass with
  | control => simp [CanonEvent.isControl, hctl]
  | effect => cases pending <;> simp [checkPending, hctl] at h

/-- An event that the raw append takes is on disk, and its obligation is open. -/
theorem persist_of_accepts {event : CanonEvent} (h : Accepts w event) (dir : Dir) :
    persist env dir w event =
      { dir := (appended env.serde dir w event).dir
        writer :=
          { w with
            lastTs := max w.lastTs event.ts
            seq := w.seq + 1
            files := (appended env.serde dir w event).files
            lastEvent := some (normalizeDelta event)
            pending := pendingAfter w.pending event }
        outcome := .ok
        wrote := [normalizeDelta event] } := by
  rw [persist, persistWith, writeCanonEventInner_of_accepts h]
  simp only [WriteResult.andThen, Bool.false_eq_true, if_false, pendingAfter]
  split
  · rfl
  · split <;> rfl

theorem persist_end {dir : Dir} {event : CanonEvent} (passes : PassesChecks env w event)
    (w' : Writer) (hw' : w' = { w with pending := w'.pending, dedup := w'.dedup })
    (hpend : w'.pending = w.pending ∨ w'.pending = none ∧ event.isControl = true) :
    WriteEnd env dir w event (persist env dir w' event) := by
  by_cases hacc : Accepts w' event
  -- `w'` differs from `w` in slots the append does not read.
  · have happ : appended env.serde dir w' event = appended env.serde dir w event := by
      rw [hw']
      rfl
    rw [persist_of_accepts hacc, happ]
    refine .persisted ⟨rfl, ?_, ?_, rfl, rfl⟩ passes rfl ?_ rfl
    · rw [hw']
    · rw [hw']
    · show pendingAfter w'.pending event = pendingAfter w.pending event
      rcases hpend with h | ⟨-, hctl⟩
      · rw [h]
      -- A control event sets the obligation anew, whatever was there before.
      · have hclass : event.kind.eventClass = .control := by
          simpa [CanonEvent.isControl] using hctl
        simp [pendingAfter, hclass]
  · obtain ⟨message, hr⟩ := writeCanonEventInner_of_not_accepts hacc env.serde false dir
    have hpersist : persist env dir w' event =
        .fail dir { w' with lastTs := max w'.lastTs event.ts } message := by
      rw [persist, persistWith, hr]
      rfl
    rw [hpersist]
    refine .nothing ⟨rfl, ?_, ?_, ?_, ?_, rfl⟩ (by simp [WriteResult.fail]) ?_
    · rw [hw']; rfl
    · rw [hw']; rfl
    · rw [hw']; rfl
    · rw [hw']; rfl
    · rcases hpend with h | ⟨h, hctl⟩
      · exact .inl h
      · exact .inr ⟨h, hctl, by simp [WriteResult.fail]⟩

/-! ### The whole gate -/

/-- The event is an effect that the writer remembers. -/
def Suppressed (env : Env) (w : Writer) (event : CanonEvent) : Prop :=
  event.kind.eventClass ≠ .control ∧ eventContentHash env event ∈ w.dedup.seen

instance (env : Env) (w : Writer) (event : CanonEvent) : Decidable (Suppressed env w event) :=
  inferInstanceAs (Decidable (_ ∧ _))

theorem validateEvent_toOption :
    (validateEvent event).toOption = some () ↔ validateEvent event = .ok () := by
  cases validateEvent event <;> simp [Except.toOption]

def PendingVerdict.isViolated : PendingVerdict → Bool
  | .violated _ => true
  | _ => false

theorem isViolated_eq_false (verdict : PendingVerdict) :
    verdict.isViolated = false ↔ ∀ req, verdict ≠ .violated req := by
  cases verdict <;> simp [PendingVerdict.isViolated]

instance (env : Env) (w : Writer) (event : CanonEvent) : Decidable (PassesChecks env w event) :=
  decidable_of_iff
    (checkInvalidRetry env w event = none ∧ (validateEvent event).toOption = some () ∧
      (transitionError w event).isNone = true ∧
      PendingVerdict.isViolated (checkPending w.pending event) = false)
    (by
      rw [validateEvent_toOption, Option.isNone_iff_eq_none, isViolated_eq_false]
      exact ⟨fun ⟨h₁, h₂, h₃, h₄⟩ => ⟨h₁, h₂, h₃, h₄⟩,
        fun h => ⟨h.retry, h.valid, h.transition, h.pending⟩⟩)

instance (w : Writer) (event : CanonEvent) : Decidable (Accepts w event) :=
  inferInstanceAs (Decidable (_ ∧ _))

/-- Why an event is refused, with the report made of it and what becomes of the obligation. -/
inductive Refusal (env : Env) (w : Writer) (event : CanonEvent) : Bool → String →
    Option String → (Option PendingTransition → Option PendingTransition) → Prop where
  | retry {err : String} (blocked : checkInvalidRetry env w event = some err) :
      Refusal env w event false err event.parentIds.head? id
  | invalid {err : String} (retry : checkInvalidRetry env w event = none)
      (failed : validateEvent event = .error err) : Refusal env w event false err none id
  | illegal {err : String} {prev : CanonEvent} (retry : checkInvalidRetry env w event = none)
      (valid : validateEvent event = .ok ()) (failed : transitionError w event = some (err, prev)) :
      Refusal env w event true err (some prev.id) id
  | violated {req : PendingTransition} (retry : checkInvalidRetry env w event = none)
      (valid : validateEvent event = .ok ()) (legal : transitionError w event = none)
      (failed : checkPending w.pending event = .violated req) :
      Refusal env w event false (missingSuccessorMessage req event) (some req.parent)
        (fun _ => none)

theorem Refusal.fails {event : CanonEvent} {held : Bool} {message : String}
    {f : Option PendingTransition → Option PendingTransition}
    (h : Refusal env w event held message parent f) : ¬ PassesChecks env w event := by
  intro hpass
  cases h with
  | retry blocked => simp [hpass.retry] at blocked
  | invalid _ failed => simp [hpass.valid] at failed
  | illegal _ _ failed => simp [hpass.transition] at failed
  | violated _ _ _ failed => exact hpass.pending _ failed

/-- Only a violation drops the obligation. -/
theorem Refusal.drops {event : CanonEvent} {held : Bool} {message : String}
    {f : Option PendingTransition → Option PendingTransition}
    (h : Refusal env w event held message parent f) (p : Option PendingTransition) :
    f p = p ∨ f p = none ∧ event.isControl = true := by
  cases h with
  | violated _ _ _ failed =>
    have hne : checkPending w.pending event ≠ .untouched := by simp [failed]
    exact .inr ⟨rfl, isControl_of_ne_untouched hne⟩
  | _ => exact .inl rfl

/-- What the gate has changed when it comes to the append: the obligation that `event` answers is
    gone, and an effect event is remembered. -/
inductive Touched (env : Env) (w : Writer) (event : CanonEvent) : Writer → Prop where
  | discharge (answers : checkPending w.pending event = .discharged) :
      Touched env w event { w with pending := none }
  | remember (effect : event.kind.eventClass ≠ .control)
      (new : eventContentHash env event ∉ w.dedup.seen) :
      Touched env w event
        { w with dedup := (w.dedup.insertIfNew (eventContentHash env event)).2 }
  | plain (control : event.kind.eventClass = .control)
      (untouched : checkPending w.pending event = .untouched) : Touched env w event w

theorem Touched.same {w w' : Writer} {event : CanonEvent} (h : Touched env w event w') :
    w' = { w with pending := w'.pending, dedup := w'.dedup } := by
  cases h <;> rfl

theorem Touched.pending {w w' : Writer} {event : CanonEvent} (h : Touched env w event w') :
    w'.pending = w.pending ∨ w'.pending = none ∧ event.isControl = true := by
  cases h with
  | discharge answers =>
    have hne : checkPending w.pending event ≠ .untouched := by simp [answers]
    exact .inr ⟨rfl, isControl_of_ne_untouched hne⟩
  | _ => exact .inl rfl

/-- The ways through the gate, in front of the raw append `inner`. -/
inductive GateShape (inner : Bool → Dir → Writer → CanonEvent → WriteResult) (env : Env)
    (sur : Surroundings) (dir : Dir) (w : Writer) (event : CanonEvent) : WriteResult → Prop where
  /-- A report and an error; `f` is what happens to the obligation. -/
  | refused (held : Bool) (message : String) (parent : Option String)
      (f : Option PendingTransition → Option PendingTransition)
      (why : Refusal env w event held message parent f) :
      GateShape inner env sur dir w event
        ((recordRejectedEdgeWith inner env sur held dir w event message parent).andThen
          fun dir w => .fail dir { w with pending := f w.pending } message)
  | remembered (passes : PassesChecks env w event) (suppressed : Suppressed env w event) :
      GateShape inner env sur dir w event (.done dir w)
  /-- `w'` is the writer with the obligation or the cache updated. -/
  | append (w' : Writer) (touched : Touched env w event w') (passes : PassesChecks env w event)
      (unsuppressed : ¬ Suppressed env w event) :
      GateShape inner env sur dir w event (persistWith inner dir w' event)

theorem writeCanonEventWith_shape (inner : Bool → Dir → Writer → CanonEvent → WriteResult)
    (env : Env) (sur : Surroundings) (dir : Dir) (w : Writer) (event : CanonEvent) :
    GateShape inner env sur dir w event (writeCanonEventWith inner env sur dir w event) := by
  unfold writeCanonEventWith
  cases hretry : checkInvalidRetry env w event with
  | some err => exact .refused false err _ id (.retry hretry)
  | none =>
    cases hvalid : validateEvent event with
    | error err => exact .refused false err none id (.invalid hretry hvalid)
    | ok u =>
      cases htrans : transitionError w event with
      | some bad => exact .refused true bad.1 (some bad.2.id) id (.illegal hretry hvalid htrans)
      | none =>
        cases hverdict : checkPending w.pending event with
        | violated req =>
          -- The one that also drops the obligation.
          exact .refused false _ (some req.parent) (fun _ => none)
            (.violated hretry hvalid htrans hverdict)
        | discharged =>
          have hne : checkPending w.pending event ≠ .untouched := by simp [hverdict]
          have hctl := isControl_of_ne_untouched hne
          refine .append _ (.discharge hverdict) ⟨hretry, hvalid, htrans, by simp [hverdict]⟩ ?_
          rintro ⟨hclass, -⟩
          exact hclass (by simpa [CanonEvent.isControl] using hctl)
        | untouched =>
          have hpass : PassesChecks env w event := ⟨hretry, hvalid, htrans, by simp [hverdict]⟩
          simp only [dedupAndPersistWith]
          split
          · rename_i hclass
            split
            · rename_i hnew
              rw [insertIfNew_fst] at hnew
              exact .append _ (.remember hclass hnew) hpass fun hsuppressed => hnew hsuppressed.2
            · rename_i hold
              rw [insertIfNew_fst, not_not] at hold
              exact .remembered hpass ⟨hclass, hold⟩
          · rename_i hclass
            rw [not_not] at hclass
            exact .append _ (.plain hclass hverdict) hpass fun hsuppressed => hsuppressed.1 hclass

theorem writeCanonEvent_shape (env : Env) (sur : Surroundings) (dir : Dir) (w : Writer)
    (event : CanonEvent) :
    GateShape (writeCanonEventInner env.serde) env sur dir w event
      (writeCanonEvent env sur dir w event) :=
  writeCanonEventWith_shape _ env sur dir w event

/-- Every call of `write_canon_event` ends in one of the three ways. -/
theorem writeCanonEvent_end (env : Env) (sur : Surroundings) (dir : Dir) (w : Writer)
    (event : CanonEvent) : WriteEnd env dir w event (writeCanonEvent env sur dir w event) := by
  have hshape := writeCanonEvent_shape env sur dir w event
  generalize writeCanonEvent env sur dir w event = r at hshape ⊢
  cases hshape with
  | refused held message parent f why =>
    have h := recordRejectedEdge_end env sur held dir w event message parent
    exact h.1.andThen_fail h.2 f why.drops message
  | remembered passes suppressed =>
    exact .nothing ⟨rfl, rfl, rfl, rfl, rfl, rfl⟩ (by simp [WriteResult.done]) (.inl rfl)
  | append w' touched passes unsuppressed =>
    exact persist_end passes w' touched.same touched.pending

/-- A call writes the event or a report about it. -/
theorem writeCanonEvent_wrote_kind {sur : Surroundings} {dir : Dir} {event e : CanonEvent}
    (h : e ∈ (writeCanonEvent env sur dir w event).wrote) :
    e.kind = .code ∨ e.kind = event.kind := by
  cases writeCanonEvent_end env sur dir w event with
  | nothing unwritten => simp [unwritten.wrote] at h
  | reported violation kind append =>
    rw [append.wrote, List.mem_singleton] at h
    simp [h, kind]
  | persisted append =>
    rw [append.wrote, List.mem_singleton] at h
    simp [h]

/-! ### Success -/

theorem andThen_fail_outcome (r : WriteResult) (f : Writer → Writer) (err : String) :
    (r.andThen fun dir w => .fail dir (f w) err).outcome ≠ .ok := by
  unfold WriteResult.andThen
  split
  · simp [WriteResult.fail]
  · assumption

theorem persist_outcome (env : Env) (dir : Dir) (w : Writer) (event : CanonEvent) :
    (persist env dir w event).outcome = .ok ∧ Accepts w event ∧
        (persist env dir w event).wrote = [normalizeDelta event] ∨
      (persist env dir w event).outcome ≠ .ok ∧ ¬ Accepts w event ∧
        (persist env dir w event).wrote = [] := by
  by_cases hacc : Accepts w event
  · rw [persist_of_accepts hacc]
    simp [hacc]
  · obtain ⟨message, hr⟩ := writeCanonEventInner_of_not_accepts hacc env.serde false dir
    rw [persist, persistWith, hr]
    simp [hacc, WriteResult.andThen, WriteResult.fail]

/-- A call succeeds if the checks let the event pass, and the writer remembers it or the raw
    append takes it. -/
theorem writeCanonEvent_ok_iff (env : Env) (sur : Surroundings) (dir : Dir) (w : Writer)
    (event : CanonEvent) :
    (writeCanonEvent env sur dir w event).outcome = .ok ↔
      PassesChecks env w event ∧ (Suppressed env w event ∨ Accepts w event) := by
  have hshape := writeCanonEvent_shape env sur dir w event
  generalize writeCanonEvent env sur dir w event = r at hshape ⊢
  cases hshape with
  | refused held message parent f why =>
    exact iff_of_false
      (andThen_fail_outcome _ (fun w => { w with pending := f w.pending }) message)
      fun h => why.fails h.1
  | remembered passes suppressed => simp [passes, suppressed, WriteResult.done]
  | append w' touched passes unsuppressed =>
    have hacc : Accepts w' event ↔ Accepts w event := by
      rw [touched.same]
      rfl
    rw [persistWith_inner]
    rcases persist_outcome env dir w' event with ⟨hout, h, -⟩ | ⟨hout, h, -⟩
    · simp [hout, passes, hacc.mp h]
    · simp [hout, unsuppressed, mt hacc.mpr h]

/-- After success the event is on disk, unless the writer remembers it. -/
theorem writeCanonEvent_wrote_of_ok {sur : Surroundings} {dir : Dir} {event : CanonEvent}
    (h : (writeCanonEvent env sur dir w event).outcome = .ok) :
    (writeCanonEvent env sur dir w event).wrote =
      if Suppressed env w event then [] else [normalizeDelta event] := by
  have hshape := writeCanonEvent_shape env sur dir w event
  generalize writeCanonEvent env sur dir w event = r at hshape h ⊢
  cases hshape with
  | refused held message parent f why =>
    exact absurd h
      (andThen_fail_outcome _ (fun w => { w with pending := f w.pending }) message)
  | remembered passes suppressed =>
    rw [if_pos suppressed]
    rfl
  | append w' touched passes unsuppressed =>
    rw [if_neg unsuppressed]
    rcases persist_outcome env dir w' event with ⟨-, -, hwrote⟩ | ⟨hout, -⟩
    · exact hwrote
    · exact absurd h hout

/-! ### Links of the reports -/

theorem recordRejectedEdge_unlinked {sur : Surroundings} {held : Bool} {dir : Dir}
    {event e : CanonEvent} {message : String}
    (h : e ∈ (recordRejectedEdge env sur held dir w event message parent).wrote) :
    e.prevEventId = none := by
  unfold recordRejectedEdge recordRejectedEdgeWith at h
  dsimp only at h
  split at h
  · cases h
  · split at h
    · by_cases hacc : Accepts { w with rejectedEdges := (w.rejectedEdges.insertIfNew
          (rejectedEdge env event (parent.getD (event.parentIds.head?.getD sur.parentId)))).2 }
          (buildInvariantViolationEventWithParent sur event message
            (parent.getD (event.parentIds.head?.getD sur.parentId)))
      · rw [writeCanonEventInner_of_accepts hacc, List.mem_singleton] at h
        rw [h, normalizeDelta_prevEventId]
        rfl
      · obtain ⟨error, hr⟩ := writeCanonEventInner_of_not_accepts hacc env.serde held dir
        rw [hr] at h
        cases h
    · cases h

/-- What is on disk after a call without success stands in no chain. -/
theorem writeCanonEvent_unlinked {sur : Surroundings} {dir : Dir} {event e : CanonEvent}
    (hout : (writeCanonEvent env sur dir w event).outcome ≠ .ok)
    (h : e ∈ (writeCanonEvent env sur dir w event).wrote) : e.prevEventId = none := by
  have hshape := writeCanonEvent_shape env sur dir w event
  generalize writeCanonEvent env sur dir w event = r at hshape hout h
  cases hshape with
  | refused held message parent f why =>
    have hreport : e ∈ (recordRejectedEdge env sur held dir w event message parent).wrote := by
      unfold WriteResult.andThen at h
      split at h
      · simpa [WriteResult.fail, recordRejectedEdge] using h
      · exact h
    exact recordRejectedEdge_unlinked hreport
  | remembered passes suppressed => cases h
  | append w' touched passes unsuppressed =>
    rw [persistWith_inner] at h hout
    rcases persist_outcome env dir w' event with ⟨hok, -⟩ | ⟨-, -, hwrote⟩
    · exact absurd hok hout
    · rw [hwrote] at h
      cases h

/-! ### Runs of one writer -/

/-- A log directory with its writer.  There is no writer before the first open
    and after a call that never returned; `log` are the events persisted so far. -/
structure LogState where
  dir : Dir
  writer : Option Writer
  log : List CanonEvent

/-- Calls of `write_canon_event`, each with what it gets from its surroundings. -/
def gateMachine (env : Env) : Machine LogState (CanonEvent × Surroundings) where
  step s call :=
    match s.writer with
    | none => s
    | some w =>
      let r := writeCanonEvent env call.2 s.dir w call.1
      { dir := r.dir
        writer := if r.outcome = .stuck then none else some r.writer
        log := s.log ++ r.wrote }

variable {s : LogState} (call : CanonEvent × Surroundings)

theorem gateMachine_idle {env : Env} (h : s.writer = none) :
    (gateMachine env).step s call = s := by
  simp [gateMachine, h]

theorem gateMachine_write (env : Env) {w : Writer} (h : s.writer = some w) :
    (gateMachine env).step s call =
      let r := writeCanonEvent env call.2 s.dir w call.1
      { dir := r.dir, writer := if r.outcome = .stuck then none else some r.writer,
        log := s.log ++ r.wrote } := by
  simp [gateMachine, h]

/-- A writer just opened on `dir`; nothing has been persisted through it yet. -/
def LogState.opened (env : Env) (dir : Dir) (config : SegmentConfig) : LogState :=
  let o := openWithConfig env.serde dir config
  { dir := o.1, writer := some o.2, log := [] }

end Canon.Tlog
