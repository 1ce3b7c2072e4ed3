import Canon.Tlog.Replayed

/-! # What a failed write leaves behind

    `write_canon_event` with files that may fail.  The gate touches its caches and the
    obligation while it goes along, and an error comes from any place of it: some errors leave
    everything as it was, and an effect event whose append fails is remembered as if it had been
    written.

    * `IoFailure`, `appendOrFail`, `Call`: the raw append with files that may fail,
    * `Reachable`, `DedupCache.Sound`: the writers of a process and their caches,
    * `Traceless`: the errors that change nothing, and `unchanged_iff`,
    * `suppressed_after_failure`: which events are dropped afterwards.
-/

namespace Canon.Tlog

/-! ### Files that fail -/

/-- The error of a file operation, with what the operations before it left on disk and in the
    counters of the open segment. -/
structure IoFailure where
  message : String
  dir : Dir
  files : SegmentFiles

/-- The raw append.  The files are touched behind its checks, with the number of the record
    already taken; the last-event slot comes behind the files. -/
def appendOrFail (S : Serde) (io : Option IoFailure) (held : Bool) (dir : Dir) (w : Writer)
    (event : CanonEvent) : WriteResult :=
  let r := writeCanonEventInner S held dir w event
  match io with
  | none => r
  | some failure =>
    match r.outcome with
    | .err _ => r
    | _ =>
      .fail failure.dir { r.writer with files := failure.files, lastEvent := w.lastEvent }
        failure.message

/-- A call of `write_canon_event`, with what it gets from its surroundings and the failure of
    its files, if there is one. -/
structure Call where
  event : CanonEvent
  sur : Surroundings
  io : Option IoFailure

def Call.run (env : Env) (call : Call) (dir : Dir) (w : Writer) : WriteResult :=
  writeCanonEventWith (appendOrFail env.serde call.io) env call.sur dir w call.event

/-! ### The append -/

/-- What the gate needs to know about the raw append. -/
structure Appends (inner : Bool → Dir → Writer → CanonEvent → WriteResult) : Prop where
  pending : ∀ held dir w event, (inner held dir w event).writer.pending = w.pending
  dedup : ∀ held dir w event, (inner held dir w event).writer.dedup = w.dedup
  rejectedEdges : ∀ held dir w event,
    (inner held dir w event).writer.rejectedEdges = w.rejectedEdges
  lastEvent : ∀ held dir w event,
    (inner held dir w event).writer.lastEvent = w.lastEvent ∨
      (inner held dir w event).outcome = .ok ∧
        (inner held dir w event).writer.lastEvent = some (normalizeDelta event)

theorem writeCanonEventInner_appends (S : Serde) : Appends (writeCanonEventInner S) := by
  have hcases : ∀ held dir w event, ∃ files seq, (writeCanonEventInner S held dir w event).writer =
      { w with
        lastTs := max w.lastTs event.ts
        seq := seq
        files := files
        lastEvent := (writeCanonEventInner S held dir w event).writer.lastEvent } ∧
      ((writeCanonEventInner S held dir w event).writer.lastEvent = w.lastEvent ∨
        (writeCanonEventInner S held dir w event).outcome = .ok ∧
          (writeCanonEventInner S held dir w event).writer.lastEvent =
            some (normalizeDelta event)) := by
    intro held dir w event
    by_cases hacc : Accepts w event
    · rw [writeCanonEventInner_of_accepts hacc]
      refine ⟨_, _, rfl, ?_⟩
      cases held with
      | true => exact .inl rfl
      | false => exact .inr ⟨rfl, rfl⟩
    · obtain ⟨message, hr⟩ := writeCanonEventInner_of_not_accepts hacc S held dir
      rw [hr]
      exact ⟨_, _, rfl, .inl rfl⟩
  refine ⟨?_, ?_, ?_, ?_⟩
  all_goals intro held dir w event
  all_goals obtain ⟨files, seq, hwriter, hlast⟩ := hcases held dir w event
  · rw [hwriter]
  · rw [hwriter]
  · rw [hwriter]
  · exact hlast

theorem appendOrFail_appends (S : Serde) (io : Option IoFailure) :
    Appends (appendOrFail S io) := by
  have hinner := writeCanonEventInner_appends S
  cases io with
  | none => exact hinner
  | some failure =>
    have hcases : ∀ held dir w event,
        appendOrFail S (some failure) held dir w event = writeCanonEventInner S held dir w event ∨
        appendOrFail S (some failure) held dir w event =
          .fail failure.dir { (writeCanonEventInner S held dir w event).writer with
            files := failure.files, lastEvent := w.lastEvent } failure.message := by
      intro held dir w event
      cases houtcome : (writeCanonEventInner S held dir w event).outcome with
      | ok =>
        right
        simp only [appendOrFail, houtcome]
      | err message =>
        left
        simp only [appendOrFail, houtcome]
      | stuck =>
        right
        simp only [appendOrFail, houtcome]
    refine ⟨?_, ?_, ?_, ?_⟩
    all_goals intro held dir w event
    all_goals rcases hcases held dir w event with h | h
    all_goals rw [h]
    · exact hinner.pending held dir w event
    · exact hinner.pending held dir w event
    · exact hinner.dedup held dir w event
    · exact hinner.dedup held dir w event
    · exact hinner.rejectedEdges held dir w event
    · exact hinner.rejectedEdges held dir w event
    · exact hinner.lastEvent held dir w event
    · exact .inl rfl

/-- The four slots are as before. -/
structure Unchanged (w w' : Writer) : Prop where
  pending : w'.pending = w.pending
  lastEvent : w'.lastEvent = w.lastEvent
  dedup : w'.dedup = w.dedup
  rejectedEdges : w'.rejectedEdges = w.rejectedEdges

/-! ### Caches -/

/-- The two halves of a cache hold the same entries. -/
structure DedupCache.Sound {α : Type} (c : DedupCache α) : Prop where
  perm : c.seen.Perm c.order
  cap : 0 < c.cap

section Cache

variable {α : Type} [DecidableEq α] {c : DedupCache α}

theorem DedupCache.Sound.insertIfNew (h : c.Sound) (x : α) : (c.insertIfNew x).2.Sound := by
  unfold DedupCache.insertIfNew
  have hperm : (x :: c.seen).Perm (c.order ++ [x]) :=
    (h.perm.cons x).trans (List.perm_append_singleton x c.order).symm
  split
  · exact h
  · dsimp only
    split
    · cases horder : c.order ++ [x] with
      | nil => simp at horder
      | cons old rest =>
        rw [horder] at hperm
        have herase := hperm.erase old
        rw [List.erase_cons_head] at herase
        exact ⟨herase, h.cap⟩
    · exact ⟨hperm, h.cap⟩

/-- A sound cache has room for the newest entry. -/
theorem DedupCache.Sound.mem_insertIfNew (h : c.Sound) (x : α) :
    x ∈ (c.insertIfNew x).2.seen := by
  unfold DedupCache.insertIfNew
  split
  · assumption
  · rename_i hnew
    dsimp only
    split
    · rename_i hfull
      cases horder : c.order with
      | nil =>
        have hcap := h.cap
        simp only [horder, List.nil_append, List.length_singleton] at hfull
        omega
      | cons old rest =>
        have hold : old ∈ c.seen := h.perm.mem_iff.mpr (by simp [horder])
        have hne : x ≠ old := by
          intro heq
          exact hnew (heq ▸ hold)
        exact (List.mem_erase_of_ne hne).mpr List.mem_cons_self
    · exact List.mem_cons_self

end Cache

/-! ### Reachable writers -/

/-- The writers of a process.  The directory may change in between: other processes write to
    it too. -/
inductive Reachable (env : Env) : Writer → Prop where
  | opened (dir : Dir) (config : SegmentConfig) :
      Reachable env (openWithConfig env.serde dir config).2
  | called {w : Writer} (before : Reachable env w) (call : Call) (dir : Dir) :
      Reachable env (call.run env dir w).writer
  | notified {w : Writer} (before : Reachable env w) (event : CanonEvent) :
      Reachable env (notifyReplayedEvent w event)

structure SoundCaches (w : Writer) : Prop where
  dedup : w.dedup.Sound
  rejectedEdges : w.rejectedEdges.Sound

section Gate

variable {inner : Bool → Dir → Writer → CanonEvent → WriteResult} {env : Env}
  {sur : Surroundings} {dir : Dir} {w : Writer} {event : CanonEvent}

/-- The caches and the obligation after an append and what stands behind it. -/
theorem persistWith_caches (hinner : Appends inner) (dir : Dir) (w : Writer)
    (event : CanonEvent) :
    (persistWith inner dir w event).writer.dedup = w.dedup ∧
      (persistWith inner dir w event).writer.rejectedEdges = w.rejectedEdges := by
  have hcaches :=
    And.intro (hinner.dedup false dir w event) (hinner.rejectedEdges false dir w event)
  unfold persistWith WriteResult.andThen
  split
  · dsimp only
    split
    · exact hcaches
    · split <;> exact hcaches
  · exact hcaches

/-- An append that fails leaves the four slots as they are. -/
theorem persistWith_failed (hinner : Appends inner) {message : String}
    (herr : (persistWith inner dir w event).outcome = .err message) :
    Unchanged w (persistWith inner dir w event).writer := by
  unfold persistWith WriteResult.andThen at herr ⊢
  cases houtcome : (inner false dir w event).outcome with
  | ok =>
    simp only [houtcome] at herr
    split at herr
    · cases herr
    · split at herr
      · cases herr
      · cases herr
  | err err =>
    simp only
    refine ⟨hinner.pending _ _ _ _, ?_, hinner.dedup _ _ _ _, hinner.rejectedEdges _ _ _ _⟩
    rcases hinner.lastEvent false dir w event with h | ⟨hok, -⟩
    · exact h
    · rw [houtcome] at hok
      cases hok
  | stuck =>
    simp only [houtcome] at herr
    cases herr

/-- A refusal leaves the content cache alone. -/
theorem refused_dedup (hinner : Appends inner) (held : Bool) (message err : String)
    (parent : Option String) (f : Option PendingTransition → Option PendingTransition) :
    ((recordRejectedEdgeWith inner env sur held dir w event message parent).andThen
      fun dir w => .fail dir { w with pending := f w.pending } err).writer.dedup = w.dedup := by
  have hreport : (recordRejectedEdgeWith inner env sur held dir w event message
      parent).writer.dedup = w.dedup := by
    by_cases hrecord : OnRecord env sur w event parent
    · rw [recordRejectedEdgeWith_of_onRecord hrecord]
      rfl
    · rw [recordRejectedEdgeWith_of_not_onRecord hrecord]
      exact hinner.dedup _ _ _ _
  unfold WriteResult.andThen
  split <;> exact hreport

/-- What is new on record is in the cache of edges. -/
theorem refused_rejectedEdges (hinner : Appends inner) (held : Bool) (message err : String)
    {parent : Option String} (hrecord : ¬ OnRecord env sur w event parent)
    (f : Option PendingTransition → Option PendingTransition) :
    ((recordRejectedEdgeWith inner env sur held dir w event message parent).andThen
        fun dir w => .fail dir { w with pending := f w.pending } err).writer.rejectedEdges =
      (w.rejectedEdges.insertIfNew (rejectedEdge env event
        (parent.getD (event.parentIds.head?.getD sur.parentId)))).2 := by
  rw [recordRejectedEdgeWith_of_not_onRecord hrecord]
  unfold WriteResult.andThen
  split <;> exact hinner.rejectedEdges _ _ _ _

theorem SoundCaches.writeCanonEventWith (hinner : Appends inner) (h : SoundCaches w)
    (sur : Surroundings) (dir : Dir) (event : CanonEvent) :
    SoundCaches (writeCanonEventWith inner env sur dir w event).writer := by
  have hshape := writeCanonEventWith_shape inner env sur dir w event
  generalize Tlog.writeCanonEventWith inner env sur dir w event = r at hshape ⊢
  cases hshape with
  | refused held message parent f why =>
    refine ⟨by rw [refused_dedup hinner]; exact h.dedup, ?_⟩
    by_cases hrecord : OnRecord env sur w event parent
    · rw [recordRejectedEdgeWith_of_onRecord hrecord]
      exact h.rejectedEdges
    · rw [refused_rejectedEdges hinner held message message hrecord]
      exact h.rejectedEdges.insertIfNew _
  | remembered passes suppressed => exact h
  | append w' touched passes unsuppressed =>
    obtain ⟨hdedup, hedges⟩ := persistWith_caches hinner dir w' event
    refine ⟨?_, by rw [hedges, touched.same]; exact h.rejectedEdges⟩
    rw [hdedup]
    cases touched with
    | discharge => exact h.dedup
    | remember => exact h.dedup.insertIfNew _
    | plain => exact h.dedup

end Gate

theorem Reachable.soundCaches {env : Env} {w : Writer} (h : Reachable env w) : SoundCaches w := by
  induction h with
  | opened dir config =>
    have hcap : 0 < 1024 := by decide
    exact ⟨⟨.rfl, hcap⟩, ⟨.rfl, hcap⟩⟩
  | called _ call dir ih => exact ih.writeCanonEventWith (appendOrFail_appends env.serde call.io) ..
  | notified _ event ih =>
    unfold notifyReplayedEvent
    split
    · exact ih
    · exact ⟨ih.dedup, ih.rejectedEdges⟩

/-! ### Errors that change nothing -/

/-- An error on `event` leaves nothing behind: it is a retry that is blocked, or its report is
    there already, or it is a control event that finds no obligation and fails in the append. -/
def Traceless (env : Env) (sur : Surroundings) (w : Writer) (event : CanonEvent) : Prop :=
  match checkInvalidRetry env w event with
  | some _ => True
  | none =>
    match validateEvent event with
    | .error _ => OnRecord env sur w event none
    | .ok () =>
      match transitionError w event with
      | some (_, prev) => OnRecord env sur w event (some prev.id)
      | none => event.isControl = true ∧ w.pending = none

instance (env : Env) (sur : Surroundings) (w : Writer) (event : CanonEvent) :
    Decidable (Traceless env sur w event) := by
  unfold Traceless
  split
  · infer_instance
  · split
    · infer_instance
    · split <;> infer_instance

/-- A blocked retry is on record. -/
theorem onRecord_of_retry {env : Env} {w : Writer} {event : CanonEvent} {err : String}
    (h : checkInvalidRetry env w event = some err) (sur : Surroundings) :
    OnRecord env sur w event event.parentIds.head? := by
  unfold checkInvalidRetry at h
  split at h
  · cases h
  · cases hparents : event.parentIds with
    | nil => simp [hparents] at h
    | cons parent rest =>
      simp only [hparents] at h
      split at h
      · exact .inr (by simpa)
      · cases h

section Failures

variable {inner : Bool → Dir → Writer → CanonEvent → WriteResult} {env : Env}
  {sur : Surroundings} {dir : Dir} {w : Writer} {event : CanonEvent}

/-- What is new on record changes the cache of edges. -/
theorem refused_changed (hinner : Appends inner) (hw : SoundCaches w) (held : Bool)
    (message : String) {parent : Option String} (hrecord : ¬ OnRecord env sur w event parent)
    (f : Option PendingTransition → Option PendingTransition) :
    ¬ Unchanged w ((recordRejectedEdgeWith inner env sur held dir w event message parent).andThen
        fun dir w => .fail dir { w with pending := f w.pending } message).writer := by
  intro hsame
  have hedges := (refused_rejectedEdges hinner held message message hrecord f).symm.trans
    hsame.rejectedEdges
  have hmem := hw.rejectedEdges.mem_insertIfNew (rejectedEdge env event
    (parent.getD (event.parentIds.head?.getD sur.parentId)))
  rw [hedges] at hmem
  exact hrecord (.inr hmem)

/-- A refusal without a violated obligation changes nothing exactly when it is on record. -/
theorem refused_unchanged_iff (hinner : Appends inner) (hw : SoundCaches w) (held : Bool)
    (message : String) (parent : Option String) :
    Unchanged w ((recordRejectedEdgeWith inner env sur held dir w event message parent).andThen
        fun dir w => .fail dir { w with pending := id w.pending } message).writer ↔
      OnRecord env sur w event parent := by
  by_cases hrecord : OnRecord env sur w event parent
  · rw [recordRejectedEdgeWith_of_onRecord hrecord]
    exact iff_of_true ⟨rfl, rfl, rfl, rfl⟩ hrecord
  · exact iff_of_false (refused_changed hinner hw held message hrecord id) hrecord

/-- A violated obligation is dropped, or its report is new. -/
theorem violated_changed (hinner : Appends inner) (hw : SoundCaches w) {req : PendingTransition}
    (hverdict : checkPending w.pending event = .violated req) (message : String)
    (parent : Option String) :
    ¬ Unchanged w ((recordRejectedEdgeWith inner env sur false dir w event message parent).andThen
        fun dir w => .fail dir { w with pending := (fun _ => none) w.pending } message).writer := by
  by_cases hrecord : OnRecord env sur w event parent
  · intro hsame
    rw [recordRejectedEdgeWith_of_onRecord hrecord] at hsame
    rw [← hsame.pending] at hverdict
    cases hverdict
  · exact refused_changed hinner hw false message hrecord fun _ => none

/-- When the append fails, everything is as before unless the gate had touched a slot. -/
theorem append_unchanged_iff (hinner : Appends inner) (hw : SoundCaches w) {w' : Writer}
    (touched : Touched env w event w') {message : String}
    (herr : (persistWith inner dir w' event).outcome = .err message) :
    Unchanged w (persistWith inner dir w' event).writer ↔
      event.isControl = true ∧ w.pending = none := by
  have hfailed := persistWith_failed hinner herr
  cases touched with
  | discharge answers =>
    refine iff_of_false ?_ ?_
    · intro hsame
      rw [← hsame.pending, hfailed.pending] at answers
      cases answers
    · intro ⟨_, hnone⟩
      rw [hnone] at answers
      cases answers
  | remember effect new =>
    refine iff_of_false ?_ ?_
    · intro hsame
      have hmem := hw.dedup.mem_insertIfNew (eventContentHash env event)
      have hdedup : (w.dedup.insertIfNew (eventContentHash env event)).2 = w.dedup :=
        hfailed.dedup.symm.trans hsame.dedup
      rw [hdedup] at hmem
      exact new hmem
    · intro ⟨hcontrol, _⟩
      exact effect (by simpa [CanonEvent.isControl] using hcontrol)
  | plain control untouched =>
    refine iff_of_true hfailed ⟨by simp [CanonEvent.isControl, control], ?_⟩
    cases hpending : w.pending with
    | none => rfl
    | some req =>
      simp only [hpending, checkPending, control, reduceCtorEq, if_false] at untouched
      split at untouched
      · split at untouched
        · cases untouched
        · split at untouched <;> cases untouched
      · cases untouched

theorem unchanged_iff (hinner : Appends inner) (hw : SoundCaches w) {message : String}
    (herr : (writeCanonEventWith inner env sur dir w event).outcome = .err message) :
    Unchanged w (writeCanonEventWith inner env sur dir w event).writer ↔
      Traceless env sur w event := by
  have hshape := writeCanonEventWith_shape inner env sur dir w event
  generalize writeCanonEventWith inner env sur dir w event = r at hshape herr ⊢
  cases hshape with
  | refused held message parent f why =>
    cases why with
    | retry blocked =>
      rw [refused_unchanged_iff hinner hw]
      simp only [Traceless, blocked, iff_true]
      exact onRecord_of_retry blocked sur
    | invalid retry failed =>
      rw [refused_unchanged_iff hinner hw]
      simp only [Traceless, retry, failed]
    | illegal retry valid failed =>
      rw [refused_unchanged_iff hinner hw]
      simp only [Traceless, retry, valid, failed]
    | violated retry valid legal failed =>
      apply iff_of_false (violated_changed hinner hw failed _ _)
      simp only [Traceless, retry, valid, legal, not_and]
      intro _ hnone
      rw [hnone] at failed
      cases failed
  | remembered passes suppressed => cases herr
  | append w' touched passes unsuppressed =>
    rw [append_unchanged_iff hinner hw touched herr]
    simp only [Traceless, passes.retry, passes.valid, passes.transition]

/-- After an error, an event with the content of the one that failed is dropped if it was before,
    or if it is an effect event that came to the append. -/
theorem suppressed_after_failure (hinner : Appends inner) (hw : SoundCaches w) {message : String}
    (herr : (writeCanonEventWith inner env sur dir w event).outcome = .err message)
    {again : CanonEvent} (hkind : again.kind = event.kind)
    (hcontent : eventContentHash env again = eventContentHash env event) :
    Suppressed env (writeCanonEventWith inner env sur dir w event).writer again ↔
      Suppressed env w again ∨ PassesChecks env w event ∧ event.isControl = false := by
  have hshape := writeCanonEventWith_shape inner env sur dir w event
  generalize writeCanonEventWith inner env sur dir w event = r at hshape herr ⊢
  cases hshape with
  | refused held message parent f why =>
    rw [Suppressed, Suppressed, refused_dedup hinner]
    exact (or_iff_left fun h => why.fails h.1).symm
  | remembered passes suppressed => cases herr
  | append w' touched passes unsuppressed =>
    rw [Suppressed, (persistWith_caches hinner dir w' event).1]
    cases touched with
    | discharge answers =>
      have hne : checkPending w.pending event ≠ .untouched := by simp [answers]
      have hcontrol := isControl_of_ne_untouched hne
      simp [Suppressed, hcontrol]
    | remember effect new =>
      have hmem := hw.dedup.mem_insertIfNew (eventContentHash env event)
      refine iff_of_true ⟨hkind ▸ effect, hcontent ▸ hmem⟩ (.inr ⟨passes, ?_⟩)
      simpa [CanonEvent.isControl] using effect
    | plain control untouched => simp [Suppressed, CanonEvent.isControl, control]

end Failures

/-- **Failed writes.**  In every reachable writer, a call that returns an error leaves the
    obligation, the last event and both caches as they were exactly when the error is
    traceless; and an event with the same content is dropped afterwards exactly when it was
    before, or when an effect event failed in the append. -/
theorem failed_write_unchanged (env : Env) (call : Call) (dir : Dir) (w : Writer)
    (hw : Reachable env w) (message : String)
    (herr : (call.run env dir w).outcome = .err message) :
    (Unchanged w (call.run env dir w).writer ↔ Traceless env call.sur w call.event) ∧
    ∀ again : CanonEvent, again.kind = call.event.kind →
      eventContentHash env again = eventContentHash env call.event →
      (Suppressed env (call.run env dir w).writer again ↔
        Suppressed env w again ∨
          PassesChecks env w call.event ∧ call.event.isControl = false) := by
  have hinner := appendOrFail_appends env.serde call.io
  refine ⟨unchanged_iff hinner hw.soundCaches herr, ?_⟩
  intro again hkind hcontent
  exact suppressed_after_failure hinner hw.soundCaches herr hkind hcontent

/-! ### Sample calls -/

def plainEnv : Env where
  serde := .ofTable []
  contentHash kind _ _ := kind.asStr.length

def openedWriter : Writer := (openWithConfig plainEnv.serde Dir.empty .default).2

def debugResult : WriteResult :=
  (⟨sampleEvent "a" .debug 5 (.obj []), ⟨"p", "v", 5⟩, none⟩ : Call).run plainEnv Dir.empty
    openedWriter

/-- An event whose time lies before that of the last one. -/
def lateCall (kind : EventKind) : Call := ⟨sampleEvent "b" kind 3 (.obj []), ⟨"p", "v", 6⟩, none⟩

/-- The same event at the time of the call. -/
def correctedCall : Call := ⟨sampleEvent "b" .code 6 (.obj []), ⟨"p", "v", 6⟩, none⟩

theorem debugWriter_reachable : Reachable plainEnv debugResult.writer :=
  .called (.opened Dir.empty .default) _ Dir.empty

/-- A tick that comes late changes nothing. -/
theorem failed_write_unchanged_tick :
    Unchanged debugResult.writer
      ((lateCall .tick).run plainEnv debugResult.dir debugResult.writer).writer :=
  (failed_write_unchanged plainEnv (lateCall .tick) debugResult.dir debugResult.writer
    debugWriter_reachable "non-monotonic timestamp: 3 < prev 5" (by decide +kernel)).1.mpr
    (by decide +kernel)

/-- A code event that comes late is refused by the append, and with its time corrected it is
    dropped with success, although the writer would have taken it before. -/
theorem failed_write_drops_resubmission :
    let late := (lateCall .code).run plainEnv debugResult.dir debugResult.writer
    Reachable plainEnv debugResult.writer ∧
      late.outcome = .err "non-monotonic timestamp: 3 < prev 5" ∧
      ¬ Unchanged debugResult.writer late.writer ∧
      (correctedCall.run plainEnv late.dir late.writer).outcome = .ok ∧
      (correctedCall.run plainEnv late.dir late.writer).wrote = [] ∧
      (correctedCall.run plainEnv debugResult.dir debugResult.writer).wrote ≠ [] := by
  refine ⟨.called (.opened Dir.empty .default) _ Dir.empty, by decide +kernel, ?_,
    by decide +kernel, by decide +kernel, by decide +kernel⟩
  intro hunchanged
  have hseen := congrArg (fun c => c.seen.length) hunchanged.dedup
  revert hseen
  decide +kernel

end Canon.Tlog
