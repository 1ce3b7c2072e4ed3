import Canon.Tlog.ControlChain
import Canon.Tlog.Durability

/-! # The obligation across a restart

    The obligation is not stored.  A writer that opens a directory derives it from the
    last event that recovery finds, and recovery finds none in a segment with a
    header.  In a log of one segment the header is the first thing written, so the
    obligation is lost with every restart.

    * `Single`: the directory has one segment with this content, and it is open, or
      there are more segments,
    * `single_run`: what every run of writes and restarts keeps,
    * `reopened_pending_iff`: the obligation survives exactly when there is none.
-/

namespace Canon.Tlog

/-! ### One segment -/

/-- Nothing, or a header in front. -/
def HeaderFirst (bytes : Bytes) : Prop := bytes = [] ∨ magicBytes <+: bytes

/-- The only segment has number 0 and content `P`. -/
def SingleDir (P : Bytes → Prop) (dir : Dir) : Prop :=
  2 ≤ dir.log.length ∨ ∃ bytes, dir.log = [(0, bytes)] ∧ P bytes

/-- It is the segment open for writing. -/
def Single (P : Bytes → Prop) (o : OpenSegment) : Prop :=
  2 ≤ o.dir.log.length ∨
    ∃ bytes, o.dir.log = [(0, bytes)] ∧ P bytes ∧ o.files.base = 0 ∧ o.files.size = bytes.length

theorem Single.dir {P : Bytes → Prop} {o : OpenSegment} (h : Single P o) : SingleDir P o.dir := by
  rcases h with hmany | ⟨bytes, hlog, hP, -⟩
  · exact .inl hmany
  · exact .inr ⟨bytes, hlog, hP⟩

theorem length_modify (t : FileTable) (n : Nat) (f : Bytes → Bytes) :
    (t.modify n f).length = t.length := by
  simp [FileTable.modify]

theorem length_le_create (t : FileTable) (n : Nat) : t.length ≤ (t.create n).length := by
  unfold FileTable.create
  split
  · exact Nat.le_refl _
  · simp

/-- Opening a segment reopens the only one or adds a second. -/
theorem single_openNewSegmentFiles {P : Bytes → Prop} {dir : Dir} (h : SingleDir P dir) (n : Nat) :
    Single P (openNewSegmentFiles dir n) := by
  rcases h with hmany | ⟨bytes, hlog, hP⟩
  · exact .inl (Nat.le_trans hmany (length_le_create _ _))
  · by_cases hn : n = 0
    · have hcreate : dir.log.create n = [(0, bytes)] := by
        rw [hlog, hn]
        rfl
      right
      refine ⟨bytes, hcreate, hP, hn, ?_⟩
      show (dir.log.create n).size n = bytes.length
      rw [hcreate, hn]
      rfl
    · left
      show 2 ≤ (dir.log.create n).length
      have hmissing : (0 == n) = false := by
        rw [beq_eq_false_iff_ne]
        exact fun h => hn h.symm
      rw [hlog]
      simp [FileTable.create, hmissing]

/-! ### Writing -/

theorem single_writeMagic {o : OpenSegment} (h : Single HeaderFirst o) :
    Single (magicBytes <+: ·) (writeMagic o) := by
  unfold writeMagic
  rcases h with hmany | ⟨bytes, hlog, hbytes, hbase, hsize⟩
  · left
    split
    · show 2 ≤ (o.dir.log.append o.files.base magicBytes).length
      rw [FileTable.append, length_modify]
      exact hmany
    · exact hmany
  · right
    split
    · rename_i hempty
      have hnil : bytes = [] := List.eq_nil_of_length_eq_zero (by omega)
      refine ⟨magicBytes, ?_, List.prefix_rfl, hbase, ?_⟩
      · show o.dir.log.append o.files.base magicBytes = _
        rw [hlog, hbase, hnil]
        rfl
      · show o.files.size + magicBytes.length = _
        omega
    · rename_i hfull
      have hmagic : magicBytes <+: bytes := by
        rcases hbytes with hnil | hmagic
        · rw [hnil] at hsize
          exact absurd hsize hfull
        · exact hmagic
      exact ⟨bytes, hlog, hmagic, hbase, hsize⟩

theorem single_appendRecord {o : OpenSegment} (h : Single (magicBytes <+: ·) o)
    (config : SegmentConfig) (seq ts : Nat) (bs : Bytes) :
    Single (magicBytes <+: ·) (appendRecord config seq ts bs o) := by
  rcases h with hmany | ⟨bytes, hlog, hmagic, hbase, hsize⟩
  · left
    show 2 ≤ (o.dir.log.append o.files.base bs).length
    rw [FileTable.append, length_modify]
    exact hmany
  · right
    refine ⟨bytes ++ bs, ?_, hmagic.trans (List.prefix_append _ _), hbase, ?_⟩
    · show o.dir.log.append o.files.base bs = _
      rw [hlog, hbase]
      rfl
    · show o.files.size + bs.length = _
      rw [hsize, List.length_append]

theorem single_rotateIfFull {P : Bytes → Prop} {o : OpenSegment} (h : Single P o)
    {config : SegmentConfig} (hret : config.retainSegments = none) (seq lineLen : Nat) :
    Single P (rotateIfFull config seq lineLen o) := by
  unfold rotateIfFull
  split
  · rw [hret]
    exact single_openNewSegmentFiles h.dir seq
  · exact h

theorem single_appended {S : Serde} {dir : Dir} {w : Writer} (hret : w.config.retainSegments = none)
    (h : Single HeaderFirst ⟨dir, w.files⟩) (event : CanonEvent) :
    Single HeaderFirst (appended S dir w event) := by
  have hrotated := single_rotateIfFull (single_writeMagic h) hret w.seq
    (frame (S.toVec (normalizeDelta event))).length
  have happended := single_appendRecord hrotated w.config w.seq event.ts
    (frame (S.toVec (normalizeDelta event)))
  rcases happended with hmany | ⟨bytes, hlog, hmagic, hrest⟩
  · exact .inl hmany
  · exact .inr ⟨bytes, hlog, .inr hmagic, hrest⟩

/-! ### Opening -/

theorem isBinaryMagic_of_header {bytes : Bytes} (h : magicBytes <+: bytes) :
    isBinaryMagic bytes = true := by
  obtain ⟨rest, rfl⟩ := h
  exact isBinaryMagic_append_magicBytes rest

/-- Recovery leaves an empty segment and finds no event. -/
theorem recoverSegment_single (S : Serde) (config : SegmentConfig) {dir : Dir} {bytes : Bytes}
    (hlog : dir.log = [(0, bytes)]) (hbytes : HeaderFirst bytes) :
    (recoverSegment S config dir 0).dir.log = [(0, [])] ∧
      (recoverSegment S config dir 0).lastSeq = none ∧
      (recoverSegment S config dir 0).lastEvent = none := by
  have hcontents : dir.log.contents 0 = some bytes := by
    rw [hlog]
    rfl
  unfold recoverSegment
  rw [hcontents]
  rcases hbytes with hnil | hmagic
  -- No bytes are one blank line.
  · rw [hnil] at hlog ⊢
    exact ⟨hlog, rfl, rfl⟩
  · simp only [isBinaryMagic_of_header hmagic, if_true]
    refine ⟨?_, trivial, trivial⟩
    show (dir.log.setLen 0 0).create 0 = _
    rw [hlog]
    rfl

theorem length_le_recoverSegment (S : Serde) (config : SegmentConfig) (dir : Dir) (base : Nat) :
    dir.log.length ≤ (recoverSegment S config dir base).dir.log.length := by
  unfold recoverSegment
  split
  · exact length_le_create _ _
  · split
    · refine Nat.le_trans ?_ (length_le_create _ _)
      show dir.log.length ≤ (dir.log.setLen base 0).length
      rw [FileTable.setLen, length_modify]
    · show dir.log.length ≤ (if _ then _ else dir.log).length
      split
      · rw [FileTable.setLen, length_modify]
      · exact Nat.le_refl _

/-- What holds of the recovered directory holds of the opened one, when opening a
    segment keeps it. -/
theorem openWithConfig_keeps_of_open {S : Serde} {config : SegmentConfig}
    (hret : config.retainSegments = none) {dir : Dir} (hlog : dir.log ≠ []) {P : OpenSegment → Prop}
    {Q : Dir → Prop} (hdir : ∀ o, P o → Q o.dir) (hopen : ∀ d n, Q d → P (openNewSegmentFiles d n))
    (h : Q (recoverSegment S config dir ((findLatestSegment dir).getD 0)).dir) :
    P ⟨(openWithConfig S dir config).1, (openWithConfig S dir config).2.files⟩ := by
  have hstart : (if dir.log.isEmpty then { dir with idx := [], time := [] } else dir) = dir := by
    rw [if_neg (by simpa using hlog)]
  simp only [openWithConfig, hstart, hret]
  generalize recoverSegment S config dir ((findLatestSegment dir).getD 0) = recovered at *
  have hagain : ∀ o n, P o → ∀ c : Prop, ∀ [Decidable c],
      P (if c then openNewSegmentFiles o.dir n else o) := by
    intro o n ho c _
    split
    · exact hopen _ _ (hdir o ho)
    · exact ho
  exact hagain _ _ (hagain _ _ (hagain _ _ (hopen _ _ h) _) _) _

theorem single_openWithConfig {S : Serde} {config : SegmentConfig}
    (hret : config.retainSegments = none) {dir : Dir} (h : SingleDir HeaderFirst dir) :
    Single HeaderFirst
      ⟨(openWithConfig S dir config).1, (openWithConfig S dir config).2.files⟩ := by
  have hlog : dir.log ≠ [] := by
    rcases h with hmany | ⟨bytes, hlog, -⟩
    · intro hnil
      simp [hnil] at hmany
    · simp [hlog]
  refine openWithConfig_keeps_of_open hret hlog (P := Single HeaderFirst)
    (Q := SingleDir HeaderFirst)
    (fun o ho => ho.dir) (fun d n hd => single_openNewSegmentFiles hd n) ?_
  rcases h with hmany | ⟨bytes, hlog, hbytes⟩
  · exact .inl (Nat.le_trans hmany (length_le_recoverSegment S config dir _))
  · have hlatest : (findLatestSegment dir).getD 0 = 0 := by
      rw [findLatestSegment, hlog]
      rfl
    rw [hlatest]
    exact .inr ⟨[], (recoverSegment_single S config hlog hbytes).1, .inl rfl⟩

/-- No obligation is found in a single segment. -/
theorem pending_openWithConfig_single (S : Serde) (config : SegmentConfig) {dir : Dir}
    {bytes : Bytes} (hlog : dir.log = [(0, bytes)]) (hbytes : HeaderFirst bytes) :
    (openWithConfig S dir config).2.pending = none := by
  have hlatest : (findLatestSegment dir).getD 0 = 0 := by
    rw [findLatestSegment, hlog]
    rfl
  have hstart : (if dir.log.isEmpty then { dir with idx := [], time := [] } else dir) = dir := by
    rw [hlog]
    rfl
  have hlast := (recoverSegment_single S config hlog hbytes).2.2
  simp only [openWithConfig, hstart, hlatest, hlast]
  rfl

/-! ### Runs -/

/-- Before the first restart there is nothing; after it the log is a single segment
    or more than one. -/
structure SingleInv (s : LogState) : Prop where
  dir : s.dir = Dir.empty ∧ s.writer = none ∨ SingleDir HeaderFirst s.dir
  writer : ∀ w, s.writer = some w →
    w.config.retainSegments = none ∧ Single HeaderFirst ⟨s.dir, w.files⟩

theorem SingleInv.empty : SingleInv .empty where
  dir := .inl ⟨rfl, rfl⟩
  writer := by
    intro w hw
    cases hw

theorem SingleInv.write {env : Env} {s : LogState} (h : SingleInv s)
    (call : CanonEvent × Surroundings) : SingleInv ((gateMachine env).step s call) := by
  cases hw : s.writer with
  | none =>
    rw [gateMachine_idle _ hw]
    exact h
  | some w =>
    obtain ⟨hret, hsingle⟩ := h.writer w hw
    have hend := writeCanonEvent_end env call.2 s.dir w call.1
    rw [gateMachine_write _ env hw]
    generalize writeCanonEvent env call.2 s.dir w call.1 = r at *
    have hafter :
      r.writer.config.retainSegments = none ∧ Single HeaderFirst ⟨r.dir, r.writer.files⟩ := by
      have happended : ∀ e, AppendedOne env.serde s.dir w e r →
          r.writer.config.retainSegments = none ∧
            Single HeaderFirst ⟨r.dir, r.writer.files⟩ := by
        intro e ha
        refine ⟨by rw [ha.config]; exact hret, ?_⟩
        rw [ha.dir_eq, ha.files]
        exact single_appended hret hsingle e
      cases hend with
      | nothing hu _ _ =>
        refine ⟨by rw [hu.config]; exact hret, ?_⟩
        rw [hu.dir_eq, hu.files]
        exact hsingle
      | reported v _ ha _ _ _ => exact happended v ha
      | persisted ha _ _ _ _ => exact happended call.1 ha
    refine ⟨.inr hafter.2.dir, ?_⟩
    intro w' hw'
    simp only at hw'
    split at hw'
    · cases hw'
    · obtain rfl := Option.some.inj hw'
      exact hafter

theorem SingleInv.step {env : Env} {s : LogState} (h : SingleInv s) {op : LogOp}
    (hret : NoRetention op) : SingleInv ((logMachine env).step s op) := by
  cases op with
  | write event sur => exact h.write (event, sur)
  | reopen config =>
    have hsingle : Single HeaderFirst ⟨(openWithConfig env.serde s.dir config).1,
        (openWithConfig env.serde s.dir config).2.files⟩ := by
      rcases h.dir with ⟨hempty, -⟩ | hdir
      · rw [hempty, openWithConfig_empty_of_none env.serde hret]
        exact .inr ⟨[], rfl, .inl rfl, rfl, rfl⟩
      · exact single_openWithConfig hret hdir
    refine ⟨.inr hsingle.dir, ?_⟩
    intro w hw
    obtain rfl := Option.some.inj hw
    exact ⟨hret, hsingle⟩

theorem single_run (env : Env) {ops : List LogOp} (hret : ∀ op ∈ ops, NoRetention op)
    {s : LogState} (h : SingleInv s) : SingleInv ((logMachine env).run s ops) := by
  induction ops generalizing s with
  | nil => exact h
  | cons op ops ih =>
    exact ih (fun o ho => hret o (List.mem_cons_of_mem _ ho)) (h.step (hret op List.mem_cons_self))

/-- A log in one segment that is closed and opened again: the new writer holds the
    obligation of the old one exactly when the old one held none. -/
theorem reopened_pending_iff (env : Env) {ops : List LogOp} (hret : ∀ op ∈ ops, NoRetention op)
    {w : Writer} (hw : ((logMachine env).run .empty ops).writer = some w)
    (hone : ((logMachine env).run .empty ops).dir.log.length = 1) (config : SegmentConfig) :
    (openWithConfig env.serde ((logMachine env).run .empty ops).dir config).2.pending = w.pending ↔
      w.pending = none := by
  have hinv := single_run env hret SingleInv.empty
  obtain ⟨-, hsingle⟩ := hinv.writer w hw
  rcases hsingle with hmany | ⟨bytes, hlog, hbytes, -⟩
  · rw [hone] at hmany
    omega
  · rw [pending_openWithConfig_single env.serde config hlog hbytes]
    exact eq_comm

/-- A route to `observe`: only an observation may follow. -/
def routeOpen : List LogOp :=
  [.reopen .default,
   .write (sampleEvent "route-1" .routeSelected 1 (.obj [("approved_route", .str "observe")]))
    { parentId := "p-1", violationId := "v-1", now := 1 }]

/-- An observation meets the obligation before the writer is closed. -/
theorem reopened_pending_met :
    let ops := routeOpen ++ [.write (sampleEvent "obs-1" .loopObserved 3 (.obj []))
      { parentId := "p-2", violationId := "v-2", now := 4 }]
    (((logMachine chainEnv).run .empty routeOpen).writer.bind (·.pending)).isSome = true ∧
      (openWithConfig chainEnv.serde ((logMachine chainEnv).run .empty ops).dir
        .default).2.pending = none := by
  intro ops
  have hmet : (((logMachine chainEnv).run .empty ops).writer.map (·.pending)) = some none := by
    decide +kernel
  obtain ⟨w, hw, hpending⟩ := Option.map_eq_some_iff.mp hmet
  have hret : ∀ op ∈ ops, NoRetention op := by
    simp [ops, routeOpen, NoRetention, SegmentConfig.default]
  have hiff := reopened_pending_iff chainEnv hret hw (by decide +kernel) .default
  exact ⟨by decide +kernel, (hiff.mpr hpending).trans hpending⟩

/-- Once the writer is opened again, anything may follow. -/
theorem obligation_lost_on_reopen :
    ∃ (ops : List LogOp) (w : Writer), (∀ op ∈ ops, NoRetention op) ∧
      ((logMachine chainEnv).run .empty ops).writer = some w ∧
      ((logMachine chainEnv).run .empty ops).dir.log.length = 1 ∧
      (openWithConfig chainEnv.serde ((logMachine chainEnv).run .empty ops).dir
        .default).2.pending ≠ w.pending := by
  have hret : ∀ op ∈ routeOpen, NoRetention op := by
    simp [routeOpen, NoRetention, SegmentConfig.default]
  have hone : ((logMachine chainEnv).run .empty routeOpen).dir.log.length = 1 := by
    decide +kernel
  have hopen : (((logMachine chainEnv).run .empty routeOpen).writer.bind (·.pending)).isSome := by
    decide +kernel
  cases hw : ((logMachine chainEnv).run .empty routeOpen).writer with
  | none =>
    rw [hw] at hopen
    cases hopen
  | some w =>
    refine ⟨routeOpen, w, hret, hw, hone, ?_⟩
    obtain ⟨-, hsingle⟩ := (single_run chainEnv hret SingleInv.empty).writer w hw
    rcases hsingle with hmany | ⟨bytes, hlog, hbytes, -⟩
    · rw [hone] at hmany
      omega
    · rw [pending_openWithConfig_single chainEnv.serde .default hlog hbytes]
      rw [hw] at hopen
      intro hnone
      simp [← hnone] at hopen

end Canon.Tlog
