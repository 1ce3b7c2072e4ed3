import Canon.Tlog.Gate
import Canon.Tlog.Recovery
import Canon.Tlog.RoundTrip

/-! # Restarts

    Runs of gated writes and restarts on one directory.  A restart keeps what was
    persisted exactly when the last segment is one that recovery leaves alone, and
    a run is durable exactly when every restart in it finds such a segment.
-/

namespace Canon.Tlog

/-! ### Opening a directory again -/

theorem recoverLines_lastSeq {S : Serde} {config : SegmentConfig} {base : Nat}
    {lines : List Text} {st : RecoverState} (hseq : base ≤ st.seq)
    (hlast : ∀ n ∈ st.lastSeq, base ≤ n) :
    ∀ n ∈ (recoverLines S config lines st).lastSeq, base ≤ n := by
  induction lines generalizing st with
  | nil => exact hlast
  | cons l lines ih =>
    by_cases hblank : Text.trim l = []
    · simp only [recoverLines, hblank, if_true]
      exact ih hseq hlast
    · cases hparse : S.fromStr (Text.trim l) with
      | none =>
        simp only [recoverLines, hblank, if_false, hparse]
        exact hlast
      | some event =>
        simp only [recoverLines, hblank, if_false, hparse]
        apply ih (Nat.le_succ_of_le hseq)
        intro n hn
        simp only [recoverLine, Option.mem_some_iff] at hn
        omega

theorem recoverSegment_lastSeq (S : Serde) (config : SegmentConfig) (dir : Dir) (base : Nat) :
    ∀ n ∈ (recoverSegment S config dir base).lastSeq, base ≤ n := by
  unfold recoverSegment
  split
  · simp
  · split
    · simp
    · exact recoverLines_lastSeq le_rfl (by simp [RecoverState.init])

section Reopen

variable {S : Serde} {config : SegmentConfig} {dir : Dir} {pre : List Seg} {cur : Seg}

/-- After recovery, opening a directory opens segments at ascending numbers: what
    each of these keeps, the whole keeps. -/
theorem openWithConfig_induct (h : Holds dir (pre ++ [cur]))
    (hret : config.retainSegments = none) (P : OpenSegment → Prop)
    (hstart : cur.base ≤ (openWithConfig S dir config).2.seq →
      P ⟨(recoverSegment S config dir cur.base).dir,
        ⟨cur.base, (keptBytes S config cur).length, none, 0⟩⟩)
    (hopen : ∀ o n, P o → o.files.base ≤ n → n ≤ (openWithConfig S dir config).2.seq →
      P (openNewSegmentFiles o.dir n)) :
    P ⟨(openWithConfig S dir config).1, (openWithConfig S dir config).2.files⟩ := by
  have hlog : dir.log.isEmpty = false := by
    rw [h.entries]
    simp
  have hdir : (if dir.log.isEmpty then { dir with idx := [], time := [] } else dir) = dir := by
    simp [hlog]
  have hbase : (findLatestSegment dir).getD 0 = cur.base := by
    rw [findLatestSegment_of_holds h]
    rfl
  have hlast := recoverSegment_lastSeq S config dir cur.base
  have hnext : (openWithConfig S dir config).2.seq =
      ((recoverSegment S config dir cur.base).lastSeq.map (· + 1)).getD cur.base := by
    simp only [openWithConfig, hdir, hbase]
  rw [hnext] at hopen hstart
  simp only [openWithConfig, hdir, hbase, hret]
  generalize recoverSegment S config dir cur.base = recovered at *
  have hseq : cur.base ≤ recovered.lastSeq.getD cur.base := by
    cases hl : recovered.lastSeq with
    | none => exact le_rfl
    | some n => exact hlast n hl
  have hsucc : recovered.lastSeq.getD cur.base ≤
      (recovered.lastSeq.map (· + 1)).getD cur.base := by
    cases recovered.lastSeq with
    | none => exact le_rfl
    | some n => exact Nat.le_succ n
  generalize recovered.lastSeq.getD cur.base = seq at *
  generalize (recovered.lastSeq.map (· + 1)).getD cur.base = next at *
  have hfirst : P (openNewSegmentFiles recovered.dir seq) :=
    hopen _ seq (hstart (hseq.trans hsucc)) hseq hsucc
  have hagain : ∀ o, P o → o.files.base = seq → ∀ c : Prop, ∀ [Decidable c],
      P (if c then openNewSegmentFiles o.dir seq else o) ∧
        (if c then openNewSegmentFiles o.dir seq else o).files.base = seq := by
    intro o ho hb c _
    split
    · exact ⟨hopen o seq ho hb.le hsucc, rfl⟩
    · exact ⟨ho, hb⟩
  obtain ⟨hsecond, hb₂⟩ := hagain _ hfirst rfl
    ((openNewSegmentFiles recovered.dir seq).dir.log.isEmpty = true)
  generalize (if (openNewSegmentFiles recovered.dir seq).dir.log.isEmpty = true then _ else _)
    = o₂ at *
  obtain ⟨hthird, hb₃⟩ := hagain o₂ hsecond hb₂ (o₂.files.size = 0)
  generalize (if o₂.files.size = 0 then _ else _) = o₃ at *
  split
  · exact hopen o₃ next hthird (hb₃.le.trans hsucc) le_rfl
  · exact hthird

/-- Opening a directory whose last segment is left alone keeps every record. -/
theorem openWithConfig_keeps (h : Holds dir (pre ++ [cur]))
    (hret : config.retainSegments = none) (hrec : RecoverableBytes S cur.bytes) :
    ∃ pre' cur', Writable (openWithConfig S dir config).1 (openWithConfig S dir config).2.files
        (openWithConfig S dir config).2.seq pre' cur' ∧
      recordsOf (pre' ++ [cur']) = recordsOf (pre ++ [cur]) := by
  refine openWithConfig_induct h hret (fun o => ∃ pre' cur', Writable o.dir o.files
    (openWithConfig S dir config).2.seq pre' cur' ∧
      recordsOf (pre' ++ [cur']) = recordsOf (pre ++ [cur])) ?_ ?_
  · intro hseq
    obtain ⟨cur', hbase, hbytes, hrecords, -⟩ := keptBytes_of_recoverable config h hrec
    have hw := h.writable hseq
    refine ⟨pre, cur', ⟨?_, hbase.symm, by rw [hbytes], hbase.le.trans hseq⟩, by simp [hrecords]⟩
    refine hw.holds_replace ?_ hbase (by rw [hrecords]; exact h.fits cur (by simp))
    rw [recoverSegment_log config h, hw.entries,
      FileTable.modify_concat_self _ fun e he => hw.entry_lt he, hbytes]
  · rintro o n ⟨pre', cur', hw, hrecords⟩ hn hseq
    rw [hw.base] at hn
    obtain ⟨pre'', cur'', hw', hrecords'⟩ := hw.openNewSegmentFiles hn hseq
    exact ⟨pre'', cur'', hw', hrecords'.trans hrecords⟩

/-- A segment opened behind all others does not change what is read. -/
theorem readSegments_openNewSegmentFiles {n : Nat} (hasc : dir.log.Ascending)
    (hle : ∀ e ∈ dir.log, e.1 ≤ n) :
    (openNewSegmentFiles dir n).dir.log.Ascending ∧
      (∀ e ∈ (openNewSegmentFiles dir n).dir.log, e.1 ≤ n) ∧
      readSegments S (openNewSegmentFiles dir n).dir = readSegments S dir := by
  have hlog : (openNewSegmentFiles dir n).dir.log = dir.log.create n := rfl
  rcases FileTable.create_of_le hle with hsame | ⟨hnew, hlt⟩
  · rw [hsame] at hlog
    refine ⟨by rw [hlog]; exact hasc, by rw [hlog]; exact hle, ?_⟩
    rw [readSegments, hlog, readSegments]
  · rw [hnew] at hlog
    have hasc' : FileTable.Ascending (dir.log ++ [(n, [])]) :=
      FileTable.ascending_concat hasc hlt
    refine ⟨by rw [hlog]; exact hasc', ?_, ?_⟩
    · intro e he
      rw [hlog] at he
      rcases List.mem_append.mp he with he | he
      · exact hle e he
      · rw [List.mem_singleton] at he
        rw [he]
    · have hempty : readBinaryEvents S [] = [] := rfl
      rw [readSegments, hlog, FileTable.sorted_of_ascending hasc', readSegments,
        FileTable.sorted_of_ascending hasc]
      simp [hempty]

/-- Opening any other directory loses an event. -/
theorem openWithConfig_loses (h : Holds dir (pre ++ [cur]))
    (hret : config.retainSegments = none) (hrec : ¬ RecoverableBytes S cur.bytes) :
    (readSegments S (openWithConfig S dir config).1).length <
      (recordsOf (pre ++ [cur])).length := by
  have hw := h.writable le_rfl
  have hlt : ∀ e ∈ pre.map Seg.entry, e.1 < cur.base := fun e he => hw.entry_lt he
  have hpre : FileTable.Ascending (pre.map Seg.entry) := by
    have hasc := h.log_ascending
    rw [hw.entries, FileTable.Ascending, List.map_append] at hasc
    exact (List.pairwise_append.mp hasc).1
  have hasc : FileTable.Ascending (pre.map Seg.entry ++ [(cur.base, keptBytes S config cur)]) :=
    FileTable.ascending_concat hpre hlt
  have hread := openWithConfig_induct (S := S) h hret (fun o => o.dir.log.Ascending ∧
    (∀ e ∈ o.dir.log, e.1 ≤ o.files.base) ∧
      readSegments S o.dir = readSegments S (recoverSegment S config dir cur.base).dir) ?_ ?_
  · rw [hread.2.2, readSegments, recoverSegment_log config h, FileTable.sorted_of_ascending hasc,
      List.flatMap_append, List.length_append,
      flatMap_readBinaryEvents fun seg hseg => h.fits seg (by simp [hseg])]
    have hfront := List.length_filterMap_le (decodeRecord S) (recordsOf pre)
    have hlast : (readBinaryEvents S (keptBytes S config cur)).length < cur.records.length :=
      lt_of_le_of_lt (List.length_filterMap_le _ _)
        (keptBytes_of_not_recoverable config h hrec)
    simp only [List.flatMap_singleton, recordsOf_append, recordsOf_singleton,
      List.length_append]
    omega
  · intro _
    refine ⟨by rw [recoverSegment_log config h]; exact hasc, ?_, rfl⟩
    intro e he
    rw [recoverSegment_log config h] at he
    rcases List.mem_append.mp he with he | he
    · exact (hlt e he).le
    · rw [List.mem_singleton] at he
      rw [he]
  · rintro o n ⟨hasc', hle, hsame⟩ hn -
    have hone := readSegments_openNewSegmentFiles (S := S) hasc' fun e he => (hle e he).trans hn
    exact ⟨hone.1, hone.2.1, hone.2.2.trans hsame⟩

/-- Recovery cuts no complete record off any segment. -/
def KeepsRecords (S : Serde) (config : SegmentConfig) (dir : Dir) : Prop :=
  ∀ n bytes, dir.log.contents n = some bytes →
    ∃ kept, (recoverSegment S config dir ((findLatestSegment dir).getD 0)).dir.log.contents n
        = some kept ∧
      kept <+: bytes ∧ scanRecords (contentBytes kept) = scanRecords (contentBytes bytes)

theorem keepsRecords_of_recoverable (h : Holds dir (pre ++ [cur]))
    (hrec : RecoverableBytes S cur.bytes) : KeepsRecords S config dir := by
  intro n bytes hbytes
  have hw := h.writable le_rfl
  have hlt : ∀ e ∈ pre.map Seg.entry, e.1 < cur.base := fun e he => hw.entry_lt he
  rw [findLatestSegment_of_holds h, Option.getD_some, recoverSegment_log config h]
  by_cases hn : n = cur.base
  · obtain ⟨cur', -, hkept, hrecords, hpre⟩ :=
      keptBytes_of_recoverable config h hrec
    have hfits := h.fits cur (by simp)
    obtain rfl : cur.bytes = bytes := by
      rw [hn, hw.contents_base] at hbytes
      exact Option.some.inj hbytes
    refine ⟨cur'.bytes, ?_, hpre, ?_⟩
    · rw [hn, FileTable.contents_concat_self hlt, hkept]
    · rw [scanRecords_contentBytes hfits, scanRecords_contentBytes (by rwa [hrecords]), hrecords]
  · refine ⟨bytes, ?_, List.prefix_rfl, rfl⟩
    rw [hw.entries, FileTable.contents_append] at hbytes
    rw [FileTable.contents_append]
    simpa [FileTable.contents_cons, hn] using hbytes

end Reopen

/-! ### Runs -/

inductive LogOp where
  | write (event : CanonEvent) (sur : Surroundings)
  | reopen (config : SegmentConfig)

/-- Gated writes, and restarts of the writer on the same directory. -/
def logMachine (env : Env) : Machine LogState LogOp where
  step s
    | .write event sur => (gateMachine env).step s (event, sur)
    | .reopen config =>
      let o := openWithConfig env.serde s.dir config
      { dir := o.1, writer := some o.2, log := s.log }

/-- No directory yet. -/
def LogState.empty : LogState := { dir := Dir.empty, writer := none, log := [] }

/-- At every point of the run exactly the persisted events can be read back, and
    no recovery in it cuts off a complete record. -/
structure Durable (env : Env) (ops : List LogOp) : Prop where
  read : ∀ before, before <+: ops →
    readSegments env.serde ((logMachine env).run .empty before).dir
      = ((logMachine env).run .empty before).log
  recovery : ∀ before config, before ++ [.reopen config] <+: ops →
    KeepsRecords env.serde config ((logMachine env).run .empty before).dir

def NoRetention : LogOp → Prop
  | .write _ _ => True
  | .reopen config => config.retainSegments = none

/-- The directory can be opened again without loss. -/
def Restartable (S : Serde) (s : LogState) : LogOp → Prop
  | .write _ _ => True
  | .reopen _ => Recoverable S s.dir

/-- The directory holds the persisted events as its records. -/
structure Stores (S : Serde) (s : LogState) (pre : List Seg) (cur : Seg) : Prop where
  holds : Holds s.dir (pre ++ [cur])
  records : recordsOf (pre ++ [cur]) = s.log.map S.toVec
  writable : ∀ w, s.writer = some w →
    w.config.retainSegments = none ∧ Writable s.dir w.files w.seq pre cur

def StoreInv (S : Serde) (s : LogState) : Prop := s = .empty ∨ ∃ pre cur, Stores S s pre cur

theorem log_mono (env : Env) (s : LogState) (ops : List LogOp) :
    s.log ⊆ ((logMachine env).run s ops).log := by
  induction ops generalizing s with
  | nil => exact List.Subset.refl _
  | cons op ops ih =>
    refine List.Subset.trans ?_ (ih ((logMachine env).step s op))
    cases op with
    | write event sur =>
      simp only [logMachine, gateMachine]
      split
      · exact List.Subset.refl _
      · exact List.subset_append_left _ _
    | reopen config => exact List.Subset.refl _

/-- A record more on disk and an event more in the log. -/
theorem Stores.append {env : Env} {s : LogState} {pre : List Seg} {cur : Seg}
    (h : Stores env.serde s pre cur) {w : Writer} (hw : s.writer = some w) {e : CanonEvent}
    {r : WriteResult} (ha : AppendedOne env.serde s.dir w e r)
    (hfit : RecordFits (env.serde.toVec (normalizeDelta e))) (stuck : Prop) [Decidable stuck] :
    ∃ pre' cur', Stores env.serde
      { dir := r.dir, writer := if stuck then none else some r.writer, log := s.log ++ r.wrote }
      pre' cur' := by
  obtain ⟨hret, hwr⟩ := h.writable w hw
  obtain ⟨pre', cur', hwr', hrecords⟩ := hwr.append hret e.ts hfit
  have hdir : Writable r.dir r.writer.files r.writer.seq pre' cur' := by
    rw [ha.dir_eq, ha.files, ha.seq]
    exact hwr'
  refine ⟨pre', cur', hdir.holds, ?_, ?_⟩
  · rw [hrecords, h.records, ha.wrote]
    simp
  · intro w' hw'
    simp only at hw'
    split at hw'
    · cases hw'
    · obtain rfl := Option.some.inj hw'
      exact ⟨by rw [ha.config]; exact hret, hdir⟩

theorem Stores.write {env : Env} {s : LogState} {pre : List Seg} {cur : Seg}
    (h : Stores env.serde s pre cur) (call : CanonEvent × Surroundings)
    (hfit : ∀ e ∈ ((gateMachine env).step s call).log, RecordFits (env.serde.toVec e)) :
    ∃ pre' cur', Stores env.serde ((gateMachine env).step s call) pre' cur' := by
  cases hw : s.writer with
  | none =>
    rw [gateMachine_idle _ hw]
    exact ⟨pre, cur, h⟩
  | some w =>
    have hend := writeCanonEvent_end env call.2 s.dir w call.1
    rw [gateMachine_write _ env hw] at hfit ⊢
    generalize writeCanonEvent env call.2 s.dir w call.1 = r at *
    cases hend with
    | nothing hu hlive _ =>
      obtain ⟨hret, hwr⟩ := h.writable w hw
      refine ⟨pre, cur, ?_, ?_, ?_⟩
      · exact ⟨by simpa [hu.dir_eq] using h.holds.entries, h.holds.ascending, h.holds.fits⟩
      · simp [hu.wrote, h.records]
      · intro w' hw'
        simp only [hlive, if_false] at hw'
        obtain rfl := Option.some.inj hw'
        refine ⟨by rw [hu.config]; exact hret, ?_⟩
        simp only [hu.dir_eq, hu.files, hu.seq]
        exact hwr
    | reported v _ ha _ _ _ => exact h.append hw ha (hfit _ (by simp [ha.wrote])) _
    | persisted ha _ _ _ _ => exact h.append hw ha (hfit _ (by simp [ha.wrote])) _

/-- The first open makes an empty segment. -/
theorem stores_reopen_empty (env : Env) {config : SegmentConfig}
    (hret : config.retainSegments = none) :
    Stores env.serde ((logMachine env).step .empty (.reopen config)) [] ⟨0, false, []⟩ := by
  have hopen : (logMachine env).step .empty (.reopen config) =
      { dir := (openWithConfig env.serde Dir.empty config).1,
        writer := some (openWithConfig env.serde Dir.empty config).2, log := [] } := rfl
  rw [hopen, openWithConfig_empty_of_none env.serde hret]
  have hholds : Holds { log := [(0, [])], idx := [(0, [])], time := [(0, [])] }
      ([] ++ [⟨0, false, []⟩]) := ⟨rfl, by simp, by simp⟩
  refine ⟨hholds, rfl, ?_⟩
  intro w hw
  obtain rfl := Option.some.inj hw
  exact ⟨hret, hholds, rfl, rfl, le_rfl⟩

theorem StoreInv.step {env : Env} {s : LogState} (h : StoreInv env.serde s) {op : LogOp}
    (hret : NoRetention op)
    (hfit : ∀ e ∈ ((logMachine env).step s op).log, RecordFits (env.serde.toVec e))
    (hguard : Restartable env.serde s op) : StoreInv env.serde ((logMachine env).step s op) := by
  rcases h with rfl | ⟨pre, cur, h⟩
  · cases op with
    | write event sur => exact .inl rfl
    | reopen config => exact .inr ⟨_, _, stores_reopen_empty env hret⟩
  · cases op with
    | write event sur => exact .inr (h.write (event, sur) hfit)
    | reopen config =>
      have hrec := (recoverable_iff_of_holds h.holds).mp hguard
      obtain ⟨pre', cur', hwr, hrecords⟩ := openWithConfig_keeps h.holds hret hrec
      refine .inr ⟨pre', cur', hwr.holds, hrecords.trans h.records, ?_⟩
      intro w hw
      obtain rfl := Option.some.inj hw
      exact ⟨hret, hwr⟩

theorem StoreInv.run {env : Env} {ops : List LogOp} {s : LogState} (h : StoreInv env.serde s)
    (hret : ∀ op ∈ ops, NoRetention op)
    (hfit : ∀ e ∈ ((logMachine env).run s ops).log, RecordFits (env.serde.toVec e))
    (hguard : (logMachine env).Along (Restartable env.serde) s ops) :
    StoreInv env.serde ((logMachine env).run s ops) := by
  induction ops generalizing s with
  | nil => exact h
  | cons op ops ih =>
    -- The guard speaks about the state of the step, the size bound about the end.
    obtain ⟨hg, hrest⟩ := hguard
    have hone := h.step (hret op (by simp)) (fun e he => hfit e (log_mono env _ ops he)) hg
    exact ih hone (fun op' hop => hret op' (by simp [hop])) hfit hrest

/-- Under the invariant, exactly the persisted events are read back. -/
theorem StoreInv.read {S : Serde} {s : LogState} (h : StoreInv S s)
    (hserde : ∀ e ∈ s.log, S.RoundTrips e) : readSegments S s.dir = s.log := by
  rcases h with rfl | ⟨pre, cur, h⟩
  · simp [readSegments, LogState.empty, Dir.empty, FileTable.sorted]
  · rw [readSegments_of_holds h.holds, h.records]
    exact filterMap_decodeRecord hserde

theorem keepsRecords_empty (S : Serde) (config : SegmentConfig) :
    KeepsRecords S config Dir.empty := by
  intro n bytes hbytes
  cases hbytes

/-- **Durability across restarts.**  A run of writes and restarts without
    retention is durable exactly when every restart in it finds a last segment
    that recovery leaves alone: one without a complete record, or one without a
    header whose bytes happen to be lines of events. -/
theorem durable_iff_restartable (env : Env) (ops : List LogOp)
    (hret : ∀ op ∈ ops, NoRetention op)
    (hfit : ∀ e ∈ ((logMachine env).run .empty ops).log, RecordFits (env.serde.toVec e))
    (hserde : ∀ e ∈ ((logMachine env).run .empty ops).log, env.serde.RoundTrips e) :
    Durable env ops ↔ (logMachine env).Along (Restartable env.serde) .empty ops := by
  have hsub : ∀ {before after}, before ++ after = ops →
      ∀ e ∈ ((logMachine env).run .empty before).log,
        e ∈ ((logMachine env).run .empty ops).log := by
    rintro before after rfl e he
    rw [Machine.run_append]
    exact log_mono env _ after he
  have hinv : ∀ before after, before ++ after = ops →
      (logMachine env).Along (Restartable env.serde) .empty before →
      StoreInv env.serde ((logMachine env).run .empty before) := by
    intro before after hsplit hguard
    refine StoreInv.run (.inl rfl) ?_ (fun e he => hfit e (hsub hsplit e he)) hguard
    intro op hop
    exact hret op (by rw [← hsplit]; simp [hop])
  constructor
  · intro hdur
    -- Induction on how far the run has come; only a restart can go wrong.
    have hpre : ∀ before after, before ++ after = ops →
        (logMachine env).Along (Restartable env.serde) .empty before := by
      intro before
      induction before using List.reverseRecOn with
      | nil => exact fun _ _ => trivial
      | append_singleton before op ih =>
        intro after hsplit
        have hbefore := ih (op :: after) (by simpa using hsplit)
        rw [Machine.along_snoc]
        refine ⟨hbefore, ?_⟩
        cases op with
        | write event sur => trivial
        | reopen config =>
          -- Up to here the invariant holds, so the directory is known.
          rcases hinv before (.reopen config :: after) (by simpa using hsplit) hbefore with
            hempty | ⟨pre, cur, h⟩
          · rw [hempty]
            intro n hn
            cases hn
          · apply (recoverable_iff_of_holds h.holds).mpr
            by_contra hbad
            have hconfig : config.retainSegments = none :=
              hret (.reopen config) (by rw [← hsplit]; simp)
            have hlost := openWithConfig_loses h.holds hconfig hbad
            have hread := hdur.read (before ++ [.reopen config]) ⟨after, hsplit⟩
            rw [Machine.run_snoc] at hread
            have hlen := congrArg List.length hread
            rw [h.records, List.length_map] at hlost
            exact absurd hlen (ne_of_lt hlost)
    exact hpre ops [] (List.append_nil ops)
  · intro hguard
    constructor
    · rintro before ⟨after, hsplit⟩
      rw [← hsplit, Machine.along_append] at hguard
      exact (hinv before after hsplit hguard.1).read fun e he => hserde e (hsub hsplit e he)
    · rintro before config ⟨after, hsplit⟩
      rw [← hsplit, Machine.along_append, Machine.along_snoc] at hguard
      obtain ⟨⟨hbefore, hrec⟩, -⟩ := hguard
      rcases hinv before (.reopen config :: after) (by simpa using hsplit) hbefore with
        hempty | ⟨pre, cur, h⟩
      · rw [hempty]
        exact keepsRecords_empty env.serde config
      · exact keepsRecords_of_recoverable h.holds ((recoverable_iff_of_holds h.holds).mp hrec)

/-! ### Sample runs -/

def sampleEnv : Env where
  serde := sampleSerde
  contentHash kind _ _ := kind.asStr.length

def sampleWrite (id : String) (ts : Nat) : LogOp :=
  .write (sampleEvent id .debug ts (.obj []))
    { parentId := "p-" ++ id, violationId := "v-" ++ id, now := ts }

/-- Restarts before the first event do no harm. -/
theorem durable_iff_restartable_sample :
    Durable sampleEnv [.reopen .default, .reopen .default, sampleWrite "e1" 5] := by
  have hlog : ∀ e ∈ ((logMachine sampleEnv).run .empty
      [.reopen .default, .reopen .default, sampleWrite "e1" 5]).log,
      ∃ entry ∈ sampleTable, entry.1 = e := by
    intro e he
    have he' : e ∈ [sampleEvent "e1" .debug 5 (.obj [])] := he
    rw [List.mem_singleton] at he'
    exact ⟨_, List.mem_cons_self .., he'.symm⟩
  refine (durable_iff_restartable sampleEnv _ ?_ ?_ ?_).mpr ⟨?_, ?_, trivial, trivial⟩
  · intro op hop
    simp only [List.mem_cons, List.not_mem_nil, or_false] at hop
    rcases hop with rfl | rfl | rfl
    · rfl
    · rfl
    · trivial
  · intro e he
    obtain ⟨entry, hentry, rfl⟩ := hlog e he
    exact recordFits_of_lt (sampleTable_size hentry)
  · intro e he
    obtain ⟨entry, hentry, rfl⟩ := hlog e he
    exact (sampleSerde_roundTrips hentry).2
  · intro n hn
    cases hn
  · intro n hn bytes hbytes
    obtain rfl : 0 = n := Option.some.inj hn
    obtain rfl : [] = bytes := Option.some.inj hbytes
    exact .inl rfl

/-- One event and one restart: the event is gone. -/
theorem restart_loses_event :
    ((logMachine sampleEnv).run .empty
        [.reopen .default, sampleWrite "e1" 5, .reopen .default]).log
      = [sampleEvent "e1" .debug 5 (.obj [])] ∧
    readSegments sampleSerde ((logMachine sampleEnv).run .empty
        [.reopen .default, sampleWrite "e1" 5, .reopen .default]).dir = [] ∧
    ¬ Durable sampleEnv [.reopen .default, sampleWrite "e1" 5, .reopen .default] := by
  have hfile : ((logMachine sampleEnv).run .empty
      [.reopen .default, sampleWrite "e1" 5, .reopen .default]).dir.log = [(0, [])] := by
    decide +kernel
  have hempty : readSegments sampleSerde ((logMachine sampleEnv).run .empty
      [.reopen .default, sampleWrite "e1" 5, .reopen .default]).dir = [] := by
    rw [readSegments, hfile, FileTable.sorted_of_ascending (by simp [FileTable.Ascending])]
    rfl
  refine ⟨rfl, hempty, ?_⟩
  intro hdur
  have hread := hdur.read _ List.prefix_rfl
  rw [show sampleEnv.serde = sampleSerde from rfl, hempty] at hread
  cases hread

end Canon.Tlog
