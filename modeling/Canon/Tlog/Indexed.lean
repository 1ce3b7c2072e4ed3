import Canon.Tlog.Gate
import Canon.Tlog.Layout

/-! # Segments with their index files

    What a writer leaves that was opened on an empty directory: segments whose records are
    numbered from the number in the file's name on, and beside each of them an index file with
    the number and the place of some of the records.

    * `position`, `indexBytes`: the place of a record, and the index file of a segment,
    * `Indexed`: what the directory holds and where the writer stands,
    * `Indexed.append`: one record more, whatever is done with header, rotation and retention,
    * `indexed_run`: every run.
-/

namespace Canon.Tlog

/-! ### Index files -/

namespace Seg

variable (config : SegmentConfig) (seg : Seg)

def headerLength : Nat := if seg.header then magicBytes.length else 0

/-- The place of the `k`-th record in the file. -/
def position (k : Nat) : Nat :=
  seg.headerLength + ((seg.records.take k).flatMap frame).length

/-- The counter of the writer behind the `k`-th record is a multiple of the stride. -/
def Counted (k : Nat) : Prop :=
  min (k + 1) (2 ^ 32 - 1) % config.indexStride = 0

instance (config : SegmentConfig) (k : Nat) : Decidable (Counted config k) :=
  inferInstanceAs (Decidable (_ = 0))

def indexRow (k : Nat) : Bytes :=
  if Counted config k then leBytes 8 (seg.base + k) ++ leBytes 8 (seg.position k) else []

def indexBytes : Bytes :=
  (List.range seg.records.length).flatMap (seg.indexRow config)

def indexEntry : Nat × Bytes :=
  (seg.base, seg.indexBytes config)

theorem bytes_length : seg.bytes.length = seg.position seg.records.length := by
  rw [bytes, position, headerLength, List.length_append, List.take_length]
  split
  · rfl
  · rfl

def push (p : Bytes) : Seg := { seg with records := seg.records ++ [p] }

theorem bytes_push (p : Bytes) : (seg.push p).bytes = seg.bytes ++ frame p := by
  show (if seg.header then magicBytes else []) ++ (seg.records ++ [p]).flatMap frame = _
  rw [List.flatMap_append, List.flatMap_singleton, ← List.append_assoc]
  rfl

theorem position_push {seg : Seg} {p : Bytes} {k : Nat} (hk : k ≤ seg.records.length) :
    (seg.push p).position k = seg.position k := by
  rw [position, position, push]
  simp only [List.take_append_of_le_length hk]
  rfl

/-- The index of a segment with one record more. -/
theorem indexBytes_push (p : Bytes) :
    (seg.push p).indexBytes config = seg.indexBytes config ++
      seg.indexRow config seg.records.length := by
  have hlength : (seg.push p).records.length = seg.records.length + 1 := by simp [push]
  rw [indexBytes, hlength, List.range_succ, List.flatMap_append, List.flatMap_singleton, indexBytes]
  congr 1
  · apply List.flatMap_congr
    intro k hk
    rw [indexRow, indexRow, position_push (Nat.le_of_lt (List.mem_range.mp hk))]
    rfl
  · rw [indexRow, indexRow, position_push le_rfl]
    rfl

theorem indexBytes_of_nil {config : SegmentConfig} {seg : Seg} (h : seg.records = []) :
    seg.indexBytes config = [] := by
  rw [indexBytes, h]
  rfl

end Seg

/-! ### Removing the oldest files -/

theorem foldl_remove_take {t : FileTable} (h : t.Ascending) (m : Nat) :
    ((t.map (·.1)).take m).foldl FileTable.remove t = t.drop m := by
  induction m generalizing t with
  | zero => rfl
  | succ m ih =>
    cases t with
    | nil => rfl
    | cons e t =>
      obtain ⟨hfirst, hrest⟩ := List.pairwise_cons.mp h
      have hremove : FileTable.remove (e :: t) e.1 = t := by
        rw [FileTable.remove, List.filter_cons_of_neg (by simp)]
        apply List.filter_eq_self.mpr
        intro d hd
        have hlt : e.1 < d.1 := hfirst d.1 (List.mem_map_of_mem hd)
        simp only [bne_iff_ne]
        omega
      rw [List.map_cons, List.take_succ_cons, List.foldl_cons, hremove, List.drop_succ_cons]
      exact ih hrest

/-! ### The directory of a writer -/

structure Indexed (config : SegmentConfig) (dir : Dir) (files : SegmentFiles) (seq : Nat)
    (pre : List Seg) (cur : Seg) : Prop where
  log : dir.log = (pre ++ [cur]).map Seg.entry
  idx : dir.idx = (pre ++ [cur]).map (Seg.indexEntry config)
  ascending : (pre ++ [cur]).Pairwise fun a b => a.base < b.base
  base : files.base = cur.base
  size : files.size = cur.bytes.length
  records : files.records = min cur.records.length (2 ^ 32 - 1)
  /-- The next record of the open segment is the one with the next number. -/
  next : cur.base + cur.records.length = seq

namespace Indexed

variable {config : SegmentConfig} {dir : Dir} {files : SegmentFiles} {seq : Nat} {pre : List Seg}
  {cur : Seg}

theorem lt_base (h : Indexed config dir files seq pre cur) {seg : Seg} (hseg : seg ∈ pre) :
    seg.base < cur.base :=
  (List.pairwise_append.mp h.ascending).2.2 seg hseg cur (by simp)

theorem log_entries (h : Indexed config dir files seq pre cur) :
    dir.log = pre.map Seg.entry ++ [(cur.base, cur.bytes)] := by
  rw [h.log, List.map_append]
  rfl

theorem idx_entries (h : Indexed config dir files seq pre cur) :
    dir.idx = pre.map (Seg.indexEntry config) ++ [(cur.base, cur.indexBytes config)] := by
  rw [h.idx, List.map_append]
  rfl

theorem log_lt (h : Indexed config dir files seq pre cur) :
    ∀ e ∈ pre.map Seg.entry, e.1 < cur.base := by
  intro e he
  obtain ⟨seg, hseg, rfl⟩ := List.mem_map.mp he
  exact h.lt_base hseg

theorem idx_lt (h : Indexed config dir files seq pre cur) :
    ∀ e ∈ pre.map (Seg.indexEntry config), e.1 < cur.base := by
  intro e he
  obtain ⟨seg, hseg, rfl⟩ := List.mem_map.mp he
  exact h.lt_base hseg

theorem ascending_replace (h : Indexed config dir files seq pre cur) {cur' : Seg}
    (hbase : cur'.base = cur.base) :
    (pre ++ [cur']).Pairwise fun a b => a.base < b.base := by
  have hasc := List.pairwise_append.mp h.ascending
  refine List.pairwise_append.mpr ⟨hasc.1, by simp, ?_⟩
  intro seg hseg seg' hseg'
  rw [List.mem_singleton.mp hseg', hbase]
  exact h.lt_base hseg

/-- The header in front of the first record leaves records and index as they are. -/
theorem writeMagic (h : Indexed config dir files seq pre cur) :
    ∃ cur', Indexed config (writeMagic ⟨dir, files⟩).dir (writeMagic ⟨dir, files⟩).files seq pre
      cur' ∧ cur'.records = cur.records := by
  by_cases hsize : files.size = 0
  · have hnil : cur.bytes = [] := by
      apply List.eq_nil_of_length_eq_zero
      rw [← h.size, hsize]
    have hrecords : cur.records = [] := by
      cases hr : cur.records with
      | nil => rfl
      | cons p ps =>
        have hlen : cur.bytes.length = 0 := by rw [hnil]; rfl
        simp [Seg.bytes, hr] at hlen
    refine ⟨{ cur with header := true }, ⟨?_, ?_, h.ascending_replace rfl, ?_, ?_, ?_, h.next⟩,
      rfl⟩
    · simp only [Tlog.writeMagic, hsize, if_true, h.base]
      rw [FileTable.append, h.log_entries, FileTable.modify_concat_self _ h.log_lt, hnil]
      simp [Seg.entry, Seg.bytes, hrecords]
    · simp only [Tlog.writeMagic, hsize, if_true]
      rw [h.idx_entries, List.map_append, Seg.indexBytes_of_nil hrecords]
      simp [Seg.indexEntry, Seg.indexBytes, hrecords]
    · simp [Tlog.writeMagic, hsize, h.base]
    · simp [Tlog.writeMagic, hsize, Seg.bytes, hrecords]
    · simp [Tlog.writeMagic, hsize, h.records]
  · refine ⟨cur, ?_, rfl⟩
    simpa [Tlog.writeMagic, hsize] using h

/-- Opening the segment of the next number. -/
theorem openNewSegmentFiles (h : Indexed config dir files seq pre cur) :
    ∃ pre' cur', Indexed config (openNewSegmentFiles dir seq).dir
      (openNewSegmentFiles dir seq).files seq pre' cur' := by
  have hle : cur.base ≤ seq := by
    have hnext := h.next
    omega
  rcases hle.eq_or_lt with heq | hlt
  -- the open segment has no record yet: its files are opened again
  · have hrecords : cur.records = [] := by
      apply List.eq_nil_of_length_eq_zero
      have hnext := h.next
      omega
    have hcreate : dir.log.create seq = dir.log := by
      rw [h.log_entries, ← heq, FileTable.create_concat_self]
    refine ⟨pre, cur, ⟨?_, ?_, h.ascending, heq.symm, ?_, ?_, h.next⟩⟩
    · simpa [Tlog.openNewSegmentFiles, hcreate] using h.log
    · simp only [Tlog.openNewSegmentFiles, FileTable.truncate, FileTable.setLen]
      rw [h.idx_entries, ← heq, FileTable.create_concat_self,
        FileTable.modify_concat_self _ h.idx_lt, List.map_append, Seg.indexBytes_of_nil hrecords]
      simp [Seg.indexEntry, Seg.indexBytes, hrecords]
    · simp only [Tlog.openNewSegmentFiles, hcreate, FileTable.size]
      rw [← heq, h.log_entries, FileTable.contents_concat_self h.log_lt]
      rfl
    · simp [Tlog.openNewSegmentFiles, hrecords]
  -- the number is new: the files go behind all others, and are empty
  · have hlog : ∀ e ∈ dir.log, e.1 < seq := by
      intro e he
      rw [h.log_entries] at he
      rcases List.mem_append.mp he with he | he
      · exact (h.log_lt e he).trans hlt
      · rw [List.mem_singleton.mp he]
        exact hlt
    have hidx : ∀ e ∈ dir.idx, e.1 < seq := by
      intro e he
      rw [h.idx_entries] at he
      rcases List.mem_append.mp he with he | he
      · exact (h.idx_lt e he).trans hlt
      · rw [List.mem_singleton.mp he]
        exact hlt
    refine ⟨pre ++ [cur], ⟨seq, false, []⟩, ⟨?_, ?_, ?_, rfl, ?_, ?_, rfl⟩⟩
    · simp only [Tlog.openNewSegmentFiles]
      rw [FileTable.create_of_lt hlog, h.log]
      simp [Seg.entry, Seg.bytes]
    · simp only [Tlog.openNewSegmentFiles, FileTable.truncate, FileTable.setLen]
      rw [FileTable.create_of_lt hidx, FileTable.modify_concat_self _ hidx, h.idx]
      simp [Seg.indexEntry, Seg.indexBytes]
    · refine List.pairwise_append.mpr ⟨h.ascending, by simp, ?_⟩
      intro seg hseg seg' hseg'
      rw [List.mem_singleton.mp hseg']
      rcases List.mem_append.mp hseg with hseg | hseg
      · exact (h.lt_base hseg).trans hlt
      · rw [List.mem_singleton.mp hseg]
        exact hlt
    · simp only [Tlog.openNewSegmentFiles, FileTable.size]
      rw [FileTable.create_of_lt hlog, FileTable.contents_concat_self hlog]
      rfl
    · rfl

/-- The oldest segments go, each with its index file; the open one stays. -/
theorem applyRetention (h : Indexed config dir files seq pre cur) (keep : Nat) :
    ∃ pre', Indexed config (applyRetention dir keep) files seq pre' cur := by
  by_cases hkeep : keep = 0
  · refine ⟨pre, ?_⟩
    rw [Tlog.applyRetention, if_pos hkeep]
    exact h
  · have hlog : dir.log.Ascending := by
      simp only [FileTable.Ascending, h.log, List.map_map]
      exact List.pairwise_map.mpr h.ascending
    have hidx : dir.idx.Ascending := by
      simp only [FileTable.Ascending, h.idx, List.map_map]
      exact List.pairwise_map.mpr h.ascending
    have hnames : dir.log.map (·.1) = dir.idx.map (·.1) := by
      rw [h.log, h.idx, List.map_map, List.map_map]
      rfl
    have hcount : (dir.log.map (·.1)).length - keep ≤ pre.length := by
      rw [h.log, List.length_map, List.length_map, List.length_append, List.length_singleton]
      omega
    have hdrop : (pre ++ [cur]).drop ((dir.log.map (·.1)).length - keep) =
        pre.drop ((dir.log.map (·.1)).length - keep) ++ [cur] :=
      List.drop_append_of_le_length hcount
    refine ⟨pre.drop ((dir.log.map (·.1)).length - keep), ?_, ?_, ?_, h.base, h.size, h.records,
      h.next⟩
    · rw [Tlog.applyRetention, if_neg hkeep]
      show ((dir.log.sorted.map (·.1)).take _).foldl FileTable.remove dir.log = _
      rw [FileTable.sorted_of_ascending hlog, foldl_remove_take hlog, ← hdrop, List.map_drop,
        ← h.log]
    · rw [Tlog.applyRetention, if_neg hkeep]
      show ((dir.log.sorted.map (·.1)).take _).foldl FileTable.remove dir.idx = _
      rw [FileTable.sorted_of_ascending hlog, hnames, foldl_remove_take hidx, ← hnames, ← hdrop,
        List.map_drop, ← h.idx]
    · rw [← hdrop]
      exact h.ascending.sublist (List.drop_sublist _ _)

theorem rotateIfFull (h : Indexed config dir files seq pre cur) (lineLen : Nat) :
    ∃ pre' cur', Indexed config (rotateIfFull config seq lineLen ⟨dir, files⟩).dir
      (rotateIfFull config seq lineLen ⟨dir, files⟩).files seq pre' cur' := by
  unfold Tlog.rotateIfFull
  split
  · obtain ⟨pre', cur', hopened⟩ := h.openNewSegmentFiles
    cases config.retainSegments with
    | none => exact ⟨pre', cur', hopened⟩
    | some keep =>
      obtain ⟨pre'', hkept⟩ := hopened.applyRetention keep
      exact ⟨pre'', cur', hkept⟩
  · exact ⟨pre, cur, h⟩

/-- The record of the next number is the next one of the open segment, with its row in the
    index. -/
theorem appendRecord (h : Indexed config dir files seq pre cur) (ts : Nat) (p : Bytes) :
    Indexed config (appendRecord config seq ts (frame p) ⟨dir, files⟩).dir
      (appendRecord config seq ts (frame p) ⟨dir, files⟩).files (seq + 1) pre (cur.push p) := by
  have hcounter : satSuccU32 files.records = min (cur.records.length + 1) (2 ^ 32 - 1) := by
    rw [satSuccU32, h.records]
    omega
  have hplace : files.size = cur.position cur.records.length := by
    rw [h.size, Seg.bytes_length]
  refine ⟨?_, ?_, h.ascending_replace rfl, h.base, ?_, ?_, ?_⟩
  · simp only [Tlog.appendRecord, h.base]
    rw [FileTable.append, h.log_entries, FileTable.modify_concat_self _ h.log_lt, List.map_append,
      List.map_singleton, Seg.entry, Seg.bytes_push]
    rfl
  · rw [List.map_append, List.map_singleton, Seg.indexEntry, Seg.indexBytes_push, Seg.indexRow]
    simp only [Tlog.appendRecord, h.base, hcounter, hplace]
    by_cases hcounted : Seg.Counted config cur.records.length
    · have hstride : min (cur.records.length + 1) (2 ^ 32 - 1) % config.indexStride = 0 := hcounted
      rw [if_pos hstride, if_pos hcounted, FileTable.append, h.idx_entries,
        FileTable.modify_concat_self _ h.idx_lt, h.next]
      rfl
    · have hstride : ¬ min (cur.records.length + 1) (2 ^ 32 - 1) % config.indexStride = 0 :=
        hcounted
      rw [if_neg hstride, if_neg hcounted, h.idx_entries, List.append_nil]
      rfl
  · simp [Tlog.appendRecord, Seg.bytes_push, h.size]
  · rw [show (cur.push p).records.length = cur.records.length + 1 by simp [Seg.push]]
    exact hcounter
  · rw [show (cur.push p).records.length = cur.records.length + 1 by simp [Seg.push]]
    have hnext := h.next
    show cur.base + _ = _
    omega

/-- One record more, whatever is done with header, rotation and retention. -/
theorem append (h : Indexed config dir files seq pre cur) (ts : Nat) (p : Bytes) :
    ∃ pre' cur', Indexed config (appendedRecord config seq ts p ⟨dir, files⟩).dir
      (appendedRecord config seq ts p ⟨dir, files⟩).files (seq + 1) pre' cur' := by
  obtain ⟨cur₁, h₁, -⟩ := h.writeMagic
  obtain ⟨pre₂, cur₂, h₂⟩ := h₁.rotateIfFull (frame p).length
  exact ⟨pre₂, cur₂.push p, h₂.appendRecord ts p⟩

end Indexed

/-! ### Runs -/

/-- The segments of a directory that a session has written, with their index files. -/
def HoldsIndexed (config : SegmentConfig) (dir : Dir) (segs : List Seg) : Prop :=
  dir.log = segs.map Seg.entry ∧ dir.idx = segs.map (Seg.indexEntry config) ∧
    segs.Pairwise fun a b => a.base < b.base

/-- Where the writer stands, when there is one. -/
def SessionInv (config : SegmentConfig) (s : LogState) : Prop :=
  ∃ files seq pre cur, Indexed config s.dir files seq pre cur ∧
    ∀ w, s.writer = some w → w.config = config ∧ w.files = files ∧ w.seq = seq

theorem SessionInv.initial (env : Env) (config : SegmentConfig) :
    SessionInv config (.opened env Dir.empty config) := by
  have hempty : Indexed config ⟨[(0, [])], [(0, [])], [(0, [])]⟩ ⟨0, 0, none, 0⟩ 0 []
      ⟨0, false, []⟩ := ⟨rfl, rfl, by simp, rfl, rfl, rfl, rfl⟩
  rw [LogState.opened, openWithConfig_empty]
  have hwriter : ∀ (v w : Writer), some v = some w → v.config = config →
      v.files = ⟨0, 0, none, 0⟩ → v.seq = 0 →
        w.config = config ∧ w.files = ⟨0, 0, none, 0⟩ ∧ w.seq = 0 := by
    intro v w hw hconfig hfiles hseq
    rw [← Option.some.inj hw]
    exact ⟨hconfig, hfiles, hseq⟩
  cases config.retainSegments with
  | none => exact ⟨_, 0, [], _, hempty, fun w hw => hwriter _ w hw rfl rfl rfl⟩
  | some keep =>
    obtain ⟨pre, hkept⟩ := hempty.applyRetention keep
    exact ⟨_, 0, pre, _, hkept, fun w hw => hwriter _ w hw rfl rfl rfl⟩

theorem SessionInv.step {env : Env} {config : SegmentConfig} {s : LogState}
    (h : SessionInv config s) (call : CanonEvent × Surroundings) :
    SessionInv config ((gateMachine env).step s call) := by
  obtain ⟨files, seq, pre, cur, hindexed, hwriter⟩ := h
  cases hw : s.writer with
  | none =>
    rw [gateMachine_idle _ hw]
    exact ⟨files, seq, pre, cur, hindexed, hwriter⟩
  | some w =>
    obtain ⟨hconfig, hfiles, hseq⟩ := hwriter w hw
    rw [gateMachine_write _ env hw]
    dsimp only
    have hend := writeCanonEvent_end env call.2 s.dir w call.1
    generalize writeCanonEvent env call.2 s.dir w call.1 = r at hend
    have happended : ∀ e, AppendedOne env.serde s.dir w e r → SessionInv config
        { dir := r.dir, writer := if r.outcome = .stuck then none else some r.writer,
          log := s.log ++ r.wrote } := by
      intro e happend
      obtain ⟨pre', cur', hnext⟩ :=
        hindexed.append e.ts (env.serde.toVec (normalizeDelta e))
      refine ⟨r.writer.files, seq + 1, pre', cur', ?_, ?_⟩
      · rw [happend.files]
        show Indexed config r.dir _ _ _ _
        rw [happend.dir_eq, appended, hconfig, hfiles, hseq]
        exact hnext
      · intro w' hw'
        split at hw'
        · cases hw'
        · rw [← Option.some.inj hw']
          exact ⟨by rw [happend.config, hconfig], rfl, by rw [happend.seq, hseq]⟩
    cases hend with
    | nothing unwritten live pending =>
      refine ⟨files, seq, pre, cur, ?_, ?_⟩
      · show Indexed config r.dir _ _ _ _
        rw [unwritten.dir_eq]
        exact hindexed
      · intro w' hw'
        rw [if_neg live] at hw'
        rw [← Option.some.inj hw', unwritten.config, unwritten.files, unwritten.seq]
        exact ⟨hconfig, hfiles, hseq⟩
    | reported violation kind append lastEvent pending refused => exact happended _ append
    | persisted append passes lastEvent pending outcome => exact happended _ append

theorem indexed_run (env : Env) (config : SegmentConfig)
    (calls : List (CanonEvent × Surroundings)) :
    ∃ segs, HoldsIndexed config
      ((gateMachine env).run (.opened env Dir.empty config) calls).dir segs := by
  obtain ⟨_, _, pre, cur, hindexed, _⟩ := (gateMachine env).run_invariant
    (I := SessionInv config) (fun _ call h => h.step call) calls (SessionInv.initial env config)
  exact ⟨pre ++ [cur], hindexed.log, hindexed.idx, hindexed.ascending⟩

end Canon.Tlog
