import Canon.Tlog.Writer

/-! # What a log directory holds

    The abstract side of the binary log: a directory is a list of segments, a
    segment is a list of records, perhaps behind a header.  `Holds` connects it to
    the bytes on disk, `Writable` adds what a writer needs to know about the
    segment it has open.

    The header is written to a file that is empty when its first record comes; a
    segment opened by rotation gets its first record without one.  The reader has
    to tell the two apart by the first four bytes, which works as long as no
    record is as long as the header read as a number.
-/

namespace Canon.Tlog

/-! ### Segments -/

structure Seg where
  base : Nat
  header : Bool
  records : List Bytes

namespace Seg

def bytes (seg : Seg) : Bytes :=
  (if seg.header then magicBytes else []) ++ seg.records.flatMap frame

def entry (seg : Seg) : Nat × Bytes := (seg.base, seg.bytes)

end Seg

/-- A record whose length fits the length field and is not taken for a header. -/
def RecordFits (p : Bytes) : Prop := p.length < 2 ^ 32 ∧ p.length ≠ magic

theorem recordFits_of_lt {p : Bytes} (h : p.length < 2 ^ 30) : RecordFits p := by
  unfold RecordFits magic
  omega

/-! ### Reading a segment back -/

theorem isBinaryMagic_append_magicBytes (bs : Bytes) :
    isBinaryMagic (magicBytes ++ bs) = true := by
  have htake : (magicBytes ++ bs).take 4 = magicBytes := by simp [magicBytes]
  have hmagic : ofLe magicBytes = magic := by decide
  have hlen : 4 ≤ (magicBytes ++ bs).length := by simp [magicBytes]
  simp only [isBinaryMagic, htake, hmagic, hlen, decide_true, beq_self_eq_true, Bool.and_self]

theorem isBinaryMagic_frame_append {p : Bytes} (hp : RecordFits p) (bs : Bytes) :
    isBinaryMagic (frame p ++ bs) = false := by
  have htake : (frame p ++ bs).take 4 = leBytes 4 p.length := by simp [frame]
  have hlen : ofLe (leBytes 4 p.length) = p.length := ofLe_leBytes_of_lt (by simpa using hp.1)
  simp [isBinaryMagic, htake, hlen, hp.2]

theorem isBinaryMagic_bytes {seg : Seg} (hfit : ∀ p ∈ seg.records, RecordFits p) :
    isBinaryMagic seg.bytes = seg.header := by
  obtain ⟨base, header, records⟩ := seg
  cases header with
  | true => simpa [Seg.bytes] using isBinaryMagic_append_magicBytes _
  | false =>
    cases records with
    | nil => simp [Seg.bytes, isBinaryMagic]
    -- The first four bytes are the length of the first record.
    | cons p ps => simpa [Seg.bytes] using isBinaryMagic_frame_append (hfit p (by simp)) _

/-- The records of a segment are read back from its bytes, header or not. -/
theorem scanRecords_contentBytes {seg : Seg} (hfit : ∀ p ∈ seg.records, RecordFits p) :
    scanRecords (contentBytes seg.bytes) = seg.records := by
  have hframes : scanRecords (seg.records.flatMap frame) = seg.records := by
    simpa using scanRecords_frames [] (fun p hp => (hfit p hp).1)
  have hmagic := isBinaryMagic_bytes hfit
  obtain ⟨base, header, records⟩ := seg
  cases header with
  | false =>
    have hbytes : Seg.bytes ⟨base, false, records⟩ = records.flatMap frame := rfl
    simp only [contentBytes, hmagic, Bool.false_and, Bool.false_eq_true, if_false]
    rw [hbytes, hframes]
  | true =>
    cases records with
    | nil =>
      have hbytes : Seg.bytes ⟨base, true, []⟩ = magicBytes := by simp [Seg.bytes]
      rw [hbytes]
      -- A header alone is not stripped: the reader takes it for a length that is
      -- never met.
      show scanRecords (contentBytes magicBytes) = []
      decide
    | cons p ps =>
      have hlong : 4 < (Seg.bytes ⟨base, true, p :: ps⟩).length := by
        simp [Seg.bytes, magicBytes]
      have hdrop : (Seg.bytes ⟨base, true, p :: ps⟩).drop 4 = (p :: ps).flatMap frame := by
        simp [Seg.bytes, magicBytes]
      simpa [contentBytes, hmagic, hlong, hdrop] using hframes

/-! ### Directories -/

/-- The records of a list of segments, in order. -/
def recordsOf (segs : List Seg) : List Bytes := segs.flatMap Seg.records

@[simp] theorem recordsOf_append (segs segs' : List Seg) :
    recordsOf (segs ++ segs') = recordsOf segs ++ recordsOf segs' := by
  simp [recordsOf]

@[simp] theorem recordsOf_singleton (seg : Seg) : recordsOf [seg] = seg.records := by
  simp [recordsOf]

/-- The `.log` files of `dir` are exactly `segs`. -/
structure Holds (dir : Dir) (segs : List Seg) : Prop where
  entries : dir.log = segs.map Seg.entry
  ascending : segs.Pairwise fun a b => a.base < b.base
  fits : ∀ seg ∈ segs, ∀ p ∈ seg.records, RecordFits p

theorem Holds.log_ascending {dir : Dir} {segs : List Seg} (h : Holds dir segs) :
    dir.log.Ascending := by
  simp only [FileTable.Ascending, h.entries, List.map_map]
  exact List.pairwise_map.mpr h.ascending

theorem flatMap_readBinaryEvents {S : Serde} {segs : List Seg}
    (hfit : ∀ seg ∈ segs, ∀ p ∈ seg.records, RecordFits p) :
    (segs.map Seg.entry).flatMap (fun e => readBinaryEvents S e.2)
      = (recordsOf segs).filterMap (decodeRecord S) := by
  induction segs with
  | nil => rfl
  | cons seg segs ih =>
    have hseg : readBinaryEvents S seg.bytes = seg.records.filterMap (decodeRecord S) := by
      rw [readBinaryEvents, scanRecords_contentBytes (hfit seg (by simp))]
    have hrest := ih fun seg' h' => hfit seg' (by simp [h'])
    simp only [List.map_cons, List.flatMap_cons, Seg.entry, hseg, recordsOf,
      List.filterMap_append] at hrest ⊢
    rw [hrest]

/-- Reading all segments in order gives the records in order. -/
theorem readSegments_of_holds {S : Serde} {dir : Dir} {segs : List Seg} (h : Holds dir segs) :
    readSegments S dir = (recordsOf segs).filterMap (decodeRecord S) := by
  rw [readSegments, FileTable.sorted_of_ascending h.log_ascending, h.entries]
  exact flatMap_readBinaryEvents h.fits

/-- Records that are serialised events decode to these events. -/
theorem filterMap_decodeRecord {S : Serde} {events : List CanonEvent}
    (h : ∀ e ∈ events, S.RoundTrips e) :
    (events.map S.toVec).filterMap (decodeRecord S) = events := by
  induction events with
  | nil => rfl
  | cons e events ih =>
    have he : decodeRecord S (S.toVec e) = some e := by
      have hrt : S.fromStr (S.toStr e) = some e := h e (by simp)
      simp [decodeRecord, Serde.toVec, hrt]
    simp [he, ih fun e' h' => h e' (by simp [h'])]

/-! ### The segment open for writing -/

/-- The directory holds `pre` and, as its last segment, the open one. -/
structure Writable (dir : Dir) (files : SegmentFiles) (seq : Nat) (pre : List Seg) (cur : Seg) :
    Prop where
  holds : Holds dir (pre ++ [cur])
  base : files.base = cur.base
  size : files.size = cur.bytes.length
  base_le : cur.base ≤ seq

/-- One append, whatever it does with header and rotation. -/
abbrev appendedRecord (config : SegmentConfig) (seq ts : Nat) (p : Bytes) (o : OpenSegment) :
    OpenSegment :=
  appendRecord config seq ts (frame p) (rotateIfFull config seq (frame p).length (writeMagic o))

/-- What the directory holds and where the writer stands, without a word on the
    size of the records. -/
structure Stored (dir : Dir) (files : SegmentFiles) (seq : Nat) (pre : List Seg) (cur : Seg) :
    Prop where
  log : dir.log = (pre ++ [cur]).map Seg.entry
  ascending : (pre ++ [cur]).Pairwise fun a b => a.base < b.base
  base : files.base = cur.base
  size : files.size = cur.bytes.length
  base_le : cur.base ≤ seq

namespace Stored

variable {dir : Dir} {files : SegmentFiles} {seq : Nat} {pre : List Seg} {cur : Seg}

theorem lt_base (h : Stored dir files seq pre cur) {seg : Seg} (hseg : seg ∈ pre) :
    seg.base < cur.base :=
  (List.pairwise_append.mp h.ascending).2.2 seg hseg cur (by simp)

theorem entries (h : Stored dir files seq pre cur) :
    dir.log = pre.map Seg.entry ++ [(cur.base, cur.bytes)] := by
  simpa [Seg.entry] using h.log

theorem entry_lt (h : Stored dir files seq pre cur) {e : Nat × Bytes}
    (he : e ∈ pre.map Seg.entry) : e.1 < cur.base := by
  obtain ⟨seg, hseg, rfl⟩ := List.mem_map.mp he
  exact h.lt_base hseg

theorem contents_base (h : Stored dir files seq pre cur) :
    dir.log.contents cur.base = some cur.bytes := by
  rw [h.entries]
  exact FileTable.contents_concat_self fun e he => h.entry_lt he

/-- Replacing the open segment by one with the same number. -/
theorem replace (h : Stored dir files seq pre cur) (dir' : Dir) (cur' : Seg)
    (hlog : dir'.log = dir.log.modify cur.base fun _ => cur'.bytes)
    (hbase : cur'.base = cur.base) :
    dir'.log = (pre ++ [cur']).map Seg.entry ∧
      (pre ++ [cur']).Pairwise fun a b => a.base < b.base := by
  constructor
  · rw [hlog, h.entries, FileTable.modify_concat_self _ fun e he => h.entry_lt he]
    simp [Seg.entry, hbase]
  · have hasc := List.pairwise_append.mp h.ascending
    refine List.pairwise_append.mpr ⟨hasc.1, by simp, ?_⟩
    intro seg hseg seg' hseg'
    rw [List.mem_singleton] at hseg'
    rw [hseg', hbase]
    exact h.lt_base hseg

/-- Appending bytes to the open segment. -/
theorem append_eq_modify (h : Stored dir files seq pre cur) (bs : Bytes) :
    dir.log.append cur.base bs = dir.log.modify cur.base fun _ => cur.bytes ++ bs := by
  rw [FileTable.append, h.entries, FileTable.modify_concat_self _ fun e he => h.entry_lt he,
    FileTable.modify_concat_self _ fun e he => h.entry_lt he]

/-- The header in front of the first record leaves the records as they are. -/
theorem writeMagic (h : Stored dir files seq pre cur) :
    ∃ cur', Stored (writeMagic ⟨dir, files⟩).dir (writeMagic ⟨dir, files⟩).files seq pre cur'
      ∧ cur'.records = cur.records := by
  by_cases hsize : files.size = 0
  -- An empty file has neither a header nor records.
  · have hnil : cur.bytes = [] := by
      apply List.eq_nil_of_length_eq_zero
      rw [← h.size, hsize]
    have hrec : cur.records = [] := by
      cases hr : cur.records with
      | nil => rfl
      | cons p ps =>
        have hlen : cur.bytes.length = 0 := by rw [hnil]; rfl
        simp [Seg.bytes, hr] at hlen
    have hrep := h.replace (Tlog.writeMagic ⟨dir, files⟩).dir { cur with header := true }
      (by
        simp only [Tlog.writeMagic, hsize, if_true, h.base]
        rw [h.append_eq_modify, hnil]
        simp [Seg.bytes, hrec]) rfl
    refine ⟨{ cur with header := true }, ⟨hrep.1, hrep.2, ?_, ?_, h.base_le⟩, rfl⟩
    · simp [Tlog.writeMagic, hsize, h.base]
    · simp [Tlog.writeMagic, hsize, Seg.bytes, hrec]
  · refine ⟨cur, ?_, rfl⟩
    simpa [Tlog.writeMagic, hsize] using h

/-- Opening the segment `n` leaves every record where it is, as long as `n` is
    not below the segment that was open. -/
theorem openNewSegmentFiles (h : Stored dir files seq pre cur) {n : Nat} (hn : cur.base ≤ n)
    (hseq : n ≤ seq) :
    ∃ pre' cur', Stored (openNewSegmentFiles dir n).dir (openNewSegmentFiles dir n).files seq
        pre' cur' ∧ recordsOf (pre' ++ [cur']) = recordsOf (pre ++ [cur]) := by
  rcases hn.eq_or_lt with hn | hn
  -- The file exists already and is opened behind its contents.
  · have hcreate : dir.log.create n = dir.log := by
      rw [h.entries, ← hn, FileTable.create_concat_self]
    refine ⟨pre, cur, ⟨?_, h.ascending, hn.symm, ?_, h.base_le⟩, rfl⟩
    · simpa [Tlog.openNewSegmentFiles, hcreate] using h.log
    · simp only [Tlog.openNewSegmentFiles, hcreate, FileTable.size]
      rw [← hn, h.contents_base]
      rfl
  -- The number is new: the file goes behind all others, and is empty.
  · have hlt : ∀ e ∈ dir.log, e.1 < n := by
      intro e he
      rw [h.entries] at he
      rcases List.mem_append.mp he with he | he
      · exact (h.entry_lt he).trans hn
      · rw [List.mem_singleton] at he
        rw [he]
        exact hn
    have hcreate : dir.log.create n = dir.log ++ [(n, [])] := FileTable.create_of_lt hlt
    refine ⟨pre ++ [cur], ⟨n, false, []⟩, ⟨?_, ?_, rfl, ?_, hseq⟩, ?_⟩
    · simp only [Tlog.openNewSegmentFiles, hcreate]
      rw [h.log]
      simp [Seg.entry, Seg.bytes]
    · refine List.pairwise_append.mpr ⟨h.ascending, by simp, ?_⟩
      intro seg hseg seg' hseg'
      rw [List.mem_singleton] at hseg'
      rw [hseg']
      rcases List.mem_append.mp hseg with hseg | hseg
      · exact (h.lt_base hseg).trans hn
      · rw [List.mem_singleton] at hseg
        rw [hseg]
        exact hn
    · simp [Tlog.openNewSegmentFiles, hcreate, FileTable.size,
        FileTable.contents_concat_self hlt, Seg.bytes]
    · rw [recordsOf_append, recordsOf_singleton, List.append_nil]

theorem rotateIfFull {o : OpenSegment} (h : Stored o.dir o.files seq pre cur)
    {config : SegmentConfig} (hret : config.retainSegments = none) (lineLen : Nat) :
    ∃ pre' cur', Stored (rotateIfFull config seq lineLen o).dir
        (rotateIfFull config seq lineLen o).files seq pre' cur'
      ∧ recordsOf (pre' ++ [cur']) = recordsOf (pre ++ [cur]) := by
  by_cases hfull : o.files.size + lineLen > config.maxBytes
  · simpa [Tlog.rotateIfFull, hfull, hret] using h.openNewSegmentFiles h.base_le le_rfl
  · refine ⟨pre, cur, ?_, rfl⟩
    simpa [Tlog.rotateIfFull, hfull] using h

theorem appendRecord {o : OpenSegment} (h : Stored o.dir o.files seq pre cur)
    (config : SegmentConfig) (ts : Nat) (p : Bytes) :
    ∃ cur', Stored (appendRecord config seq ts (frame p) o).dir
        (appendRecord config seq ts (frame p) o).files (seq + 1) pre cur'
      ∧ recordsOf (pre ++ [cur']) = recordsOf (pre ++ [cur]) ++ [p] := by
  have hbytes : Seg.bytes { cur with records := cur.records ++ [p] } = cur.bytes ++ frame p := by
    simp [Seg.bytes]
  have hrep := h.replace (Tlog.appendRecord config seq ts (frame p) o).dir
    { cur with records := cur.records ++ [p] }
    (by
      simp only [Tlog.appendRecord, h.base, hbytes]
      exact h.append_eq_modify _) rfl
  refine ⟨{ cur with records := cur.records ++ [p] },
    ⟨hrep.1, hrep.2, h.base, ?_, h.base_le.trans (Nat.le_succ seq)⟩, by simp⟩
  simp [Tlog.appendRecord, hbytes, h.size]

/-- One append adds one record. -/
theorem append (h : Stored dir files seq pre cur) {config : SegmentConfig}
    (hret : config.retainSegments = none) (ts : Nat) (p : Bytes) :
    ∃ pre' cur',
      Stored (appendedRecord config seq ts p ⟨dir, files⟩).dir
        (appendedRecord config seq ts p ⟨dir, files⟩).files (seq + 1) pre' cur'
      ∧ recordsOf (pre' ++ [cur']) = recordsOf (pre ++ [cur]) ++ [p] := by
  obtain ⟨cur₁, h₁, hrec₁⟩ := h.writeMagic
  obtain ⟨pre₂, cur₂, h₂, hrec₂⟩ := h₁.rotateIfFull hret (frame p).length
  obtain ⟨cur₃, h₃, hrec₃⟩ := h₂.appendRecord config ts p
  refine ⟨pre₂, cur₃, h₃, ?_⟩
  rw [hrec₃, hrec₂]
  simp [hrec₁]

end Stored

theorem writable_iff {dir : Dir} {files : SegmentFiles} {seq : Nat} {pre : List Seg} {cur : Seg} :
    Writable dir files seq pre cur ↔
      Stored dir files seq pre cur ∧ ∀ p ∈ recordsOf (pre ++ [cur]), RecordFits p := by
  constructor
  · rintro ⟨⟨hlog, hasc, hfits⟩, hbase, hsize, hle⟩
    refine ⟨⟨hlog, hasc, hbase, hsize, hle⟩, ?_⟩
    intro p hp
    obtain ⟨seg, hseg, hp⟩ := List.mem_flatMap.mp hp
    exact hfits seg hseg p hp
  · rintro ⟨⟨hlog, hasc, hbase, hsize, hle⟩, hfits⟩
    exact ⟨⟨hlog, hasc, fun seg hseg p hp => hfits p (List.mem_flatMap.mpr ⟨seg, hseg, hp⟩)⟩,
      hbase, hsize, hle⟩

namespace Writable

variable {dir : Dir} {files : SegmentFiles} {seq : Nat} {pre : List Seg} {cur : Seg}

theorem stored (h : Writable dir files seq pre cur) : Stored dir files seq pre cur :=
  (writable_iff.mp h).1

theorem fits (h : Writable dir files seq pre cur) : ∀ p ∈ recordsOf (pre ++ [cur]), RecordFits p :=
  (writable_iff.mp h).2

theorem entries (h : Writable dir files seq pre cur) :
    dir.log = pre.map Seg.entry ++ [(cur.base, cur.bytes)] :=
  h.stored.entries

theorem entry_lt (h : Writable dir files seq pre cur) {e : Nat × Bytes}
    (he : e ∈ pre.map Seg.entry) : e.1 < cur.base :=
  h.stored.entry_lt he

theorem contents_base (h : Writable dir files seq pre cur) :
    dir.log.contents cur.base = some cur.bytes :=
  h.stored.contents_base

theorem holds_replace (h : Writable dir files seq pre cur) {dir' : Dir} {cur' : Seg}
    (hlog : dir'.log = dir.log.modify cur.base fun _ => cur'.bytes)
    (hbase : cur'.base = cur.base) (hfit : ∀ p ∈ cur'.records, RecordFits p) :
    Holds dir' (pre ++ [cur']) := by
  obtain ⟨hentries, hasc⟩ := h.stored.replace dir' cur' hlog hbase
  refine ⟨hentries, hasc, ?_⟩
  intro seg hseg
  rcases List.mem_append.mp hseg with hseg | hseg
  · exact h.holds.fits seg (by simp [hseg])
  · rw [List.mem_singleton] at hseg
    rw [hseg]
    exact hfit

theorem openNewSegmentFiles (h : Writable dir files seq pre cur) {n : Nat} (hn : cur.base ≤ n)
    (hseq : n ≤ seq) :
    ∃ pre' cur', Writable (openNewSegmentFiles dir n).dir (openNewSegmentFiles dir n).files seq
        pre' cur' ∧ recordsOf (pre' ++ [cur']) = recordsOf (pre ++ [cur]) := by
  obtain ⟨pre', cur', hstored, hrec⟩ := h.stored.openNewSegmentFiles hn hseq
  exact ⟨pre', cur', writable_iff.mpr ⟨hstored, by rw [hrec]; exact h.fits⟩, hrec⟩

/-- One append adds one record. -/
theorem append (h : Writable dir files seq pre cur) {config : SegmentConfig}
    (hret : config.retainSegments = none) (ts : Nat) {p : Bytes} (hp : RecordFits p) :
    ∃ pre' cur',
      Writable (appendedRecord config seq ts p ⟨dir, files⟩).dir
        (appendedRecord config seq ts p ⟨dir, files⟩).files (seq + 1) pre' cur'
      ∧ recordsOf (pre' ++ [cur']) = recordsOf (pre ++ [cur]) ++ [p] := by
  obtain ⟨pre', cur', hstored, hrec⟩ := h.stored.append hret ts p
  refine ⟨pre', cur', writable_iff.mpr ⟨hstored, ?_⟩, hrec⟩
  intro q hq
  rw [hrec] at hq
  rcases List.mem_append.mp hq with hq | hq
  · exact h.fits q hq
  · rw [List.mem_singleton] at hq
    rw [hq]
    exact hp

end Writable

/-! ### An empty directory -/

theorem openWithConfig_empty (S : Serde) (config : SegmentConfig) :
    openWithConfig S Dir.empty config =
      (config.retainSegments.elim ⟨[(0, [])], [(0, [])], [(0, [])]⟩
          (applyRetention ⟨[(0, [])], [(0, [])], [(0, [])]⟩),
        { config := config, seq := 0, lastTs := 0,
          files := { base := 0, size := 0, lastTimeBucket := none, records := 0 },
          dedup := DedupCache.new 1024, rejectedEdges := DedupCache.new 1024,
          lastEvent := none, pending := none }) := by
  have hopened : openWithConfig S Dir.empty config =
      let o : OpenSegment := if 0 ≥ config.maxBytes then
          openNewSegmentFiles ⟨[(0, [])], [(0, [])], [(0, [])]⟩ 0
        else ⟨⟨[(0, [])], [(0, [])], [(0, [])]⟩, ⟨0, 0, none, 0⟩⟩
      (config.retainSegments.elim o.dir (applyRetention o.dir),
        { config := config, seq := 0, lastTs := 0, files := o.files,
          dedup := DedupCache.new 1024, rejectedEdges := DedupCache.new 1024,
          lastEvent := none, pending := none }) := by
    obtain ⟨_, _, _, retainSegments, _, _⟩ := config
    cases retainSegments with
    | none => rfl
    | some keep => rfl
  -- A segment that is full while it is empty is opened once more under the same number.
  have hagain : openNewSegmentFiles ⟨[(0, [])], [(0, [])], [(0, [])]⟩ 0 =
      ⟨⟨[(0, [])], [(0, [])], [(0, [])]⟩, ⟨0, 0, none, 0⟩⟩ := rfl
  rw [hopened, hagain]
  simp only [ite_self]

end Canon.Tlog
