import Canon.Lib.FileTable
import Canon.Lib.Text
import Canon.Tlog.Event

/-! # Segment files of the binary log

    A log directory holds numbered segments.  Segment `n` is a `.log` file with
    the records, an `.idx` file with sparse offsets and a `.time` file with time
    buckets; `n` is the sequence number the segment was opened with.

    This module has the parts that work on the files alone: opening a segment,
    retention, recovery after a restart (`binary.rs`) and reading a segment back
    (`binary_reader.rs`).  File operations are taken to succeed.
-/

namespace Canon.Tlog

variable (S : Serde) (event : CanonEvent)

/-! ### Serialisation -/

structure LegacyEventMeta where
  ts : Nat
  source : String
  file : String
  line : Nat

structure LegacyCanonEvent where
  eventId : Option Nat
  eventMeta : LegacyEventMeta
  kind : String
  data : Option Json

/-- The JSON library's part in the log: how an event is printed and what a text
    is parsed to.  `freshId` is the random id a legacy record without one gets. -/
structure Serde where
  toStr : CanonEvent → Text
  fromStr : Text → Option CanonEvent
  legacyFromStr : Text → Option LegacyCanonEvent
  kindFromStr : String → Option EventKind
  freshId : Text → String

/-- The serialised event as it goes to disk. -/
def Serde.toVec : Bytes := utf8 (S.toStr event)

/-- Printing an event and parsing the text gives the event back. -/
def Serde.RoundTrips : Prop :=
  S.fromStr (S.toStr event) = some event

/-- The library as it behaves on a few events whose texts are listed. -/
def Serde.ofTable (table : List (CanonEvent × String)) : Serde where
  toStr event := ((table.find? (·.1.id == event.id)).map (·.2.toList)).getD []
  fromStr text := (table.find? (·.2 == String.ofList text)).map (·.1)
  legacyFromStr _ := none
  kindFromStr _ := none
  freshId _ := ""

theorem Serde.ofTable_roundTrips {table : List (CanonEvent × String)}
    (hid : (table.map (·.1.id)).Nodup) (htext : (table.map (·.2)).Nodup)
    {entry : CanonEvent × String} (h : entry ∈ table) :
    (Serde.ofTable table).toStr entry.1 = entry.2.toList ∧
      (Serde.ofTable table).RoundTrips entry.1 := by
  have hfind : ∀ {β : Type} [BEq β] [LawfulBEq β] (f : CanonEvent × String → β),
      (table.map f).Nodup → table.find? (f · == f entry) = some entry := by
    intro β _ _ f hnd
    rw [List.find?_eq_some_iff_append]
    obtain ⟨before, after, rfl⟩ := List.append_of_mem h
    refine ⟨by simp, before, after, rfl, ?_⟩
    intro a ha
    rw [List.map_append, List.nodup_append] at hnd
    have hne := hnd.2.2 (f a) (List.mem_map_of_mem ha) (f entry) (by simp)
    simpa using hne
  have hto : (Serde.ofTable table).toStr entry.1 = entry.2.toList := by
    simp [Serde.ofTable, hfind (·.1.id) hid]
  refine ⟨hto, ?_⟩
  rw [Serde.RoundTrips, hto]
  simp [Serde.ofTable, hfind (·.2) htext]

def autoDelta : Json := .obj [("_auto", .bool true)]

def sampleEvent (id : String) (kind : EventKind) (ts : Nat) (data : Json) : CanonEvent where
  id := id
  parentIds := ["p"]
  actor := "a"
  kind := kind
  ts := ts
  payload :=
    { input := .obj [], output := .obj [], delta := autoDelta,
      payloadMeta := { file := "f", line := 1 }, data := data }
  prevEventId := none

/-- The text of a sample event as the JSON library prints it, given the text of
    its data. -/
def sampleText (id kind : String) (ts : Nat) (data : String) : String :=
  "\x7b\"id\":\"" ++ id ++ "\",\"parent_ids\":[\"p\"],\"actor\":\"a\",\"kind\":\"" ++ kind
    ++ "\",\"ts\":" ++ toString ts
    ++ ",\"payload\":\x7b\"input\":\x7b\x7d,\"output\":\x7b\x7d,\"delta\":\x7b\"_auto\":true\x7d,"
    ++ "\"meta\":\x7b\"file\":\"f\",\"line\":1\x7d,\"data\":" ++ data ++ "\x7d\x7d"

/-- A sample text begins and ends with a brace. -/
theorem sampleText_toList (id kind : String) (ts : Nat) (data : String) :
    ∃ middle, (sampleText id kind ts data).toList = '\x7b' :: middle ++ ['\x7d'] := by
  have hopen : "\x7b\"id\":\"" = "\x7b" ++ "\"id\":\"" := by decide
  have hclose : "\x7d\x7d" = "\x7d" ++ "\x7d" := by decide
  have hfirst : "\x7b".toList = ['\x7b'] := by decide
  have hlast : "\x7d".toList = ['\x7d'] := by decide
  unfold sampleText
  rw [hopen, hclose]
  simp only [← String.append_assoc]
  rw [String.toList_append]
  simp only [String.append_assoc]
  rw [String.toList_append, hfirst, hlast]
  exact ⟨_, rfl⟩

/-! ### Reading a segment -/

/-- "TLOG". -/
def magic : Nat := 0x544C4F47

def magicBytes : Bytes := leBytes 4 magic

def isBinaryMagic (bytes : Bytes) : Bool :=
  4 ≤ bytes.length && ofLe (bytes.take 4) == magic

def upgradeLegacyEvent (text : Text) (old : LegacyCanonEvent) : CanonEvent where
  id := match old.eventId with
    | some v => toString v
    | none => S.freshId text
  parentIds := []
  actor := old.eventMeta.source
  kind := (S.kindFromStr old.kind).getD .debug
  ts := old.eventMeta.ts
  payload :=
    { input := .obj [], output := .obj [], delta := .obj [],
      payloadMeta := { file := old.eventMeta.file, line := old.eventMeta.line },
      data := old.data.getD (.obj []) }
  prevEventId := none

/-- The bytes behind the header, if there is one. -/
def contentBytes (bytes : Bytes) : Bytes :=
  if isBinaryMagic bytes && 4 < bytes.length then bytes.drop 4 else bytes

/-- A record that is neither an event nor a legacy event is skipped. -/
def decodeRecord (record : Bytes) : Option CanonEvent :=
  (fromUtf8 record).bind fun s =>
    (S.fromStr s).or ((S.legacyFromStr s).map (upgradeLegacyEvent S s))

def readBinaryEvents (bytes : Bytes) : List CanonEvent :=
  (scanRecords (contentBytes bytes)).filterMap (decodeRecord S)

/-! ### Opening segments -/

structure Dir where
  log : FileTable
  idx : FileTable
  time : FileTable

def Dir.empty : Dir := { log := [], idx := [], time := [] }

/-- The events of all `.log` segments, by ascending sequence number. -/
def readSegments (dir : Dir) : List CanonEvent :=
  dir.log.sorted.flatMap fun e => readBinaryEvents S e.2

/-- A zero stride or bucket would stop the first write with a division by zero;
    every caller takes both from `default`. -/
structure SegmentConfig where
  maxBytes : Nat
  indexStride : Nat
  timeBucketMs : Nat
  retainSegments : Option Nat
  indexStride_pos : 0 < indexStride
  timeBucketMs_pos : 0 < timeBucketMs

def SegmentConfig.default : SegmentConfig where
  maxBytes := 64 * 1024 * 1024
  indexStride := 256
  timeBucketMs := 5000
  retainSegments := none
  indexStride_pos := by decide
  timeBucketMs_pos := by decide

/-- The open segment: its number and the writer's counters for it. -/
structure SegmentFiles where
  base : Nat
  size : Nat
  lastTimeBucket : Option Nat
  records : Nat

/-- The directory together with the segment open for writing. -/
structure OpenSegment where
  dir : Dir
  files : SegmentFiles

/-- The `.log` file is opened for appending, the other two from scratch. -/
def openNewSegmentFiles (dir : Dir) (baseSeq : Nat) : OpenSegment :=
  let log := dir.log.create baseSeq
  { dir := { log := log, idx := dir.idx.truncate baseSeq, time := dir.time.truncate baseSeq }
    files := { base := baseSeq, size := log.size baseSeq, lastTimeBucket := none, records := 0 } }

def findLatestSegment (dir : Dir) : Option Nat := dir.log.latest?

def applyRetention (dir : Dir) (keepSegments : Nat) : Dir :=
  if keepSegments = 0 then dir
  else
    let entries := dir.log.sorted.map (·.1)
    -- The oldest ones go, each with its index files.
    let doomed := entries.take (entries.length - keepSegments)
    { log := doomed.foldl FileTable.remove dir.log
      idx := doomed.foldl FileTable.remove dir.idx
      time := doomed.foldl FileTable.remove dir.time }

/-! ### Recovery -/

def withDelta (delta : Json) : CanonEvent :=
  { event with payload := { event.payload with delta := delta } }

/-- Counters of the recovery loop, and what it writes to the two index files. -/
structure RecoverState where
  size : Nat
  records : Nat
  lastSeq : Option Nat
  lastTimeBucket : Option Nat
  lastEvent : Option CanonEvent
  seq : Nat
  bytePos : Nat
  idx : Bytes
  time : Bytes

def RecoverState.init (baseSeq : Nat) : RecoverState where
  size := 0
  records := 0
  lastSeq := none
  lastTimeBucket := none
  lastEvent := none
  seq := baseSeq
  bytePos := 0
  idx := []
  time := []

/-- `u32::saturating_add(1)`. -/
def satSuccU32 (n : Nat) : Nat := min (n + 1) (2 ^ 32 - 1)

/-- One line that parsed to `event`. -/
def recoverLine (config : SegmentConfig) (st : RecoverState) (rawLine : Text)
    (event : CanonEvent) : RecoverState :=
  -- Replaced in memory only: the line on disk stays as it is.
  let event := match event.payload.delta with
    | .obj [] => withDelta event autoDelta
    | _ => event
  -- One byte for the line feed, also behind a last line that has none.
  let lineEnd := st.bytePos + (utf8Len rawLine + 1)
  let records := satSuccU32 st.records
  let bucket := event.ts / config.timeBucketMs
  { size := lineEnd
    records := records
    lastSeq := some st.seq
    lastEvent := some event
    idx := if records % config.indexStride = 0 then
        st.idx ++ leBytes 8 st.seq ++ leBytes 8 st.bytePos
      else st.idx
    time := if st.lastTimeBucket ≠ some bucket then
        st.time ++ leBytes 8 bucket ++ leBytes 8 st.bytePos
      else st.time
    lastTimeBucket := some bucket
    seq := st.seq + 1
    bytePos := lineEnd }

/-- The recovery loop: blank lines are skipped, the first line that does not
    parse ends it. -/
def recoverLines (S : Serde) (config : SegmentConfig) : List Text → RecoverState → RecoverState
  | [], st => st
  | rawLine :: rest, st =>
    let trimmed := Text.trim rawLine
    if trimmed = [] then
      recoverLines S config rest { st with bytePos := st.bytePos + (utf8Len rawLine + 1) }
    else
      match S.fromStr trimmed with
      | none => st
      | some event => recoverLines S config rest (recoverLine config st rawLine event)

structure Recovered where
  dir : Dir
  files : SegmentFiles
  lastSeq : Option Nat
  lastEvent : Option CanonEvent

/-- The recovery of segment `baseSeq`.  A segment with the header counts as a
    legacy one and is emptied; any other is read as lines of JSON and cut behind
    the last line that parsed. -/
def recoverSegment (config : SegmentConfig) (dir : Dir) (baseSeq : Nat) :
    Recovered :=
  match dir.log.contents baseSeq with
  | none =>
    let opened := openNewSegmentFiles dir baseSeq
    { dir := opened.dir, files := opened.files, lastSeq := none, lastEvent := none }
  | some bytes =>
    if isBinaryMagic bytes then
      let opened := openNewSegmentFiles
        { log := dir.log.setLen baseSeq 0, idx := dir.idx.truncate baseSeq,
          time := dir.time.truncate baseSeq } baseSeq
      { dir := opened.dir, files := opened.files, lastSeq := none, lastEvent := none }
    else
      -- Bytes that are no text count as no lines at all.
      let content := (fromUtf8 bytes).getD []
      let st := recoverLines S config (content.splitOn '\n') (RecoverState.init baseSeq)
      { dir :=
          { log := if st.size < bytes.length then dir.log.setLen baseSeq st.size else dir.log
            idx := (dir.idx.truncate baseSeq).append baseSeq st.idx
            time := (dir.time.truncate baseSeq).append baseSeq st.time }
        files := { base := baseSeq, size := st.size, lastTimeBucket := st.lastTimeBucket,
                   records := st.records }
        lastSeq := st.lastSeq
        lastEvent := st.lastEvent }

end Canon.Tlog
