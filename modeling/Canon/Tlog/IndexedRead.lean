import Canon.Tlog.Indexed

/-! # Reading a segment from a number on

    `read_binary_events_from_segment_with_start_seq` of `binary_reader.rs`.  The place that the
    index gives is one in the file; it is applied to what is left of the file without its
    header.

    * `scanIndex`, `readFromSegment`: the functions,
    * `scanIndex_rows`: the place of the last row that is not behind the number,
    * `readFromSegment_plain`, `readFromSegment_header`: what is read without and with a header.
-/

namespace Canon.Tlog

/-! ### Model -/

/-- The loop over the rows of an index file. -/
def scanIndex (startSeq : Nat) : Nat → Bytes → Nat → Nat
  | 0, _, startPos => startPos
  | fuel + 1, idx, startPos =>
    if idx.length < 16 then startPos
    else if ofLe (idx.take 8) ≤ startSeq then
      scanIndex startSeq fuel (idx.drop 16) (ofLe ((idx.drop 8).take 8))
    else startPos

/-- The events of a segment, given its files and the number to start at. -/
def readFromSegment (S : Serde) (log : Bytes) (idx : Option Bytes) (startSeq : Nat) :
    List CanonEvent :=
  let startPos := match idx with
    | some bytes => scanIndex startSeq bytes.length bytes 0
    | none => 0
  let base := contentBytes log
  -- a place behind the end is as good as none
  let relevant := if startPos ≤ base.length then base.drop startPos else base
  (scanRecords relevant).filterMap (decodeRecord S)

/-! ### What is asked for -/

/-- The records of a segment are numbered from its base on. -/
def ReadsAllFrom (S : Serde) (config : SegmentConfig) (seg : Seg) (startSeq : Nat) : Prop :=
  let read := readFromSegment S seg.bytes (some (seg.indexBytes config)) startSeq
  read <:+ readBinaryEvents S seg.bytes ∧
    ∀ (k : Nat) p e, seg.records[k]? = some p → startSeq ≤ seg.base + k →
      decodeRecord S p = some e → e ∈ read

/-- The segment has no header, or its index has no row that is not behind the number. -/
def Aligned (config : SegmentConfig) (seg : Seg) (startSeq : Nat) : Prop :=
  seg.header = false ∨
    ∀ k < seg.records.length, Seg.Counted config k → startSeq < seg.base + k

def NothingFrom (S : Serde) (seg : Seg) (startSeq : Nat) : Prop :=
  ∀ (k : Nat) p, seg.records[k]? = some p → startSeq ≤ seg.base + k → decodeRecord S p = none

/-! ### The index -/

section Index

variable {config : SegmentConfig} {seg : Seg} {startSeq : Nat}

/-- The last record with a row that is not behind the number, among `n` records from `a` on. -/
def lastRow (config : SegmentConfig) (seg : Seg) (startSeq a n : Nat) : Option Nat :=
  ((List.range' a n).filter fun k => Seg.Counted config k ∧ seg.base + k ≤ startSeq).getLast?

theorem scanIndex_row {fuel n m startPos : Nat} {rest : Bytes} (hn : n < 2 ^ 64) (hm : m < 2 ^ 64) :
    scanIndex startSeq (fuel + 1) (leBytes 8 n ++ leBytes 8 m ++ rest) startPos =
      if n ≤ startSeq then scanIndex startSeq fuel rest m else startPos := by
  have htake : (leBytes 8 n ++ leBytes 8 m ++ rest).take 8 = leBytes 8 n := by simp
  have hdrop : ((leBytes 8 n ++ leBytes 8 m ++ rest).drop 8).take 8 = leBytes 8 m := by simp
  have hrest : (leBytes 8 n ++ leBytes 8 m ++ rest).drop 16 = rest := by
    rw [List.append_assoc, ← List.append_assoc]
    exact List.drop_left' (by simp)
  rw [scanIndex, if_neg (by simp; omega), htake, hdrop, hrest,
    ofLe_leBytes_of_lt (by simpa using hn),
    ofLe_leBytes_of_lt (by simpa using hm)]

theorem lastRow_skip {a n : Nat} (h : ¬ (Seg.Counted config a ∧ seg.base + a ≤ startSeq)) :
    lastRow config seg startSeq a (n + 1) = lastRow config seg startSeq (a + 1) n := by
  rw [lastRow, List.range'_succ, List.filter_cons_of_neg (by simpa using h)]
  rfl

theorem lastRow_take {a n : Nat} (h : Seg.Counted config a ∧ seg.base + a ≤ startSeq) :
    lastRow config seg startSeq a (n + 1) =
      some ((lastRow config seg startSeq (a + 1) n).getD a) := by
  rw [lastRow, List.range'_succ, List.filter_cons_of_pos (by simpa using h), List.getLast?_cons]
  rfl

/-- The rows are ascending, so the loop may stop at the first one behind the number. -/
theorem lastRow_behind {a n : Nat} (h : startSeq < seg.base + a) :
    lastRow config seg startSeq a n = none := by
  rw [lastRow, List.getLast?_eq_none_iff, List.filter_eq_nil_iff]
  intro k hk
  have hle := (List.mem_range'_1.mp hk).1
  simp only [decide_eq_true_eq, not_and]
  intro _
  omega

theorem scanIndex_rows (n : Nat) :
    ∀ {a fuel startPos : Nat}, ((List.range' a n).flatMap (seg.indexRow config)).length ≤ fuel →
      (∀ k < a + n, seg.base + k < 2 ^ 64 ∧ seg.position k < 2 ^ 64) →
      scanIndex startSeq fuel ((List.range' a n).flatMap (seg.indexRow config)) startPos =
        ((lastRow config seg startSeq a n).map seg.position).getD startPos := by
  induction n with
  | zero =>
    intro a fuel startPos _ _
    cases fuel with
    | zero => rfl
    | succ fuel => rfl
  | succ n ih =>
    intro a fuel startPos hfuel hbound
    have hrest : ∀ k < a + 1 + n, seg.base + k < 2 ^ 64 ∧ seg.position k < 2 ^ 64 :=
      fun k hk => hbound k (by omega)
    rw [List.range'_succ, List.flatMap_cons] at hfuel ⊢
    by_cases hcounted : Seg.Counted config a
    · obtain ⟨hseq, hplace⟩ := hbound a (by omega)
      rw [Seg.indexRow, if_pos hcounted] at hfuel ⊢
      obtain ⟨fuel, rfl⟩ : ∃ f, fuel = f + 1 := by
        apply Nat.exists_eq_succ_of_ne_zero
        intro hzero
        rw [hzero] at hfuel
        simp at hfuel
      rw [scanIndex_row hseq hplace]
      by_cases hle : seg.base + a ≤ startSeq
      · rw [if_pos hle, ih (by simp at hfuel ⊢; omega) hrest, lastRow_take ⟨hcounted, hle⟩]
        cases lastRow config seg startSeq (a + 1) n with
        | none => rfl
        | some k => rfl
      · rw [if_neg hle, lastRow_behind (by omega)]
        rfl
    · rw [Seg.indexRow, if_neg hcounted, List.nil_append] at hfuel ⊢
      rw [ih hfuel hrest, lastRow_skip fun h => hcounted h.1]

theorem scanIndex_indexBytes
    (hbound : ∀ k < seg.records.length, seg.base + k < 2 ^ 64 ∧ seg.position k < 2 ^ 64) :
    scanIndex startSeq (seg.indexBytes config).length (seg.indexBytes config) 0 =
      ((lastRow config seg startSeq 0 seg.records.length).map seg.position).getD 0 := by
  rw [Seg.indexBytes, List.range_eq_range']
  exact scanIndex_rows _ le_rfl fun k hk => hbound k (by omega)

theorem lastRow_some {n k : Nat} (h : lastRow config seg startSeq 0 n = some k) :
    k < n ∧ Seg.Counted config k ∧ seg.base + k ≤ startSeq := by
  have hmem := List.mem_of_getLast? h
  rw [List.mem_filter, decide_eq_true_eq, List.mem_range'_1] at hmem
  obtain ⟨hrange, hcounted, hle⟩ := hmem
  exact ⟨by omega, hcounted, hle⟩

theorem lastRow_none {n : Nat} (h : lastRow config seg startSeq 0 n = none) :
    ∀ k < n, Seg.Counted config k → startSeq < seg.base + k := by
  intro k hk hcounted
  rw [lastRow, List.getLast?_eq_none_iff, List.filter_eq_nil_iff] at h
  have hnot := h k (List.mem_range'_1.mpr (by omega))
  simp only [decide_eq_true_eq, not_and] at hnot
  have hlt := hnot hcounted
  omega

end Index

/-! ### Reading -/

section Reading

variable {S : Serde} {config : SegmentConfig} {seg : Seg} {startSeq : Nat}

/-- The bounds under which numbers and places fit their fields. -/
structure FitsFields (seg : Seg) : Prop where
  records : ∀ p ∈ seg.records, RecordFits p
  seq : seg.base + seg.records.length ≤ 2 ^ 64
  place : seg.bytes.length ≤ 2 ^ 64

theorem length_frames_take (k : Nat) :
    ((seg.records.take k).flatMap frame).length ≤ (seg.records.flatMap frame).length := by
  conv_rhs => rw [← List.take_append_drop k seg.records, List.flatMap_append, List.length_append]
  exact Nat.le_add_right _ _

theorem frames_drop {k : Nat} :
    (seg.records.flatMap frame).drop ((seg.records.take k).flatMap frame).length =
      (seg.records.drop k).flatMap frame := by
  conv_lhs => rw [← List.take_append_drop k seg.records, List.flatMap_append]
  rw [List.take_append_drop, List.drop_left]

theorem position_lt (k : Nat) (hk : k < seg.records.length) :
    seg.position k < seg.bytes.length := by
  have hframe : seg.records = seg.records.take k ++ seg.records[k] :: seg.records.drop (k + 1) := by
    rw [← List.drop_eq_getElem_cons hk, List.take_append_drop]
  have htotal : (seg.records.flatMap frame).length =
      ((seg.records.take k).flatMap frame).length + ((frame seg.records[k]).length +
        ((seg.records.drop (k + 1)).flatMap frame).length) := by
    conv_lhs => rw [hframe, List.flatMap_append, List.flatMap_cons, List.length_append,
      List.length_append]
  have hlength : (frame seg.records[k]).length = 4 + seg.records[k].length := by simp [frame]
  rw [Seg.bytes_length, Seg.position, Seg.position, List.take_length]
  omega

theorem startPos_eq (hfits : FitsFields seg) :
    scanIndex startSeq (seg.indexBytes config).length (seg.indexBytes config) 0 =
      ((lastRow config seg startSeq 0 seg.records.length).map seg.position).getD 0 := by
  apply scanIndex_indexBytes
  intro k hk
  have hseq := hfits.seq
  have hplace := hfits.place
  have hlt := position_lt k hk
  omega

/-- Without a row the whole segment is read. -/
theorem readFromSegment_all (hfits : FitsFields seg)
    (hrow : lastRow config seg startSeq 0 seg.records.length = none) :
    readFromSegment S seg.bytes (some (seg.indexBytes config)) startSeq =
      readBinaryEvents S seg.bytes := by
  simp only [readFromSegment, startPos_eq hfits, hrow, Option.map_none, Option.getD_none,
    Nat.zero_le, if_true, List.drop_zero]
  rfl

theorem contentBytes_plain (hfits : FitsFields seg) (hheader : seg.header = false) :
    contentBytes seg.bytes = seg.records.flatMap frame := by
  have hbytes : seg.bytes = seg.records.flatMap frame := by
    rw [Seg.bytes, hheader]
    rfl
  rw [contentBytes, isBinaryMagic_bytes hfits.records, hheader, hbytes]
  rfl

/-- Without a header the places are those of the content. -/
theorem readFromSegment_plain (hfits : FitsFields seg) (hheader : seg.header = false) {k : Nat}
    (hrow : lastRow config seg startSeq 0 seg.records.length = some k) :
    readFromSegment S seg.bytes (some (seg.indexBytes config)) startSeq =
      (seg.records.drop k).filterMap (decodeRecord S) := by
  have hposition : seg.position k = ((seg.records.take k).flatMap frame).length := by
    rw [Seg.position, Seg.headerLength, hheader]
    exact Nat.zero_add _
  have hscan : scanRecords ((seg.records.drop k).flatMap frame) = seg.records.drop k := by
    have hlengths : ∀ p ∈ seg.records.drop k, p.length < 2 ^ 32 := by
      intro p hp
      exact (hfits.records p (List.mem_of_mem_drop hp)).1
    have hframes := scanRecords_frames [] hlengths
    rw [List.append_nil, scanRecords_nil, List.append_nil] at hframes
    exact hframes
  simp only [readFromSegment, startPos_eq hfits, hrow, Option.map_some, Option.getD_some,
    contentBytes_plain hfits hheader, hposition, if_pos (length_frames_take k), frames_drop, hscan]

/-- The first bytes of an event as the JSON library prints it. -/
def jsonHead : Bytes := [0x7b, 0x22, 0x69, 0x64]

/-- Behind a header the place is four bytes too far: the text of the record is read for its
    length. -/
theorem readFromSegment_header (hfits : FitsFields seg) (hheader : seg.header = true)
    (hjson : ∀ p ∈ seg.records, jsonHead <+: p) (hsmall : seg.bytes.length < 2 ^ 30) {k : Nat}
    (hrow : lastRow config seg startSeq 0 seg.records.length = some k) :
    readFromSegment S seg.bytes (some (seg.indexBytes config)) startSeq = [] := by
  obtain ⟨hk, -, -⟩ := lastRow_some hrow
  obtain ⟨more, hmore⟩ := hjson _ (List.getElem_mem hk)
  have hbytes : seg.bytes = magicBytes ++ seg.records.flatMap frame := by
    rw [Seg.bytes, hheader]
    rfl
  have hrest : (seg.records.drop k).flatMap frame =
      leBytes 4 seg.records[k].length ++ (jsonHead ++ (more ++
        (seg.records.drop (k + 1)).flatMap frame)) := by
    rw [List.drop_eq_getElem_cons hk, List.flatMap_cons, frame, ← hmore]
    simp only [List.append_assoc]
  have hcontent : contentBytes seg.bytes = seg.records.flatMap frame := by
    have hlong : 4 < seg.bytes.length := by
      have hlt := position_lt k hk
      have hposition : seg.position k = 4 + ((seg.records.take k).flatMap frame).length := by
        rw [Seg.position, Seg.headerLength, hheader]
        rfl
      omega
    rw [contentBytes, isBinaryMagic_bytes hfits.records, hheader]
    simp only [Bool.true_and, hlong, decide_true, if_true]
    rw [hbytes]
    exact List.drop_left' rfl
  have hposition : seg.position k = ((seg.records.take k).flatMap frame).length + 4 := by
    rw [Seg.position, Seg.headerLength, hheader, Nat.add_comm]
    rfl
  have hinside : seg.position k ≤ (seg.records.flatMap frame).length := by
    have htotal : (seg.records.flatMap frame).length =
        ((seg.records.take k).flatMap frame).length +
          ((seg.records.drop k).flatMap frame).length := by
      conv_lhs => rw [← List.take_append_drop k seg.records, List.flatMap_append,
        List.length_append]
    have hlength := congrArg List.length hrest
    rw [List.length_append, leBytes_length] at hlength
    omega
  have hdrop : (seg.records.flatMap frame).drop (seg.position k) =
      jsonHead ++ (more ++ (seg.records.drop (k + 1)).flatMap frame) := by
    rw [hposition, ← List.drop_drop, frames_drop, hrest]
    exact List.drop_left' (leBytes_length 4 _)
  have hshort :
    (jsonHead ++ (more ++ (seg.records.drop (k + 1)).flatMap frame)).length < 2 ^ 30 := by
    have hle := congrArg List.length hdrop
    rw [List.length_drop] at hle
    have hsize := congrArg List.length hbytes
    rw [List.length_append] at hsize
    omega
  have hscan :
    scanRecords (jsonHead ++ (more ++ (seg.records.drop (k + 1)).flatMap frame)) = [] := by
    apply scanRecords_of_incomplete
    have hfirst : (jsonHead ++ (more ++ (seg.records.drop (k + 1)).flatMap frame)).take 4 =
        jsonHead := List.take_left' rfl
    have hvalue : ofLe jsonHead = 1684611707 := by decide
    rw [hfirst, hvalue]
    omega
  simp only [readFromSegment, startPos_eq hfits, hrow, Option.map_some, Option.getD_some,
    hcontent, if_pos hinside, hdrop, hscan, List.filterMap_nil]

theorem readBinaryEvents_bytes (hfits : FitsFields seg) :
    readBinaryEvents S seg.bytes = seg.records.filterMap (decodeRecord S) := by
  rw [readBinaryEvents, scanRecords_contentBytes hfits.records]

theorem mem_filterMap_drop {k j : Nat} {p : Bytes} {e : CanonEvent}
    (hp : seg.records[j]? = some p) (hkj : k ≤ j) (he : decodeRecord S p = some e) :
    e ∈ (seg.records.drop k).filterMap (decodeRecord S) := by
  apply List.mem_filterMap.mpr
  refine ⟨p, ?_, he⟩
  apply List.mem_of_getElem? (i := j - k)
  rw [List.getElem?_drop, show k + (j - k) = j by omega]
  exact hp

theorem readsAllFrom_of_aligned (hfits : FitsFields seg) (h : Aligned config seg startSeq) :
    ReadsAllFrom S config seg startSeq := by
  unfold ReadsAllFrom
  dsimp only
  cases hrow : lastRow config seg startSeq 0 seg.records.length with
  | none =>
    rw [readFromSegment_all hfits hrow, readBinaryEvents_bytes hfits]
    refine ⟨List.suffix_refl _, ?_⟩
    intro j p e hp _ he
    exact mem_filterMap_drop hp (Nat.zero_le j) he
  | some k =>
    obtain ⟨hk, hcounted, hle⟩ := lastRow_some hrow
    rcases h with hheader | hrows
    · rw [readFromSegment_plain hfits hheader hrow, readBinaryEvents_bytes hfits]
      refine ⟨(List.drop_suffix k seg.records).filterMap _, ?_⟩
      intro j p e hp hstart he
      exact mem_filterMap_drop hp (by omega) he
    · have hlt := hrows k hk hcounted
      omega

theorem readsAllFrom_iff (hfits : FitsFields seg) (hjson : ∀ p ∈ seg.records, jsonHead <+: p)
    (hsmall : seg.bytes.length < 2 ^ 30) :
    ReadsAllFrom S config seg startSeq ↔
      Aligned config seg startSeq ∨ NothingFrom S seg startSeq := by
  by_cases haligned : Aligned config seg startSeq
  · exact iff_of_true (readsAllFrom_of_aligned hfits haligned) (.inl haligned)
  · have hheader : seg.header = true := by
      rw [← Bool.not_eq_false]
      exact fun hplain => haligned (.inl hplain)
    cases hrow : lastRow config seg startSeq 0 seg.records.length with
    | none => exact absurd (.inr (lastRow_none hrow)) haligned
    | some k =>
      unfold ReadsAllFrom
      dsimp only
      rw [readFromSegment_header hfits hheader hjson hsmall hrow]
      constructor
      · intro ⟨_, hall⟩
        right
        intro j p hp hstart
        cases he : decodeRecord S p with
        | none => rfl
        | some e => exact absurd (hall j p e hp hstart he) List.not_mem_nil
      · intro h
        refine ⟨List.nil_suffix, ?_⟩
        intro j p e hp hstart he
        rcases h with h | h
        · exact absurd h haligned
        · rw [h j p hp hstart] at he
          cases he

end Reading

/-- A read from a number on finds everything where the index was written for a segment without
    header, or points nowhere yet; otherwise it finds nothing. -/
theorem indexed_read_iff (env : Env) (config : SegmentConfig)
    (calls : List (CanonEvent × Surroundings)) :
    ∃ segs, HoldsIndexed config
        ((gateMachine env).run (.opened env Dir.empty config) calls).dir segs ∧
      ∀ seg ∈ segs, FitsFields seg → ∀ startSeq,
        (Aligned config seg startSeq → ReadsAllFrom env.serde config seg startSeq) ∧
        ((∀ p ∈ seg.records, jsonHead <+: p) → seg.bytes.length < 2 ^ 30 →
          (ReadsAllFrom env.serde config seg startSeq ↔
            Aligned config seg startSeq ∨ NothingFrom env.serde seg startSeq)) := by
  obtain ⟨segs, hholds⟩ := indexed_run env config calls
  refine ⟨segs, hholds, ?_⟩
  intro seg _ hfits startSeq
  exact ⟨readsAllFrom_of_aligned hfits, readsAllFrom_iff hfits⟩

/-! ### A session of two events -/

/-- A row for every record. -/
def everyRecord : SegmentConfig := { SegmentConfig.default with
  indexStride := 1
  indexStride_pos := by decide }

def firstTick : CanonEvent := sampleEvent "t" .tick 1 (.obj [])

def thenDebug : CanonEvent := sampleEvent "d" .debug 2 (.obj [])

def textTail : Text :=
  ",\"payload\":\x7b\"input\":\x7b\x7d,\"output\":\x7b\x7d,\"delta\":\x7b\"_auto\":true\x7d,".toList
    ++
    "\"meta\":\x7b\"file\":\"f\",\"line\":1\x7d,\"data\":\x7b\x7d\x7d\x7d".toList

def tickText : Text :=
  "\x7b\"id\":\"t\",\"parent_ids\":[\"p\"],\"actor\":\"a\",\"kind\":\"tick\",\"ts\":1".toList ++
    textTail

def debugText : Text :=
  "\x7b\"id\":\"d\",\"parent_ids\":[\"p\"],\"actor\":\"a\",\"kind\":\"debug\",\"ts\":2".toList ++
    textTail

/-- The JSON library as it behaves on the two events, given their texts. -/
def sessionSerde (tick debug : Text) : Serde where
  toStr event := if event.id = "t" then tick else debug
  fromStr read := if read = tick then some firstTick else if read = debug then some thenDebug
    else none
  legacyFromStr _ := none
  kindFromStr _ := none
  freshId _ := ""

def sessionEnv : Env where
  serde := sessionSerde tickText debugText
  contentHash kind _ _ := kind.asStr.length

def sessionCalls : List (CanonEvent × Surroundings) :=
  [(firstTick, ⟨"p", "v", 1⟩), (thenDebug, ⟨"q", "w", 2⟩)]

def sessionSeg : Seg := ⟨0, true, [utf8 tickText, utf8 debugText]⟩

theorem sessionSeg_holds : HoldsIndexed everyRecord
    ((gateMachine sessionEnv).run (.opened sessionEnv Dir.empty everyRecord) sessionCalls).dir
    [sessionSeg] := by
  unfold sessionEnv sessionSeg tickText debugText textTail
  rw [String.toList_ofList, String.toList_ofList, String.toList_ofList, String.toList_ofList]
  refine ⟨?_, ?_, List.pairwise_singleton _ _⟩
  · decide +kernel
  · decide +kernel

theorem session_texts : (jsonHead <+: utf8 tickText ∧ jsonHead <+: utf8 debugText) ∧
    (utf8 tickText).length < 1000 ∧ (utf8 debugText).length < 1000 ∧ debugText ≠ tickText := by
  unfold tickText debugText textTail
  rw [String.toList_ofList, String.toList_ofList, String.toList_ofList, String.toList_ofList]
  decide +kernel

theorem sessionSerde_reads {tick debug : Text} (h : debug ≠ tick) :
    decodeRecord (sessionSerde tick debug) (utf8 tick) = some firstTick ∧
      decodeRecord (sessionSerde tick debug) (utf8 debug) = some thenDebug := by
  have htick : (sessionSerde tick debug).fromStr tick = some firstTick := if_pos rfl
  have hdebug : (sessionSerde tick debug).fromStr debug = some thenDebug := by
    simp only [sessionSerde, if_neg h, if_true]
  constructor
  · rw [decodeRecord, fromUtf8_utf8, Option.bind_some, htick, Option.some_or]
  · rw [decodeRecord, fromUtf8_utf8, Option.bind_some, hdebug, Option.some_or]

theorem mem_sessionSeg {p : Bytes} (hp : p ∈ sessionSeg.records) :
    p = utf8 tickText ∨ p = utf8 debugText := by
  rcases List.mem_cons.mp hp with hp | hp
  · exact .inl hp
  · exact .inr (List.mem_singleton.mp hp)

theorem sessionSeg_length : sessionSeg.bytes.length < 2 ^ 30 := by
  obtain ⟨-, htick, hdebug, -⟩ := session_texts
  have hbytes : sessionSeg.bytes =
      magicBytes ++ (frame (utf8 tickText) ++ frame (utf8 debugText)) := by
    simp [sessionSeg, Seg.bytes]
  rw [hbytes, frame, frame]
  simp [magicBytes]
  omega

theorem sessionSeg_fits : FitsFields sessionSeg where
  records := by
    obtain ⟨-, htick, hdebug, -⟩ := session_texts
    intro p hp
    rcases mem_sessionSeg hp with hp | hp
    · rw [hp]
      exact recordFits_of_lt (by omega)
    · rw [hp]
      exact recordFits_of_lt (by omega)
  seq := by decide
  place := by
    have hlength := sessionSeg_length
    omega

/-- The row of the first record is one at or before its number, and none of the two is
    found. -/
theorem index_behind_header : ¬ ∀ (env : Env) (config : SegmentConfig)
    (calls : List (CanonEvent × Surroundings)) (segs : List Seg),
    HoldsIndexed config ((gateMachine env).run (.opened env Dir.empty config) calls).dir segs →
      ∀ seg ∈ segs, FitsFields seg → ∀ startSeq, ReadsAllFrom env.serde config seg startSeq := by
  intro h
  obtain ⟨⟨hhead, hhead'⟩, -, -, hdiffer⟩ := session_texts
  have hreads := h _ everyRecord _ _ sessionSeg_holds _ (List.mem_singleton_self _)
    sessionSeg_fits 0
  have hnothing : readFromSegment sessionEnv.serde sessionSeg.bytes
      (some (sessionSeg.indexBytes everyRecord)) 0 = [] := by
    refine readFromSegment_header (k := 0) sessionSeg_fits rfl ?_ sessionSeg_length rfl
    intro p hp
    rcases mem_sessionSeg hp with hp | hp
    · rw [hp]
      exact hhead
    · rw [hp]
      exact hhead'
  have hfirst : sessionSeg.records[0]? = some (utf8 tickText) := List.getElem?_cons_zero
  have hread : firstTick ∈ readFromSegment sessionEnv.serde sessionSeg.bytes
      (some (sessionSeg.indexBytes everyRecord)) 0 :=
    hreads.2 0 (utf8 tickText) firstTick hfirst (Nat.zero_le _) (sessionSerde_reads hdiffer).1
  rw [hnothing] at hread
  exact List.not_mem_nil hread

end Canon.Tlog
