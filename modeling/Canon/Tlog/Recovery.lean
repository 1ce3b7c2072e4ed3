import Canon.Tlog.Layout

/-! # Recovery after a restart

    `recover_segment` reads the last segment as lines of JSON, while the writer
    puts length-prefixed records there, most often behind a header that recovery
    takes for the mark of an older format.  This module says exactly which
    segments it leaves alone (`Recoverable`), that everything on disk is still
    there when the last segment is one of them, and that an event is gone when it
    is not.
-/

namespace Canon.Tlog

/-! ### Lines of JSON -/

/-- The bytes of lines that each end in a line feed. -/
def linesLen (lines : List Text) : Nat := (lines.map fun l => utf8Len l + 1).sum

@[simp] theorem linesLen_nil : linesLen [] = 0 := rfl

@[simp] theorem linesLen_cons (l : Text) (lines : List Text) :
    linesLen (l :: lines) = utf8Len l + 1 + linesLen lines := by
  simp [linesLen]

theorem utf8Len_intercalate {lines : List Text} (h : lines ≠ []) :
    utf8Len (['\n'].intercalate lines) + 1 = linesLen lines := by
  induction lines with
  | nil => exact absurd rfl h
  | cons l lines ih =>
    cases lines with
    | nil => simp
    | cons l' lines =>
      have hnl : utf8Len ['\n'] = 1 := by decide
      have hrest := ih (by simp)
      rw [List.intercalate_cons_cons, utf8Len_append, utf8Len_append, hnl, linesLen_cons,
        ← hrest]
      omega

theorem linesLen_splitOn (text : Text) : linesLen (text.splitOn '\n') = utf8Len text + 1 := by
  rw [← utf8Len_intercalate (List.splitOn_ne_nil _ _), List.intercalate_splitOn]

/-- Lines of a text that recovery reads to the end: every line that is not blank
    is an event, and the last of them is the last line of all, but for an empty
    one behind the final line feed. -/
def EventLines (S : Serde) (lines : List Text) : Prop :=
  ∃ front last, (lines = front ++ [last] ∨ lines = front ++ [last, []]) ∧
    Text.trim last ≠ [] ∧
    ∀ l ∈ front ++ [last], Text.trim l = [] ∨ (S.fromStr (Text.trim l)).isSome = true

theorem EventLines.cons {S : Serde} {lines : List Text} {l : Text} (h : EventLines S lines)
    (hl : Text.trim l = [] ∨ (S.fromStr (Text.trim l)).isSome = true) :
    EventLines S (l :: lines) := by
  obtain ⟨front, last, hlines, hlast, hall⟩ := h
  refine ⟨l :: front, last, ?_, hlast, ?_⟩
  · rcases hlines with rfl | rfl
    · exact .inl rfl
    · exact .inr rfl
  · intro m hm
    rcases List.mem_cons.mp hm with rfl | hm
    · exact hl
    · exact hall m hm

variable {S : Serde} (config : SegmentConfig)

/-- If the recovery loop gets to the end of the text, the lines are events. -/
theorem eventLines_of_recoverLines {lines : List Text} (st : RecoverState)
    (hst : st.size ≤ st.bytePos)
    (h : st.bytePos + linesLen lines ≤ (recoverLines S config lines st).size + 1) :
    EventLines S lines ∨ lines = [] ∨ lines = [[]] := by
  -- Induction on the lines: the loop gets to the end only if no line stops it.
  induction lines generalizing st with
  | nil => exact .inr (.inl rfl)
  | cons l lines ih =>
    rw [linesLen_cons] at h
    by_cases hblank : Text.trim l = []
    · simp only [recoverLines, hblank, if_true] at h
      have hrest := ih { st with bytePos := st.bytePos + (utf8Len l + 1) }
        (by simp only; omega) (by simp only; omega)
      rcases hrest with hgood | rfl | rfl
      · exact .inl (hgood.cons (.inl hblank))
      -- A blank last line that counts no byte is empty.
      · simp only [recoverLines, linesLen_nil] at h
        have hnil : l = [] := utf8Len_eq_zero.mp (by omega)
        exact .inr (.inr (by rw [hnil]))
      · simp only [recoverLines, Text.trim_nil, if_true, linesLen_cons, linesLen_nil] at h
        omega
    · cases hparse : S.fromStr (Text.trim l) with
      -- The loop stops here with this line still uncounted.
      | none =>
        simp only [recoverLines, hblank, if_false, hparse] at h
        have hnil : l = [] := utf8Len_eq_zero.mp (by omega)
        exact absurd (by rw [hnil]; rfl) hblank
      | some event =>
        simp only [recoverLines, hblank, if_false, hparse] at h
        have hparsed : (S.fromStr (Text.trim l)).isSome = true := by simp [hparse]
        have hrest := ih (recoverLine config st l event)
          (by simp [recoverLine]) (by simp only [recoverLine] at h ⊢; omega)
        rcases hrest with hgood | rfl | rfl
        · exact .inl (hgood.cons (.inr hparsed))
        · exact .inl ⟨[], l, .inl rfl, hblank, by simp [hparsed]⟩
        · exact .inl ⟨[], l, .inr rfl, hblank, by simp [hparsed]⟩

/-- Over lines that are events, the recovery loop gets to the end of the text. -/
theorem recoverLines_of_eventLines {lines : List Text} (hlines : EventLines S lines)
    (st : RecoverState) :
    st.bytePos + linesLen lines ≤ (recoverLines S config lines st).size + 1 := by
  obtain ⟨front, last, hshape, hlast, hall⟩ := hlines
  have hmain : ∀ tail : List Text, (tail = [] ∨ tail = [[]]) →
      st.bytePos + linesLen (front ++ last :: tail) ≤
        (recoverLines S config (front ++ last :: tail) st).size + 1 := by
    intro tail htail
    clear hshape
    -- Induction on what is in front of the last line.
    induction front generalizing st with
    | nil =>
      obtain ⟨event, hevent⟩ : ∃ event, S.fromStr (Text.trim last) = some event := by
        rcases hall last (by simp) with hblank | hparse
        · exact absurd hblank hlast
        · exact Option.isSome_iff_exists.mp hparse
      rw [List.nil_append, linesLen_cons]
      simp only [recoverLines, hlast, if_false, hevent]
      rcases htail with rfl | rfl
      · simp [recoverLines, recoverLine]
      · simp [recoverLines, recoverLine, utf8Len]
        omega
    | cons l front ih =>
      rw [List.cons_append, linesLen_cons]
      have hall' : ∀ m ∈ front ++ [last],
          Text.trim m = [] ∨ (S.fromStr (Text.trim m)).isSome = true :=
        fun m hm => hall m (by simp at hm ⊢; tauto)
      by_cases hblank : Text.trim l = []
      · simp only [recoverLines, hblank, if_true]
        have hrest := ih { st with bytePos := st.bytePos + (utf8Len l + 1) } hall'
        simp only at hrest
        omega
      · obtain ⟨event, hevent⟩ : ∃ event, S.fromStr (Text.trim l) = some event := by
          rcases hall l (by simp) with h | h
          · exact absurd h hblank
          · exact Option.isSome_iff_exists.mp h
        simp only [recoverLines, hblank, if_false, hevent]
        have hrest := ih (recoverLine config st l event) hall'
        simp only [recoverLine] at hrest ⊢
        omega
  rcases hshape with rfl | rfl
  · exact hmain [] (.inl rfl)
  · exact hmain [[]] (.inr rfl)

/-! ### The last segment -/

/-- How far into a segment the recovery loop gets. -/
def recoveredSize (S : Serde) (config : SegmentConfig) (base : Nat) (bytes : Bytes) : Nat :=
  (recoverLines S config (((fromUtf8 bytes).getD []).splitOn '\n') (RecoverState.init base)).size

@[simp] theorem RecoverState.init_bytePos (base : Nat) : (RecoverState.init base).bytePos = 0 := rfl

theorem length_le_recoveredSize_iff (base : Nat) {bytes : Bytes} (hne : bytes ≠ []) :
    bytes.length ≤ recoveredSize S config base bytes ↔
      ∃ text, fromUtf8 bytes = some text ∧ EventLines S (text.splitOn '\n') := by
  cases htext : fromUtf8 bytes with
  | none =>
    -- Bytes that are no text are cut off as a whole.
    have hzero : recoveredSize S config base bytes = 0 := by
      simp [recoveredSize, htext, recoverLines, RecoverState.init]
    have hpos : 0 < bytes.length := List.length_pos_of_ne_nil hne
    simp only [hzero, reduceCtorEq, false_and, exists_false, iff_false]
    omega
  | some text =>
    have hbytes : utf8 text = bytes := utf8_of_fromUtf8 htext
    have hlen : bytes.length + 1 = linesLen (text.splitOn '\n') := by
      rw [linesLen_splitOn, utf8Len, hbytes]
    simp only [recoveredSize, htext, Option.getD_some, Option.some.injEq, exists_eq_left']
    constructor
    · intro h
      have hreach : (RecoverState.init base).bytePos + linesLen (text.splitOn '\n') ≤
          (recoverLines S config (text.splitOn '\n') (RecoverState.init base)).size + 1 := by
        rw [← hlen, RecoverState.init_bytePos]
        omega
      have hend := eventLines_of_recoverLines config (RecoverState.init base) le_rfl hreach
      rcases hend with hgood | hnil | hnil
      · exact hgood
      · exact absurd hnil (List.splitOn_ne_nil _ _)
      -- One empty line is the empty text, and the segment is not empty.
      · have hempty : text = [] := by
          have hjoin : ['\n'].intercalate (text.splitOn '\n') = text :=
            List.intercalate_splitOn '\n'
          rw [← hjoin, hnil]
          rfl
        rw [hempty] at hbytes
        exact absurd hbytes.symm hne
    · intro h
      have hend := recoverLines_of_eventLines config h (RecoverState.init base)
      rw [← hlen, RecoverState.init_bytePos] at hend
      omega

/-- What recovery leaves of the last segment. -/
def keptBytes (S : Serde) (config : SegmentConfig) (cur : Seg) : Bytes :=
  if cur.header then [] else cur.bytes.take (recoveredSize S config cur.base cur.bytes)

/-- The last segment as one that could be open. -/
theorem Holds.writable {dir : Dir} {pre : List Seg} {cur : Seg} (h : Holds dir (pre ++ [cur]))
    {seq : Nat} (hseq : cur.base ≤ seq) :
    Writable dir { base := cur.base, size := cur.bytes.length, lastTimeBucket := none,
                   records := 0 } seq pre cur :=
  ⟨h, rfl, rfl, hseq⟩

section LastSegment

variable {dir : Dir} {pre : List Seg} {cur : Seg}

theorem findLatestSegment_of_holds (h : Holds dir (pre ++ [cur])) :
    findLatestSegment dir = some cur.base := by
  have hw := h.writable le_rfl
  rw [findLatestSegment, hw.entries]
  exact FileTable.latest?_concat fun e he => hw.entry_lt he

theorem recoverSegment_log (h : Holds dir (pre ++ [cur])) :
    (recoverSegment S config dir cur.base).dir.log =
      pre.map Seg.entry ++ [(cur.base, keptBytes S config cur)] := by
  have hw := h.writable le_rfl
  have hmagic : isBinaryMagic cur.bytes = cur.header :=
    isBinaryMagic_bytes (h.fits cur (by simp))
  have hset : ∀ len, dir.log.setLen cur.base len =
      pre.map Seg.entry ++ [(cur.base, cur.bytes.take len)] := by
    intro len
    rw [FileTable.setLen, hw.entries, FileTable.modify_concat_self _ fun e he => hw.entry_lt he]
  simp only [recoverSegment, hw.contents_base, hmagic, keptBytes]
  cases cur.header with
  | true =>
    simp only [if_true, openNewSegmentFiles, hset, List.take_zero]
    exact FileTable.create_concat_self
  | false =>
    simp only [Bool.false_eq_true, if_false]
    show (if recoveredSize S config cur.base cur.bytes < cur.bytes.length then
        dir.log.setLen cur.base (recoveredSize S config cur.base cur.bytes) else dir.log) = _
    split
    · exact hset _
    · rw [hw.entries, List.take_of_length_le (by omega)]

/-- The segments recovery leaves alone: those without a complete record, and those
    without a header whose bytes are lines of events. -/
def RecoverableBytes (S : Serde) (bytes : Bytes) : Prop :=
  scanRecords (contentBytes bytes) = [] ∨
    isBinaryMagic bytes = false ∧
      ∃ text, fromUtf8 bytes = some text ∧ EventLines S (text.splitOn '\n')

/-- The last segment of `dir`, if there is one, is left alone by recovery. -/
def Recoverable (S : Serde) (dir : Dir) : Prop :=
  ∀ n ∈ findLatestSegment dir, ∀ bytes ∈ dir.log.contents n, RecoverableBytes S bytes

theorem recoverable_iff_of_holds (h : Holds dir (pre ++ [cur])) :
    Recoverable S dir ↔ RecoverableBytes S cur.bytes := by
  have hw := h.writable le_rfl
  simp [Recoverable, findLatestSegment_of_holds h, hw.contents_base]

/-- A segment without records has at most the header. -/
theorem keptBytes_of_recoverable (h : Holds dir (pre ++ [cur]))
    (hrec : RecoverableBytes S cur.bytes) :
    ∃ cur' : Seg, cur'.base = cur.base ∧ cur'.bytes = keptBytes S config cur ∧
      cur'.records = cur.records ∧ cur'.bytes <+: cur.bytes := by
  have hscan := scanRecords_contentBytes (h.fits cur (by simp))
  have hmagic := isBinaryMagic_bytes (h.fits cur (by simp))
  by_cases hnil : cur.records = []
  -- At most a header is lost.
  · refine ⟨⟨cur.base, false, []⟩, rfl, ?_, hnil.symm, by simp [Seg.bytes]⟩
    cases hh : cur.header <;> simp [keptBytes, Seg.bytes, hh, hnil]
  -- With a record in it, the segment must be lines of events.
  · obtain ⟨hplain, htext⟩ := hrec.resolve_left (by rw [hscan]; exact hnil)
    have hheader : cur.header = false := by rw [← hmagic]; exact hplain
    have hne : cur.bytes ≠ [] := by
      intro hbytes
      rw [hbytes] at hscan
      exact hnil hscan.symm
    have hsize := (length_le_recoveredSize_iff config cur.base hne).mpr htext
    refine ⟨cur, rfl, ?_, rfl, List.prefix_rfl⟩
    simp [keptBytes, hheader, List.take_of_length_le hsize]

/-- Any other segment loses a record. -/
theorem keptBytes_of_not_recoverable (h : Holds dir (pre ++ [cur]))
    (hrec : ¬ RecoverableBytes S cur.bytes) :
    (scanRecords (contentBytes (keptBytes S config cur))).length < cur.records.length := by
  have hfits := h.fits cur (by simp)
  have hscan := scanRecords_contentBytes hfits
  have hmagic := isBinaryMagic_bytes hfits
  simp only [RecoverableBytes, hscan, hmagic, not_or, not_and] at hrec
  obtain ⟨hnil, hlines⟩ := hrec
  cases hh : cur.header with
  | true =>
    -- A header makes recovery empty the whole segment.
    have hempty : scanRecords (contentBytes []) = [] := rfl
    simp [keptBytes, hh, hempty, List.length_pos_of_ne_nil hnil]
  | false =>
    have hbytes : cur.bytes = cur.records.flatMap frame := by simp [Seg.bytes, hh]
    have hne : cur.bytes ≠ [] := by
      intro hb
      rw [hb] at hscan
      exact hnil hscan.symm
    -- Otherwise the cut goes through the records.
    have hsize : recoveredSize S config cur.base cur.bytes < cur.bytes.length := by
      by_contra hge
      exact hlines hh ((length_le_recoveredSize_iff config cur.base hne).mp (Nat.not_lt.mp hge))
    generalize hk : recoveredSize S config cur.base cur.bytes = k at hsize
    -- The cut does not make a header out of the first length.
    have hplain : isBinaryMagic (cur.bytes.take k) = false := by
      by_cases hshort : k < 4
      · simp only [isBinaryMagic, Bool.and_eq_false_imp, decide_eq_true_eq, List.length_take]
        omega
      · have htake : (cur.bytes.take k).take 4 = cur.bytes.take 4 := by
          rw [List.take_take, Nat.min_eq_left (by omega)]
        rw [hh] at hmagic
        simp only [isBinaryMagic, htake, Bool.and_eq_false_imp, decide_eq_true_eq] at hmagic ⊢
        exact fun _ => hmagic (by omega)
    simp only [keptBytes, hh, Bool.false_eq_true, if_false, hk, contentBytes, hplain,
      Bool.false_and]
    rw [hbytes] at hsize ⊢
    exact scanRecords_take_frames_lt (fun p hp => (hfits p hp).1) hsize

end LastSegment

end Canon.Tlog
