import Canon.Tlog.Recovery

/-! # Recovery of a line log after a crash

    A log of lines that was cut off by a crash: complete event lines, and behind
    them whatever the crash left.  Recovery is right about such a file if and only
    if it can decode all of it, counts no last line without its line feed, and the
    counter of records is wide enough.

    * `CrashFile`: the files in question,
    * `recoverLines_lines`: the loop over the complete lines,
    * `recoverLines_quiet` / `recoverLines_unterminated`: the loop over the rest,
    * `recover_segment_iff`: when the file comes back as its complete lines.
-/

namespace Canon.Tlog

/-! ### Files -/

/-- The texts with a line feed behind each. -/
def fed (texts : List Text) : Text := texts.flatMap (· ++ ['\n'])

theorem fed_cons (t : Text) (texts : List Text) : fed (t :: texts) = t ++ '\n' :: fed texts := by
  simp [fed]

theorem splitOn_fed_append {texts : List Text} (h : ∀ t ∈ texts, '\n' ∉ t) (s : Text) :
    (fed texts ++ s).splitOn '\n' = texts ++ s.splitOn '\n' := by
  induction texts with
  | nil => rfl
  | cons t texts ih =>
    have ht : '\n' ∉ t := h t (by simp)
    rw [fed_cons, List.append_assoc, List.cons_append,
      List.splitOn_append_cons_self_of_not_mem ht, ih fun u hu => h u (by simp [hu])]
    rfl

theorem not_mem_of_mem_splitOn {t p : Text} (h : p ∈ t.splitOn '\n') : '\n' ∉ p := by
  induction t generalizing p with
  | nil =>
    rw [List.splitOn_nil, List.mem_singleton] at h
    simp [h]
  | cons c t ih =>
    obtain ⟨first, rest, hparts⟩ := List.exists_cons_of_ne_nil (List.splitOn_ne_nil '\n' t)
    rw [List.splitOn_cons_eq_if_modifyHead, hparts] at h
    rw [hparts] at ih
    by_cases hc : c = '\n'
    · rw [if_pos (by simpa using hc), List.mem_cons] at h
      rcases h with h | h
      · simp [h]
      · exact ih h
    · rw [if_neg (by simpa using hc), List.modifyHead_cons, List.mem_cons] at h
      rcases h with h | h
      · rw [h, List.mem_cons, not_or]
        exact ⟨fun heq => hc heq.symm, ih (by simp)⟩
      · exact ih (by simp [h])

theorem intercalate_append_cons (front : List Text) (t : Text) (rest : List Text) :
    ['\n'].intercalate (front ++ t :: rest) = fed front ++ ['\n'].intercalate (t :: rest) := by
  induction front with
  | nil => rfl
  | cons u front ih =>
    obtain ⟨v, more, hmore⟩ : ∃ v more, front ++ t :: rest = v :: more :=
      List.exists_cons_of_ne_nil (by simp)
    rw [List.cons_append, hmore, List.intercalate_cons_cons, ← hmore, ih, fed_cons]
    simp

/-- One byte for the line feed of each line. -/
theorem utf8Len_fed (texts : List Text) : utf8Len (fed texts) = linesLen texts := by
  induction texts with
  | nil => rfl
  | cons t texts ih =>
    have hfeed : utf8Len ('\n' :: fed texts) = 1 + utf8Len (fed texts) :=
      utf8Len_append ['\n'] (fed texts)
    rw [fed_cons, utf8Len_append, hfeed, ih, linesLen_cons]
    omega

/-- A line that recovery counts, without its line feed. -/
structure EventLine (S : Serde) where
  text : Text
  event : CanonEvent
  noFeed : '\n' ∉ text
  nonblank : Text.trim text ≠ []
  parses : S.fromStr (Text.trim text) = some event

variable {S : Serde}

def texts (lines : List (EventLine S)) : List Text := lines.map (·.text)

/-- Lines with nothing but white space. -/
def Blank (lines : List Text) : Prop := ∀ l ∈ lines, '\n' ∉ l ∧ Text.trim l = []

/-- Apart from blank lines, `tail` begins with one more complete event line. -/
def BeginsWithEvent (S : Serde) (tail : Bytes) : Prop :=
  ∃ (blank : List Text) (l : EventLine S) (rest : Bytes), Blank blank ∧
    tail = utf8 (fed blank ++ l.text) ++ 10 :: rest

/-- Apart from blank lines, `tail` is an event line without its line feed. -/
def Unterminated (S : Serde) (tail : Bytes) : Prop :=
  ∃ (blank : List Text) (l : EventLine S), Blank blank ∧ tail = utf8 (fed blank ++ l.text)

/-- Complete event lines and what the crash left behind them. -/
structure CrashFile (S : Serde) where
  lines : List (EventLine S)
  tail : Bytes
  torn : ¬ BeginsWithEvent S tail

def CrashFile.validPrefix (f : CrashFile S) : Bytes := utf8 (fed (texts f.lines))

def CrashFile.bytes (f : CrashFile S) : Bytes := f.validPrefix ++ f.tail

/-- An event as recovery hands it on: an empty delta is filled in. -/
def recoveredEvent (event : CanonEvent) : CanonEvent :=
  match event.payload.delta with
  | .obj [] => withDelta event autoDelta
  | _ => event

/-- Recovery reports the complete lines, and leaves them in the file. -/
structure RecoversPrefix (config : SegmentConfig) (dir : Dir) (base : Nat) (f : CrashFile S) :
    Prop where
  records : (recoverSegment S config dir base).files.records = f.lines.length
  lastSeq : (recoverSegment S config dir base).lastSeq =
    if f.lines = [] then none else some (base + f.lines.length - 1)
  lastEvent : (recoverSegment S config dir base).lastEvent =
    f.lines.getLast?.map fun l => recoveredEvent l.event
  size : (recoverSegment S config dir base).files.size = f.validPrefix.length
  contents : (recoverSegment S config dir base).dir.log.contents base = some f.validPrefix

/-! ### The loop over complete lines -/

section Loop

variable (config : SegmentConfig)

def recoverAll (lines : List (EventLine S)) (st : RecoverState) : RecoverState :=
  lines.foldl (fun st l => recoverLine config st l.text l.event) st

theorem recoverLines_lines (lines : List (EventLine S)) (rest : List Text) (st : RecoverState) :
    recoverLines S config (texts lines ++ rest) st =
      recoverLines S config rest (recoverAll config lines st) := by
  induction lines generalizing st with
  | nil => rfl
  | cons l lines ih =>
    show recoverLines S config (l.text :: (texts lines ++ rest)) st = _
    simp only [recoverLines, l.nonblank, if_false, l.parses]
    exact ih _

theorem recoverAll_concat (lines : List (EventLine S)) (l : EventLine S) (st : RecoverState) :
    recoverAll config (lines ++ [l]) st =
      recoverLine config (recoverAll config lines st) l.text l.event := by
  simp [recoverAll]

/-- The counters after the complete lines. -/
structure LoopState (base : Nat) (lines : List (EventLine S)) (st : RecoverState) : Prop where
  size : st.size = linesLen (texts lines)
  bytePos : st.bytePos = linesLen (texts lines)
  records : st.records = min lines.length (2 ^ 32 - 1)
  seq : st.seq = base + lines.length
  lastSeq : st.lastSeq = if lines = [] then none else some (base + lines.length - 1)
  lastEvent : st.lastEvent = lines.getLast?.map fun l => recoveredEvent l.event

theorem loopState_recoverAll (base : Nat) (lines : List (EventLine S)) :
    LoopState base lines (recoverAll config lines (RecoverState.init base)) := by
  -- Induction from the end, as the loop goes.
  induction lines using List.reverseRecOn with
  | nil => exact ⟨rfl, rfl, rfl, rfl, rfl, rfl⟩
  | append_singleton lines l ih =>
    have hlen : linesLen (texts (lines ++ [l])) =
        linesLen (texts lines) + (utf8Len l.text + 1) := by
      simp [texts, linesLen]
    rw [recoverAll_concat]
    refine ⟨?_, ?_, ?_, ?_, ?_, ?_⟩
    · show _ + (utf8Len l.text + 1) = _
      rw [ih.bytePos, hlen]
    · show _ + (utf8Len l.text + 1) = _
      rw [ih.bytePos, hlen]
    · show satSuccU32 _ = _
      rw [ih.records, satSuccU32, List.length_append, List.length_singleton]
      omega
    · show _ + 1 = _
      rw [ih.seq, List.length_append, List.length_singleton, Nat.add_assoc]
    · show some _ = _
      rw [ih.seq, if_neg (by simp), List.length_append, List.length_singleton]
      congr 1
    · rw [List.getLast?_concat]
      rfl

/-! ### The loop over the rest -/

def isBlankLine (l : Text) : Bool := Text.trim l = []

/-- Nothing is counted if what follows the blank lines is no event. -/
theorem recoverLines_quiet {lines : List Text}
    (h : ∀ l ∈ (lines.dropWhile isBlankLine).head?, S.fromStr (Text.trim l) = none)
    (st : RecoverState) :
    ∃ pos, recoverLines S config lines st = { st with bytePos := pos } := by
  induction lines generalizing st with
  | nil => exact ⟨st.bytePos, rfl⟩
  | cons l lines ih =>
    by_cases hblank : Text.trim l = []
    · rw [List.dropWhile_cons_of_pos (by simpa [isBlankLine] using hblank)] at h
      obtain ⟨pos, hpos⟩ := ih h { st with bytePos := st.bytePos + (utf8Len l + 1) }
      refine ⟨pos, ?_⟩
      simp only [recoverLines, hblank, if_true]
      exact hpos
    · rw [List.dropWhile_cons_of_neg (by simpa [isBlankLine] using hblank)] at h
      have hnone := h l rfl
      refine ⟨st.bytePos, ?_⟩
      simp only [recoverLines, hblank, if_false, hnone]

/-- An event line at the very end is counted with a line feed it does not have. -/
theorem recoverLines_unterminated {blank : List Text} (hblank : Blank blank) (l : EventLine S)
    (st : RecoverState) :
    (recoverLines S config (blank ++ [l.text]) st).size =
      st.bytePos + linesLen (blank ++ [l.text]) := by
  induction blank generalizing st with
  | nil =>
    show (recoverLines S config [l.text] st).size = _
    simp only [recoverLines, l.nonblank, if_false, l.parses, recoverLine]
    simp
  | cons b blank ih =>
    have hb : Text.trim b = [] := (hblank b (by simp)).2
    have hrest : Blank blank := fun c hc => hblank c (by simp [hc])
    rw [List.cons_append, linesLen_cons]
    simp only [recoverLines, hb, if_true]
    rw [ih hrest]
    show st.bytePos + (utf8Len b + 1) + _ = _
    omega

end Loop

/-! ### Tails -/

/-- What the loop finds behind the blank lines of a tail that is text. -/
theorem tail_cases (t : Text) :
    (∀ l ∈ ((t.splitOn '\n').dropWhile isBlankLine).head?, S.fromStr (Text.trim l) = none) ∨
      BeginsWithEvent S (utf8 t) ∨
      ∃ (blank : List Text) (l : EventLine S), Blank blank ∧ t = fed blank ++ l.text := by
  have hparts : ∀ p ∈ t.splitOn '\n', '\n' ∉ p := by
    intro p hp
    exact not_mem_of_mem_splitOn hp
  have hsplit := List.takeWhile_append_dropWhile (p := isBlankLine) (l := t.splitOn '\n')
  have hblank : Blank ((t.splitOn '\n').takeWhile isBlankLine) := by
    intro l hl
    have htrim := List.mem_takeWhile_imp hl
    exact ⟨hparts l ((List.takeWhile_prefix _).subset hl), by simpa [isBlankLine] using htrim⟩
  cases hrest : (t.splitOn '\n').dropWhile isBlankLine with
  | nil =>
    left
    intro l hl
    cases hl
  | cons p rest =>
    have hp : p ∈ t.splitOn '\n' := by
      rw [← hsplit, hrest]
      simp
    have hnonblank : Text.trim p ≠ [] := by
      have hhead := List.head?_dropWhile_not isBlankLine (t.splitOn '\n')
      rw [hrest] at hhead
      simpa [isBlankLine] using hhead
    cases hparse : S.fromStr (Text.trim p) with
    | none =>
      left
      intro l hl
      obtain rfl := Option.mem_some_iff.mp hl
      exact hparse
    | some event =>
      right
      have htext : t = fed ((t.splitOn '\n').takeWhile isBlankLine) ++
          ['\n'].intercalate (p :: rest) := by
        have hjoin : ['\n'].intercalate (t.splitOn '\n') = t := List.intercalate_splitOn '\n'
        rw [← intercalate_append_cons, ← hrest, hsplit, hjoin]
      let l : EventLine S := ⟨p, event, hparts p hp, hnonblank, hparse⟩
      cases rest with
      | nil =>
        right
        refine ⟨_, l, hblank, ?_⟩
        rw [List.intercalate_singleton] at htext
        exact htext
      | cons q rest =>
        left
        refine ⟨_, l, utf8 (['\n'].intercalate (q :: rest)), hblank, ?_⟩
        rw [List.intercalate_cons_cons, ← List.append_assoc, ← List.append_assoc] at htext
        conv => lhs; rw [htext]
        rw [utf8_append, utf8_append]
        simp [l, utf8_append]
        rfl

theorem splitOn_fed_line {blank : List Text} (hblank : Blank blank) (l : EventLine S) :
    (fed blank ++ l.text).splitOn '\n' = blank ++ [l.text] := by
  rw [splitOn_fed_append (fun t ht => (hblank t ht).1), List.splitOn_eq_singleton l.noFeed]

/-- A quiet tail is no event line without its line feed. -/
theorem not_unterminated_of_quiet {t : Text}
    (h : ∀ l ∈ ((t.splitOn '\n').dropWhile isBlankLine).head?, S.fromStr (Text.trim l) = none) :
    ¬ Unterminated S (utf8 t) := by
  intro ⟨blank, l, hblank, htail⟩
  have ht : t = fed blank ++ l.text := by
    have hdec := congrArg fromUtf8 htail
    rw [fromUtf8_utf8, fromUtf8_utf8] at hdec
    exact Option.some.inj hdec
  have hdrop : (blank ++ [l.text]).dropWhile isBlankLine = [l.text] := by
    rw [List.dropWhile_append_of_pos]
    · rw [List.dropWhile_cons_of_neg (by simpa [isBlankLine] using l.nonblank)]
    · intro b hb
      simpa [isBlankLine] using (hblank b hb).2
  rw [ht, splitOn_fed_line hblank, hdrop] at h
  have hnone := h l.text rfl
  rw [l.parses] at hnone
  cases hnone

/-! ### The segment -/

section Segment

variable (config : SegmentConfig) {dir : Dir} {base : Nat} {f : CrashFile S}

theorem CrashFile.validPrefix_length (f : CrashFile S) :
    f.validPrefix.length = linesLen (texts f.lines) := utf8Len_fed _

theorem CrashFile.validPrefix_eq_nil_iff (f : CrashFile S) : f.validPrefix = [] ↔ f.lines = [] := by
  rw [← List.length_eq_zero_iff, f.validPrefix_length]
  cases f.lines with
  | nil => simp [texts]
  | cons l lines => simp [texts]

/-- A file with the header is emptied, whatever is behind it. -/
theorem recovers_header_iff (hfile : dir.log.contents base = some f.bytes)
    (hmagic : isBinaryMagic f.bytes = true) :
    RecoversPrefix config dir base f ↔ f.lines = [] := by
  have hcontents : ((dir.log.setLen base 0).create base).contents base = some [] := by
    rw [FileTable.contents_create, if_pos rfl, FileTable.setLen, FileTable.contents_modify,
      if_pos rfl, hfile]
    rfl
  constructor
  · intro h
    have hkept := h.contents
    simp only [recoverSegment, hfile, hmagic, if_true, openNewSegmentFiles] at hkept
    rw [hcontents] at hkept
    rw [← f.validPrefix_eq_nil_iff]
    exact (Option.some.inj hkept).symm
  · intro h
    have hnil : f.validPrefix = [] := f.validPrefix_eq_nil_iff.mpr h
    refine ⟨?_, ?_, ?_, ?_, ?_⟩ <;>
      simp [recoverSegment, hfile, hmagic, openNewSegmentFiles, FileTable.size, hcontents, h, hnil]

/-- Without a header the loop decides, and the file is cut where it ended. -/
theorem recovers_iff_loop (hfile : dir.log.contents base = some f.bytes)
    (hmagic : isBinaryMagic f.bytes = false) {st : RecoverState}
    (hst : recoverLines S config (((fromUtf8 f.bytes).getD []).splitOn '\n')
      (RecoverState.init base) = st) :
    RecoversPrefix config dir base f ↔
      st.records = f.lines.length ∧
        (st.lastSeq = if f.lines = [] then none else some (base + f.lines.length - 1)) ∧
        (st.lastEvent = f.lines.getLast?.map fun l => recoveredEvent l.event) ∧
        st.size = f.validPrefix.length ∧ f.bytes.take st.size = f.validPrefix := by
  have hkept : (recoverSegment S config dir base).dir.log.contents base =
      some (f.bytes.take st.size) := by
    simp only [recoverSegment, hfile, hmagic, Bool.false_eq_true, if_false, hst]
    split
    · rw [FileTable.setLen, FileTable.contents_modify, if_pos rfl, hfile]
      rfl
    · rw [hfile, List.take_of_length_le (by omega)]
  have hfields : (recoverSegment S config dir base).files.records = st.records ∧
      (recoverSegment S config dir base).lastSeq = st.lastSeq ∧
      (recoverSegment S config dir base).lastEvent = st.lastEvent ∧
      (recoverSegment S config dir base).files.size = st.size := by
    simp [recoverSegment, hfile, hmagic, hst]
  obtain ⟨hrecords, hseq, hevent, hsize⟩ := hfields
  constructor
  · intro h
    refine ⟨?_, ?_, ?_, ?_, ?_⟩
    · rw [← hrecords, h.records]
    · rw [← hseq, h.lastSeq]
    · rw [← hevent, h.lastEvent]
    · rw [← hsize, h.size]
    · rw [← Option.some.inj (hkept.symm.trans h.contents)]
  · intro h
    obtain ⟨h₁, h₂, h₃, h₄, h₅⟩ := h
    exact ⟨hrecords.trans h₁, hseq.trans h₂, hevent.trans h₃, hsize.trans h₄, by rw [hkept, h₅]⟩

/-- Bytes that are no text count as no lines at all. -/
theorem recovers_undecodable_iff (hfile : dir.log.contents base = some f.bytes)
    (hmagic : isBinaryMagic f.bytes = false) (htail : fromUtf8 f.tail = none) :
    RecoversPrefix config dir base f ↔ f.lines = [] := by
  have hnone : fromUtf8 f.bytes = none := by
    rw [CrashFile.bytes, CrashFile.validPrefix, fromUtf8_utf8_append, htail]
    rfl
  have hst : recoverLines S config (((fromUtf8 f.bytes).getD []).splitOn '\n')
      (RecoverState.init base) = { RecoverState.init base with bytePos := 1 } := by
    rw [hnone]
    simp [recoverLines, RecoverState.init, utf8Len]
  rw [recovers_iff_loop config hfile hmagic hst]
  constructor
  · intro h
    exact List.eq_nil_of_length_eq_zero h.1.symm
  · intro h
    have hnil : f.validPrefix = [] := f.validPrefix_eq_nil_iff.mpr h
    simp [RecoverState.init, h, hnil]

theorem recovers_decodable_iff (hfile : dir.log.contents base = some f.bytes)
    (hmagic : isBinaryMagic f.bytes = false) (htail : (fromUtf8 f.tail).isSome = true) :
    RecoversPrefix config dir base f ↔
      f.lines.length < 2 ^ 32 ∧ ¬ Unterminated S f.tail := by
  obtain ⟨t, ht⟩ := Option.isSome_iff_exists.mp htail
  have htext : utf8 t = f.tail := utf8_of_fromUtf8 ht
  have hloop := loopState_recoverAll config base f.lines
  have hst : recoverLines S config (((fromUtf8 f.bytes).getD []).splitOn '\n')
      (RecoverState.init base) =
        recoverLines S config (t.splitOn '\n')
          (recoverAll config f.lines (RecoverState.init base)) := by
    have hfeeds : ∀ u ∈ texts f.lines, '\n' ∉ u := by
      intro u hu
      obtain ⟨l, -, rfl⟩ := List.mem_map.mp hu
      exact l.noFeed
    rw [CrashFile.bytes, CrashFile.validPrefix, fromUtf8_utf8_append, ht, Option.map_some,
      Option.getD_some, splitOn_fed_append hfeeds, recoverLines_lines]
  rw [recovers_iff_loop config hfile hmagic hst]
  rcases tail_cases (S := S) t with hquiet | hbegins | ⟨blank, l, hblank, hlast⟩
  -- The loop ends behind the complete lines.
  · obtain ⟨pos, hpos⟩ := recoverLines_quiet config hquiet
      (recoverAll config f.lines (RecoverState.init base))
    have hno : ¬ Unterminated S f.tail := by
      rw [← htext]
      exact not_unterminated_of_quiet hquiet
    have hsize : (recoverAll config f.lines (RecoverState.init base)).size =
        f.validPrefix.length := by
      rw [hloop.size, f.validPrefix_length]
    have hcut : f.bytes.take f.validPrefix.length = f.validPrefix := by
      rw [CrashFile.bytes, List.take_left]
    rw [hpos]
    show (recoverAll config f.lines (RecoverState.init base)).records = _ ∧ _ ↔ _
    rw [hloop.records]
    constructor
    · intro ⟨hrecords, _⟩
      exact ⟨by omega, hno⟩
    · intro ⟨hlt, _⟩
      refine ⟨by omega, hloop.lastSeq, hloop.lastEvent, hsize, ?_⟩
      show f.bytes.take (recoverAll config f.lines (RecoverState.init base)).size = _
      rw [hsize, hcut]
  · rw [htext] at hbegins
    exact absurd hbegins f.torn
  -- The last line is counted with a line feed that is not in the file.
  · have hunterminated : Unterminated S f.tail := by
      refine ⟨blank, l, hblank, ?_⟩
      rw [← htext, hlast]
    have hone : utf8Len t + 1 = linesLen (blank ++ [l.text]) := by
      have hsplit := splitOn_fed_line hblank l
      rw [← hlast] at hsplit
      rw [← hsplit, linesLen_splitOn]
    constructor
    · intro ⟨_, _, _, hsize, _⟩
      have hsplit := splitOn_fed_line hblank l
      rw [hlast, hsplit, recoverLines_unterminated config hblank, hloop.bytePos,
        f.validPrefix_length] at hsize
      omega
    · intro ⟨_, hno⟩
      exact absurd hunterminated hno

end Segment

/-- **When a crashed line log comes back as its complete lines.**  With the header
    in front: if there are none.  Otherwise: if there are none or what the crash left
    is text, it is no event line without its line feed, and the counter of records
    can hold their number. -/
theorem recover_segment_iff (S : Serde) (config : SegmentConfig) (dir : Dir) (base : Nat)
    (f : CrashFile S) (hfile : dir.log.contents base = some f.bytes) :
    RecoversPrefix config dir base f ↔
      if isBinaryMagic f.bytes then f.lines = []
      else
        (f.lines = [] ∨ (fromUtf8 f.tail).isSome = true) ∧ ¬ Unterminated S f.tail ∧
          f.lines.length < 2 ^ 32 := by
  cases hmagic : isBinaryMagic f.bytes with
  | true =>
    rw [if_pos rfl]
    exact recovers_header_iff config hfile hmagic
  | false =>
    rw [if_neg (by simp)]
    cases htail : fromUtf8 f.tail with
    | none =>
      rw [recovers_undecodable_iff config hfile hmagic htail]
      have hno : ¬ Unterminated S f.tail := by
        intro ⟨blank, l, _, heq⟩
        rw [heq, fromUtf8_utf8] at htail
        cases htail
      constructor
      · intro h
        exact ⟨.inl h, hno, by simp [h]⟩
      · intro ⟨h, _⟩
        rcases h with h | h
        · exact h
        · cases h
    | some t =>
      rw [recovers_decodable_iff config hfile hmagic (by simp [htail])]
      constructor
      · intro ⟨hlt, hno⟩
        exact ⟨.inr rfl, hno, hlt⟩
      · intro ⟨_, hno, hlt⟩
        exact ⟨hlt, hno⟩

/-! ### Sample files -/

def crashTable : List (CanonEvent × String) :=
  [(sampleEvent "tick-1" .tick 1 (.obj []), sampleText "tick-1" "tick" 1 "\x7b\x7d")]

theorem feed_not_mem_literal {l : Text} (h : '\n' ∉ l) : '\n' ∉ (String.ofList l).toList := by
  rwa [String.toList_ofList]

/-- The pieces of a sample text between its variable parts are on one line. -/
theorem feed_not_mem_sampleText {id kind data : String} {ts : Nat} (hid : '\n' ∉ id.toList)
    (hkind : '\n' ∉ kind.toList) (hts : '\n' ∉ (toString ts).toList)
    (hdata : '\n' ∉ data.toList) : '\n' ∉ (sampleText id kind ts data).toList := by
  unfold sampleText
  simp only [String.toList_append, List.mem_append, not_or]
  refine ⟨⟨⟨⟨⟨⟨⟨⟨⟨?_, hid⟩, ?_⟩, hkind⟩, ?_⟩, hts⟩, ?_⟩, ?_⟩, hdata⟩, ?_⟩
  all_goals exact feed_not_mem_literal (by decide +kernel)

theorem trim_braced (middle : Text) :
    Text.trim ('\x7b' :: middle ++ ['\x7d']) = '\x7b' :: middle ++ ['\x7d'] := by
  rw [List.cons_append, Text.trim_cons (by decide), Text.trimEnd_concat, if_neg (by decide)]

theorem trim_sampleText (id kind : String) (ts : Nat) (data : String) :
    Text.trim (sampleText id kind ts data).toList = (sampleText id kind ts data).toList := by
  obtain ⟨middle, htext⟩ := sampleText_toList id kind ts data
  rw [htext, trim_braced]

/-- A file that begins with a brace has no header. -/
theorem isBinaryMagic_brace (bs : Bytes) : isBinaryMagic (utf8 ['\x7b'] ++ bs) = false := by
  have hfirst : utf8 ['\x7b'] = [0x7b] := by decide
  rw [hfirst]
  simp only [isBinaryMagic, Bool.and_eq_false_iff, beq_eq_false_iff_ne]
  right
  intro hmagic
  rw [List.singleton_append, List.take_succ_cons, ofLe] at hmagic
  have hvalue : (0x7b : UInt8).toNat = 123 := by decide
  rw [hvalue, magic] at hmagic
  omega

def tickLine : EventLine (.ofTable crashTable) where
  text := (sampleText "tick-1" "tick" 1 "\x7b\x7d").toList
  event := sampleEvent "tick-1" .tick 1 (.obj [])
  noFeed := feed_not_mem_sampleText (by decide) (by decide) (by decide) (by decide)
  nonblank := by
    rw [trim_sampleText]
    obtain ⟨middle, htext⟩ := sampleText_toList "tick-1" "tick" 1 "\x7b\x7d"
    rw [htext]
    exact List.cons_ne_nil _ _
  parses := by
    obtain ⟨hto, htrip⟩ := @Serde.ofTable_roundTrips crashTable (List.nodup_singleton _)
      (List.nodup_singleton _) (sampleEvent "tick-1" .tick 1 (.obj []),
        sampleText "tick-1" "tick" 1 "\x7b\x7d") (List.mem_singleton_self _)
    rw [trim_sampleText, ← hto]
    exact htrip

theorem isBinaryMagic_braced {line : EventLine S} {middle : Text}
    (h : line.text = '\x7b' :: middle ++ ['\x7d']) (tail : Bytes) :
    isBinaryMagic (utf8 (fed (texts [line])) ++ tail) = false := by
  have hfed : fed (texts [line]) = ['\x7b'] ++ (middle ++ ['\x7d'] ++ ['\n']) := by
    rw [texts, List.map_singleton, h, fed_cons]
    simp [fed]
  rw [hfed, utf8_append, List.append_assoc, isBinaryMagic_brace]

theorem isBinaryMagic_tickLine (tail : Bytes) :
    isBinaryMagic (utf8 (fed (texts [tickLine])) ++ tail) = false := by
  obtain ⟨middle, htext⟩ := sampleText_toList "tick-1" "tick" 1 "\x7b\x7d"
  have hline : tickLine.text = (sampleText "tick-1" "tick" 1 "\x7b\x7d").toList := by
    simp only [tickLine]
  exact isBinaryMagic_braced (hline.trans htext) tail

/-- The one text of the table ends with a brace. -/
theorem fromStr_crashTable {l : Text} (h : l.getLast? ≠ some '\x7d') :
    (Serde.ofTable crashTable).fromStr l = none := by
  obtain ⟨middle, htext⟩ := sampleText_toList "tick-1" "tick" 1 "\x7b\x7d"
  have hdiffer : (sampleText "tick-1" "tick" 1 "\x7b\x7d" == String.ofList l) = false := by
    rw [beq_eq_false_iff_ne]
    intro heq
    rw [heq, String.toList_ofList] at htext
    rw [htext, List.getLast?_concat] at h
    exact h rfl
  simp only [Serde.ofTable, crashTable, List.find?_cons, hdiffer, List.find?_nil, Option.map_none]

theorem not_beginsWithEvent_of_no_feed {tail : Bytes} (h : (10 : UInt8) ∉ tail) :
    ¬ BeginsWithEvent S tail := by
  intro ⟨_, _, _, _, htail⟩
  exact h (by simp [htail])

/-- One event, and the beginning of the next. -/
def tornFile : CrashFile (.ofTable crashTable) where
  lines := [tickLine]
  tail := utf8 ['\x7b', '"']
  torn := not_beginsWithEvent_of_no_feed (by decide)

/-- One event, and a byte that is no text. -/
def garbledFile : CrashFile (.ofTable crashTable) where
  lines := [tickLine]
  tail := [0xFF]
  torn := not_beginsWithEvent_of_no_feed (by decide)

theorem recover_segment_torn :
    RecoversPrefix .default { Dir.empty with log := [(0, tornFile.bytes)] } 0 tornFile := by
  have hmagic : isBinaryMagic tornFile.bytes = false := isBinaryMagic_tickLine _
  have htail : fromUtf8 tornFile.tail = some ['\x7b', '"'] := fromUtf8_utf8 _
  have hquiet : ∀ l ∈ (((['\x7b', '"'] : Text).splitOn '\n').dropWhile isBlankLine).head?,
      (Serde.ofTable crashTable).fromStr (Text.trim l) = none := by
    intro l hl
    have hone : (((['\x7b', '"'] : Text).splitOn '\n').dropWhile isBlankLine).head? =
        some ['\x7b', '"'] := by decide +kernel
    rw [hone] at hl
    obtain rfl := Option.mem_some_iff.mp hl
    exact fromStr_crashTable (by decide)
  apply (recover_segment_iff _ .default _ 0 tornFile rfl).mpr
  rw [hmagic, if_neg (by simp)]
  refine ⟨.inr (by rw [htail]; rfl), not_unterminated_of_quiet hquiet, by decide⟩

/-- A byte that is no text costs the whole segment. -/
theorem garbled_segment_lost :
    ¬ RecoversPrefix .default { Dir.empty with log := [(0, garbledFile.bytes)] } 0 garbledFile := by
  have hmagic : isBinaryMagic garbledFile.bytes = false := isBinaryMagic_tickLine _
  have htail : fromUtf8 garbledFile.tail = none := by decide +kernel
  rw [recovers_undecodable_iff .default rfl hmagic htail]
  exact List.cons_ne_nil _ _

end Canon.Tlog
