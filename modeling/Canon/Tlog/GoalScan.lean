import Canon.Tlog.RoundTrip

/-! # Recovering the goal from the log

    `scan_tlog_for_goal` of `observe.rs` looks for the last goal text among the
    segments of the log.  It reads a segment as a text file with one event a line,
    while the writer puts a four-byte length in front of every record and no line
    feed behind it.

    The bytes of a segment are seen here as a list of tokens, which are the
    characters of the length fields and whole events.  An event is read exactly
    when its token is alone on a line, up to white space.
-/

namespace Canon.Tlog

/-! ### The scan -/

/-- The text of a goal event. -/
def goalContent (ev : CanonEvent) : Option Text :=
  if ev.kind ≠ .promptLoaded then none
  else
    let val := ev.payload.data
    let isGoal := (val.get "prompt_id").bind Json.asStr = some "AGENT_GOAL" ||
      (((val.get "path").bind Json.asStr).map fun p =>
        Text.contains "AGENT_GOAL".toList p.toList).getD false
    if isGoal then ((val.get "content").bind Json.asStr).map String.toList else none

/-- One line of the scan; `found` is the last goal text so far. -/
def scanLine (S : Serde) (found : Option Text) (line : Text) : Option Text :=
  match S.fromStr line with
  | none => found
  | some ev => (goalContent ev).or found

/-- One file of the scan.  A file that is not UTF-8 is skipped. -/
def scanLogFile (S : Serde) (found : Option Text) (bytes : Bytes) : Option Text :=
  match fromUtf8 bytes with
  | none => found
  | some content => (Text.lines content).foldl (scanLine S) found

def scanTlogForGoal (S : Serde) (dir : Dir) : Option Text :=
  (dir.log.sorted.map (·.2)).foldl (scanLogFile S) none

/-- The goal text of the last goal event. -/
def lastGoal (events : List CanonEvent) : Option Text := (events.filterMap goalContent).getLast?

theorem foldl_scanLine (S : Serde) (found : Option Text) (lines : List Text) :
    lines.foldl (scanLine S) found = (lastGoal (lines.filterMap S.fromStr)).or found := by
  induction lines generalizing found with
  | nil => rfl
  | cons line lines ih =>
    rw [List.foldl_cons, ih, scanLine]
    cases hparse : S.fromStr line with
    | none => rw [List.filterMap_cons_none hparse]
    | some ev =>
      rw [List.filterMap_cons_some hparse]
      unfold lastGoal
      cases hgoal : goalContent ev with
      | none => simp only [List.filterMap_cons_none hgoal, hgoal, Option.none_or]
      | some text =>
        simp only [List.filterMap_cons_some hgoal, hgoal, List.getLast?_cons]
        cases (List.filterMap goalContent (List.filterMap S.fromStr lines)).getLast? <;> rfl

theorem lastGoal_append (as bs : List CanonEvent) :
    lastGoal (as ++ bs) = (lastGoal bs).or (lastGoal as) := by
  simp [lastGoal, List.getLast?_append]

/-! ### Tokens -/

inductive Token where
  | ch (c : Char)
  | ev (e : CanonEvent)

namespace Token

def text (S : Serde) : Token → Text
  | ch c => [c]
  | ev e => S.toStr e

/-- White space of JSON. -/
def isBlank : Token → Bool
  | ch c => c = ' ' || c = '\t' || c = '\n' || c = '\r'
  | ev _ => false

def isFeed : Token → Bool
  | ch c => c = '\n'
  | ev _ => false

def isChar : Token → Bool
  | ch _ => true
  | ev _ => false

end Token

/-- The text of a list of tokens. -/
def textOf (S : Serde) (tokens : List Token) : Text := tokens.flatMap (Token.text S)

/-- The event that is alone on a line, up to white space. -/
def lineEvent (line : List Token) : Option CanonEvent :=
  match line.filter fun t => !t.isBlank with
  | [.ev e] => some e
  | _ => none

/-- Between two events there are never more characters than a file header and a
    length field have. -/
def ShortGaps (tokens : List Token) : Prop :=
  ∀ gap, gap <:+: tokens → (∀ t ∈ gap, t.isChar = true) → gap.length ≤ 8

/-- What the scan relies on in the JSON library, for the events of a log: the text
    of an event is an object on one line, and a line is read as an event when it
    holds the text of one event and white space.  Gaps of up to eight characters
    are too short to turn anything else into an event. -/
structure ReadsLines (S : Serde) (events : List CanonEvent) : Prop where
  braces : ∀ e ∈ events, ∃ middle, S.toStr e = '\x7b' :: middle ++ ['\x7d']
  noFeed : ∀ e ∈ events, '\n' ∉ S.toStr e
  fromStr : ∀ line, (∀ e, .ev e ∈ line → e ∈ events) → ShortGaps line →
    S.fromStr (textOf S line) = lineEvent line

/-! ### Lines of tokens -/

theorem textOf_append (S : Serde) (as bs : List Token) :
    textOf S (as ++ bs) = textOf S as ++ textOf S bs := by
  simp [textOf]

/-- A front without separators belongs to the first part. -/
theorem splitOnP_append_front {α : Type} {p : α → Bool} {xs : List α} (ys : List α)
    (h : ∀ x ∈ xs, p x = false) :
    (xs ++ ys).splitOnP p = (ys.splitOnP p).modifyHead (xs ++ ·) := by
  induction xs with
  | nil =>
    obtain ⟨first, others, hparts⟩ := List.exists_cons_of_ne_nil (List.splitOnP_ne_nil p ys)
    simp [hparts]
  | cons x xs ih =>
    have hx : p x = false := h x (List.mem_cons_self ..)
    obtain ⟨first, others, hparts⟩ := List.exists_cons_of_ne_nil (List.splitOnP_ne_nil p ys)
    rw [List.cons_append, List.splitOnP_cons_eq_if_modifyHead,
      ih fun y hy => h y (List.mem_cons_of_mem _ hy), hparts]
    simp [hx]

/-- Cutting the text at line feeds is cutting the tokens at line feeds. -/
theorem splitOn_textOf {S : Serde} {tokens : List Token}
    (hfeed : ∀ e, .ev e ∈ tokens → '\n' ∉ S.toStr e) :
    (textOf S tokens).splitOn '\n' = (tokens.splitOnP Token.isFeed).map (textOf S) := by
  induction tokens with
  | nil => rfl
  | cons t tokens ih =>
    have hrest := ih fun e he => hfeed e (List.mem_cons_of_mem _ he)
    have hcons : textOf S (t :: tokens) = t.text S ++ textOf S tokens := by simp [textOf]
    obtain ⟨first, others, hparts⟩ : ∃ first others,
        tokens.splitOnP Token.isFeed = first :: others :=
      List.exists_cons_of_ne_nil (List.splitOnP_ne_nil _ _)
    rw [List.splitOn] at hrest ⊢
    cases t with
    | ch c =>
      by_cases hc : c = '\n'
      · subst hc
        have hfeed : Token.isFeed (.ch '\n') = true := rfl
        rw [hcons, Token.text, List.singleton_append, List.splitOnP_cons_eq_if_modifyHead,
          hrest, List.splitOnP_cons_eq_if_modifyHead, hfeed]
        rfl
      · have hno : Token.isFeed (.ch c) = false := by simp [Token.isFeed, hc]
        rw [hcons, Token.text, List.singleton_append, List.splitOnP_cons_eq_if_modifyHead,
          hrest, hparts, List.splitOnP_cons_eq_if_modifyHead, hno, hparts]
        simp [hc, textOf, Token.text]
    | ev e =>
      have hno : Token.isFeed (.ev e) = false := rfl
      have hnot : ∀ c ∈ S.toStr e, (c == '\n') = false := by
        intro c hc
        simp only [beq_eq_false_iff_ne]
        intro heq
        exact hfeed e (List.mem_cons_self ..) (heq ▸ hc)
      rw [hcons, Token.text, splitOnP_append_front _ hnot, hrest, hparts,
        List.splitOnP_cons_eq_if_modifyHead, hno, hparts]
      simp [textOf, Token.text]

/-- The lines are stretches of the file, the first one at its start. -/
theorem infix_of_mem_splitOnP {α : Type} {p : α → Bool} (xs : List α) :
    (∀ first, (xs.splitOnP p).head? = some first → first <+: xs) ∧
      ∀ part ∈ xs.splitOnP p, part <:+: xs := by
  induction xs with
  | nil => simp
  | cons x xs ih =>
    obtain ⟨first, others, hparts⟩ := List.exists_cons_of_ne_nil (List.splitOnP_ne_nil p xs)
    rw [List.splitOnP_cons_eq_if_modifyHead]
    rw [hparts] at ih ⊢
    have hfirst : first <+: xs := ih.1 first rfl
    have hrest : ∀ part ∈ first :: others, part <:+: x :: xs := by
      intro part hpart
      exact List.infix_cons (ih.2 part hpart)
    split
    · refine ⟨by simp, ?_⟩
      intro part hpart
      rcases List.mem_cons.mp hpart with rfl | hpart
      · exact List.nil_infix
      · exact hrest part hpart
    · refine ⟨by simpa using hfirst, ?_⟩
      intro part hpart
      rw [List.modifyHead_cons, List.mem_cons] at hpart
      rcases hpart with rfl | hpart
      · exact ((List.prefix_cons_inj x).mpr hfirst).isInfix
      · exact hrest part (List.mem_cons_of_mem _ hpart)

theorem ShortGaps.of_part {line tokens : List Token} (h : ShortGaps tokens)
    (hl : line <:+: tokens) :
    ShortGaps line :=
  fun gap hgap hchar => h gap (hgap.trans hl) hchar

section Lines

variable {S : Serde} {events : List CanonEvent}

/-- A carriage return that is stripped is white space of the line. -/
theorem fromStr_stripCr (hserde : ReadsLines S events) {line : List Token}
    (hmem : ∀ e, .ev e ∈ line → e ∈ events) (hgap : ShortGaps line) :
    S.fromStr (Text.stripCr (textOf S line)) = lineEvent line := by
  unfold Text.stripCr
  split
  · rename_i hlast
    rcases List.eq_nil_or_concat line with rfl | ⟨init, t, rfl⟩
    · cases hlast
    · rw [List.concat_eq_append] at *
      have htext : textOf S (init ++ [t]) = textOf S init ++ t.text S := by
        simp [textOf]
      cases t with
      | ev e =>
        -- The text of an event ends in a brace.
        obtain ⟨middle, hbraces⟩ := hserde.braces e (hmem e (by simp))
        rw [htext, Token.text, hbraces, ← List.append_assoc, List.getLast?_concat] at hlast
        simp at hlast
      | ch c =>
        rw [htext, Token.text] at hlast ⊢
        simp only [List.getLast?_append_of_ne_nil, ne_eq, List.cons_ne_self, not_false_eq_true,
          List.getLast?_singleton, Option.some.injEq] at hlast
        subst hlast
        rw [List.dropLast_concat, hserde.fromStr init (fun e he => hmem e (by simp [he]))
          (hgap.of_part (List.prefix_append _ _).isInfix)]
        simp [lineEvent, Token.isBlank]
  · exact hserde.fromStr line hmem hgap

theorem textOf_eq_nil (hserde : ReadsLines S events) {line : List Token}
    (hmem : ∀ e, .ev e ∈ line → e ∈ events) (h : textOf S line = []) : line = [] := by
  cases line with
  | nil => rfl
  | cons t line =>
    cases t with
    | ch c => simp [textOf, Token.text] at h
    | ev e =>
      obtain ⟨middle, hbraces⟩ := hserde.braces e (hmem e (List.mem_cons_self ..))
      simp [textOf, Token.text, hbraces] at h

/-- The lines that are read as events are those with one event and white space. -/
theorem filterMap_fromStr_lines (hserde : ReadsLines S events) {tokens : List Token}
    (hmem : ∀ e, .ev e ∈ tokens → e ∈ events) (hgap : ShortGaps tokens) :
    (Text.lines (textOf S tokens)).filterMap S.fromStr
      = (tokens.splitOnP Token.isFeed).filterMap lineEvent := by
  have hpiece := (infix_of_mem_splitOnP (p := Token.isFeed) tokens).2
  have hlines := splitOn_textOf (S := S) fun e he => hserde.noFeed e (hmem e he)
  rcases List.eq_nil_or_concat (tokens.splitOnP Token.isFeed) with hnil | ⟨init, last, hparts⟩
  · exact absurd hnil (List.splitOnP_ne_nil _ _)
  · rw [List.concat_eq_append] at hparts
    rw [hparts] at hpiece hlines ⊢
    have hmem' : ∀ line ∈ init ++ [last], ∀ e, .ev e ∈ line → e ∈ events :=
      fun line hl e he => hmem e ((hpiece line hl).subset he)
    have hinit : ((init.map (textOf S)).map Text.stripCr).filterMap S.fromStr
        = init.filterMap lineEvent := by
      rw [List.map_map, List.filterMap_map]
      apply List.filterMap_congr
      intro line hl
      have hl' : line ∈ init ++ [last] := List.mem_append_left _ hl
      exact fromStr_stripCr hserde (hmem' line hl') (hgap.of_part (hpiece line hl'))
    have hl' : last ∈ init ++ [last] := by simp
    have hlast := hserde.fromStr last (hmem' last hl') (hgap.of_part (hpiece last hl'))
    simp only [Text.lines, hlines, List.map_append, List.map_cons, List.map_nil,
      List.dropLast_concat, List.filterMap_append, hinit, List.getLast?_concat]
    congr 1
    -- An empty last line is left out, and is no event either.
    split
    · rename_i hempty
      rw [Option.some.injEq] at hempty
      rw [textOf_eq_nil hserde (hmem' last hl') hempty]
      rfl
    · rename_i hnone
      cases hnone
    · rename_i text _ hsome
      rw [Option.some.injEq] at hsome
      rw [← hsome, List.filterMap_cons, hlast, List.filterMap_cons]
      rfl

end Lines

/-! ### The tokens of a segment -/

/-- The records of a segment: the characters of the length field, then the event. -/
def recordTokens (S : Serde) : List CanonEvent → Option (List Token)
  | [] => some []
  | e :: events =>
    (fromUtf8 (leBytes 4 (S.toVec e).length)).bind fun field =>
      (recordTokens S events).map fun rest => field.map .ch ++ .ev e :: rest

/-- The file header as text. -/
def magicText : Text := "GOLT".toList

/-- The tokens of a segment; nothing when its bytes are not UTF-8. -/
def segmentTokens (S : Serde) (header : Bool) (events : List CanonEvent) : Option (List Token) :=
  (recordTokens S events).map ((if header then magicText.map .ch else []) ++ ·)

/-- A segment with the events whose records it holds. -/
structure EventSeg where
  base : Nat
  header : Bool
  events : List CanonEvent

namespace EventSeg

def seg (S : Serde) (s : EventSeg) : Seg := ⟨s.base, s.header, s.events.map S.toVec⟩

/-- The events of a segment that stand alone on a line. -/
def readable (S : Serde) (s : EventSeg) : List CanonEvent :=
  match segmentTokens S s.header s.events with
  | none => []
  | some tokens => (tokens.splitOnP Token.isFeed).filterMap lineEvent

end EventSeg

section Segments

variable {S : Serde} {events : List CanonEvent}

theorem textOf_chars (S : Serde) (text : Text) : textOf S (text.map .ch) = text := by
  induction text with
  | nil => rfl
  | cons c text ih =>
    have hcons : textOf S ((c :: text).map .ch) = c :: textOf S (text.map .ch) := rfl
    rw [hcons, ih]

/-- The texts of the tokens are the text of the file. -/
theorem fromUtf8_records (hserde : ReadsLines S events) {es : List CanonEvent}
    (hsub : ∀ e ∈ es, e ∈ events) :
    fromUtf8 ((es.map S.toVec).flatMap frame) = (recordTokens S es).map (textOf S) := by
  induction es with
  | nil => exact fromUtf8_utf8 []
  | cons e es ih =>
    have hrest := ih fun e' he => hsub e' (List.mem_cons_of_mem _ he)
    obtain ⟨middle, hbraces⟩ := hserde.braces e (hsub e (List.mem_cons_self ..))
    -- The brace that opens an event is the first byte of a character.
    have hfirst : ∀ b ∈ (S.toVec e ++ (es.map S.toVec).flatMap frame).head?,
        b.IsUTF8FirstByte := by
      have hbyte : utf8 ['\x7b'] = [0x7b] := by decide
      have hhead : S.toVec e = 0x7b :: utf8 (middle ++ ['\x7d']) := by
        rw [Serde.toVec, hbraces]
        show utf8 (['\x7b'] ++ (middle ++ ['\x7d'])) = _
        rw [utf8_append, hbyte]
        rfl
      rw [hhead]
      intro b hb
      obtain rfl : 0x7b = b := by simpa using hb
      decide
    rw [List.map_cons, List.flatMap_cons, frame, List.append_assoc, fromUtf8_append_first hfirst,
      Serde.toVec, fromUtf8_utf8_append, ← Serde.toVec, hrest, recordTokens]
    cases fromUtf8 (leBytes 4 (S.toVec e).length) with
    | none => rfl
    | some field =>
      cases recordTokens S es with
      | none => rfl
      | some rest =>
        simp only [Option.bind_some, Option.map_some, Option.some.injEq]
        have hcons : textOf S (Token.ev e :: rest) = S.toStr e ++ textOf S rest := rfl
        rw [textOf_append, textOf_chars, hcons]

theorem fromUtf8_segment (hserde : ReadsLines S events) {s : EventSeg}
    (hsub : ∀ e ∈ s.events, e ∈ events) :
    fromUtf8 (s.seg S).bytes = (segmentTokens S s.header s.events).map (textOf S) := by
  have hrecords := fromUtf8_records hserde hsub
  have hmagic : magicBytes = utf8 magicText := by decide
  unfold Seg.bytes EventSeg.seg segmentTokens
  cases s.header with
  | false => simpa using hrecords
  | true =>
    simp only [if_true]
    rw [hmagic, fromUtf8_utf8_append, hrecords, Option.map_map, Option.map_map]
    refine congrFun (congrArg Option.map (funext fun tokens => ?_)) _
    rw [Function.comp_apply, Function.comp_apply, textOf_append, textOf_chars]

theorem ev_mem_recordTokens {es : List CanonEvent} {tokens : List Token}
    (h : recordTokens S es = some tokens) {e : CanonEvent} (he : .ev e ∈ tokens) : e ∈ es := by
  induction es generalizing tokens with
  | nil =>
    cases h
    cases he
  | cons e' es ih =>
    simp only [recordTokens, Option.bind_eq_some_iff, Option.map_eq_some_iff] at h
    obtain ⟨field, -, rest, hrest, rfl⟩ := h
    simp only [List.mem_append, List.mem_map, reduceCtorEq, and_false, exists_false, false_or,
      List.mem_cons, Token.ev.injEq] at he
    rcases he with rfl | he
    · exact List.mem_cons_self ..
    · exact List.mem_cons_of_mem _ (ih hrest he)

/-- An event ends a gap. -/
theorem ShortGaps.chars_append {chars : List Token} (hchars : chars.length ≤ 8) {e : CanonEvent}
    {rest : List Token} (h : ShortGaps rest) : ShortGaps (chars ++ .ev e :: rest) := by
  intro gap hgap hchar
  have hno : ∀ more, ¬ (.ev e :: more <:+: gap) := by
    intro more hmore
    have hev := hchar (.ev e) (hmore.subset (List.mem_cons_self ..))
    cases hev
  rcases List.infix_append_iff.mp hgap with hin | hin | ⟨front, back, rfl, hfront, hback⟩
  · exact hin.length_le.trans hchars
  · rcases List.infix_cons_iff.mp hin with hpre | hin
    · cases gap with
      | nil => exact Nat.zero_le _
      | cons t gap =>
        obtain ⟨rfl, -⟩ := List.cons_prefix_cons.mp hpre
        exact absurd List.infix_rfl (hno gap)
    · exact h gap hin hchar
  · cases back with
    | nil =>
      rw [List.append_nil]
      exact hfront.length_le.trans hchars
    | cons t back =>
      obtain ⟨rfl, -⟩ := List.cons_prefix_cons.mp hback
      exact absurd (List.suffix_append ..).isInfix (hno back)

theorem length_le_of_fromUtf8 {bs : Bytes} {text : Text} (h : fromUtf8 bs = some text) :
    text.length ≤ bs.length := by
  rw [← utf8_of_fromUtf8 h]
  clear h
  induction text with
  | nil => simp
  | cons c text ih =>
    have hcons : utf8 (c :: text) = String.utf8EncodeChar c ++ utf8 text := by simp [utf8]
    have hpos : 0 < c.utf8Size := Char.utf8Size_pos c
    rw [hcons, List.length_append, String.length_utf8EncodeChar, List.length_cons]
    omega

/-- A header of up to four characters may stand in front of the records. -/
theorem shortGaps_records {es : List CanonEvent} {tokens front : List Token}
    (h : recordTokens S es = some tokens) (hfront : front.length ≤ 4) :
    ShortGaps (front ++ tokens) := by
  induction es generalizing tokens front with
  | nil =>
    cases h
    intro gap hgap _
    rw [List.append_nil] at hgap
    exact hgap.length_le.trans (by omega)
  | cons e es ih =>
    simp only [recordTokens, Option.bind_eq_some_iff, Option.map_eq_some_iff] at h
    obtain ⟨field, hfield, rest, hrest, rfl⟩ := h
    have hlen := length_le_of_fromUtf8 hfield
    rw [leBytes_length] at hlen
    rw [← List.append_assoc]
    have hshort : ShortGaps ([] ++ rest) := ih hrest (Nat.zero_le _)
    refine ShortGaps.chars_append ?_ hshort
    rw [List.length_append, List.length_map]
    omega

theorem scanLogFile_segment (hserde : ReadsLines S events) {s : EventSeg}
    (hsub : ∀ e ∈ s.events, e ∈ events) (found : Option Text) :
    scanLogFile S found (s.seg S).bytes = (lastGoal (s.readable S)).or found := by
  unfold scanLogFile EventSeg.readable
  rw [fromUtf8_segment hserde hsub]
  cases htokens : segmentTokens S s.header s.events with
  | none => rfl
  | some tokens =>
    obtain ⟨records, hrecords, rfl⟩ := Option.map_eq_some_iff.mp htokens
    have hgap : ShortGaps ((if s.header then magicText.map .ch else []) ++ records) := by
      apply shortGaps_records hrecords
      cases s.header <;> simp [magicText]
    have hmem : ∀ e, .ev e ∈ (if s.header then magicText.map .ch else []) ++ records →
        e ∈ events := by
      intro e he
      refine hsub e (ev_mem_recordTokens hrecords ?_)
      cases hheader : s.header <;> simpa [hheader] using he
    simp only [Option.map_some]
    rw [foldl_scanLine, filterMap_fromStr_lines hserde hmem hgap]

end Segments

variable {S : Serde} {tokens : List Token}

/-! ### The scan of a log directory -/

/-- The directory holds these events in these segments. -/
structure LaidOut (S : Serde) (dir : Dir) (events : List CanonEvent) (segs : List EventSeg) :
    Prop where
  files : dir.log = segs.map fun s => (s.seg S).entry
  ascending : segs.Pairwise fun a b => a.base < b.base
  order : segs.flatMap EventSeg.events = events

theorem scanTlogForGoal_of_laidOut {dir : Dir} {events : List CanonEvent} {segs : List EventSeg}
    (h : LaidOut S dir events segs) (hserde : ReadsLines S events) :
    scanTlogForGoal S dir = lastGoal (segs.flatMap (EventSeg.readable S)) := by
  have hasc : dir.log.Ascending := by
    unfold FileTable.Ascending
    rw [h.files, List.map_map]
    exact List.pairwise_map.mpr h.ascending
  have hsub : ∀ s ∈ segs, ∀ e ∈ s.events, e ∈ events := by
    intro s hs e he
    rw [← h.order]
    exact List.mem_flatMap.mpr ⟨s, hs, he⟩
  have hfold : ∀ (todo : List EventSeg) (found : Option Text), (∀ s ∈ todo, s ∈ segs) →
      (todo.map fun s => (s.seg S).bytes).foldl (scanLogFile S) found
        = (lastGoal (todo.flatMap (EventSeg.readable S))).or found := by
    intro todo
    induction todo with
    | nil => intro found _; rfl
    | cons s todo ih =>
      intro found htodo
      rw [List.map_cons, List.foldl_cons,
        scanLogFile_segment hserde (hsub s (htodo s (List.mem_cons_self ..))),
        ih _ fun s' hs => htodo s' (List.mem_cons_of_mem _ hs), List.flatMap_cons,
        lastGoal_append, Option.or_assoc]
  have hbytes : dir.log.map (·.2) = segs.map fun s => (s.seg S).bytes := by
    rw [h.files, List.map_map]
    rfl
  rw [scanTlogForGoal, FileTable.sorted_of_ascending hasc, hbytes, hfold segs none fun s hs => hs,
    Option.or_none]

/-- Records that are texts of events belong to segments of events. -/
theorem exists_eventSegs {segs : List Seg} {events : List CanonEvent}
    (h : recordsOf segs = events.map S.toVec) :
    ∃ esegs : List EventSeg, esegs.map (EventSeg.seg S) = segs ∧
      esegs.flatMap EventSeg.events = events := by
  induction segs generalizing events with
  | nil =>
    obtain rfl : events = [] := by simpa [recordsOf] using h.symm
    exact ⟨[], rfl, rfl⟩
  | cons seg segs ih =>
    have hcons : recordsOf (seg :: segs) = seg.records ++ recordsOf segs := by simp [recordsOf]
    rw [hcons] at h
    obtain ⟨mine, others, rfl, hmine, hothers⟩ := List.map_eq_append_iff.mp h.symm
    obtain ⟨esegs, hsegs, horder⟩ := ih hothers.symm
    refine ⟨⟨seg.base, seg.header, mine⟩ :: esegs, ?_, ?_⟩
    · rw [List.map_cons, hsegs, EventSeg.seg]
      simp only [hmine]
    · rw [List.flatMap_cons, horder]

/-- What the writer keeps up, whatever the size of its records. -/
structure LayoutInv (S : Serde) (config : SegmentConfig) (s : AppendState) : Prop where
  config_eq : s.writer.config = config
  layout : ∃ pre cur, Stored s.dir s.writer.files s.writer.seq pre cur ∧
    recordsOf (pre ++ [cur]) = s.accepted.map fun e => S.toVec (normalizeDelta e)

theorem LayoutInv.step {config : SegmentConfig} (hret : config.retainSegments = none)
    (s : AppendState) (event : CanonEvent) (h : LayoutInv S config s) :
    LayoutInv S config ((appendMachine S).step s event) := by
  obtain ⟨hcfg, pre, cur, hstored, hrec⟩ := h
  by_cases hacc : Accepts s.writer event
  · rw [appendMachine_step_of_accepts S hacc]
    have hret' : s.writer.config.retainSegments = none := by rw [hcfg]; exact hret
    obtain ⟨pre', cur', hstored', hrec'⟩ :=
      hstored.append hret' event.ts (S.toVec (normalizeDelta event))
    refine ⟨hcfg, pre', cur', hstored', ?_⟩
    rw [hrec', hrec]
    simp
  · rw [appendMachine_step_of_not_accepts S hacc]
    exact ⟨hcfg, pre, cur, hstored, hrec⟩

/-- Every run leaves the accepted events laid out in segments. -/
theorem exists_laidOut (S : Serde) (config : SegmentConfig)
    (hret : config.retainSegments = none) (attempts : List CanonEvent) :
    ∃ segs, LaidOut S ((appendMachine S).run (.fresh S config) attempts).dir
      (((appendMachine S).run (.fresh S config) attempts).accepted.map normalizeDelta) segs := by
  have hinit : LayoutInv S config (.fresh S config) := by
    obtain ⟨hcfg, -, pre, cur, hw, hrec⟩ := AppendInv.initial S hret
    exact ⟨hcfg, pre, cur, hw.stored, hrec⟩
  obtain ⟨-, pre, cur, hstored, hrec⟩ :=
    (appendMachine S).run_invariant (LayoutInv.step hret) attempts hinit
  have hrec' : recordsOf (pre ++ [cur])
      = (((appendMachine S).run (.fresh S config) attempts).accepted.map normalizeDelta).map
          S.toVec := by
    rw [hrec, List.map_map]
    rfl
  obtain ⟨segs, hsegs, horder⟩ := exists_eventSegs hrec'
  refine ⟨segs, ?_, ?_, horder⟩
  · rw [hstored.log, ← hsegs, List.map_map]
    rfl
  · have hasc := hstored.ascending
    rw [← hsegs, List.pairwise_map] at hasc
    exact hasc

/-! ### Short records are never read -/

/-- A line with an event on it has another character on it, too. -/
def Hidden (line : List Token) : Prop :=
  ∀ e, .ev e ∈ line → ∃ c, .ch c ∈ line ∧ Token.isBlank (.ch c) = false

theorem Hidden.lineEvent_eq_none {line : List Token} (h : Hidden line) : lineEvent line = none := by
  unfold lineEvent
  split
  · rename_i e hfilter
    have hmem : ∀ t, t ∈ line ∧ t.isBlank = false ↔ t = .ev e := by
      intro t
      have hiff : t ∈ line.filter (fun t => !t.isBlank) ↔ _ := List.mem_filter
      rw [hfilter, List.mem_singleton] at hiff
      simpa using hiff.symm
    obtain ⟨c, hc, hblank⟩ := h e ((hmem _).mpr rfl).1
    cases (hmem (.ch c)).mp ⟨hc, hblank⟩
  · rfl

/-- One more character in front hides no less. -/
theorem hidden_cons_ch {c : Char} (h : ∀ line ∈ tokens.splitOnP Token.isFeed, Hidden line) :
    ∀ line ∈ (Token.ch c :: tokens).splitOnP Token.isFeed, Hidden line := by
  obtain ⟨first, others, hparts⟩ :=
    List.exists_cons_of_ne_nil (List.splitOnP_ne_nil Token.isFeed tokens)
  rw [List.splitOnP_cons_eq_if_modifyHead]
  intro line hline
  split at hline
  · rcases List.mem_cons.mp hline with rfl | hline
    · intro e he
      cases he
    · exact h line hline
  · rw [hparts, List.modifyHead_cons, List.mem_cons] at hline
    rw [hparts] at h
    rcases hline with rfl | hline
    · intro e he
      rcases List.mem_cons.mp he with he | he
      · cases he
      · obtain ⟨c', hc', hblank⟩ := h first (List.mem_cons_self ..) e he
        exact ⟨c', List.mem_cons_of_mem _ hc', hblank⟩
    · exact h line (List.mem_cons_of_mem _ hline)

theorem hidden_chars_append {chars : Text} (h : ∀ line ∈ tokens.splitOnP Token.isFeed, Hidden line)
    :
    ∀ line ∈ (chars.map Token.ch ++ tokens).splitOnP Token.isFeed, Hidden line := by
  induction chars with
  | nil => exact h
  | cons c chars ih => exact hidden_cons_ch ih

/-- A character that is no white space hides the event behind it. -/
theorem hidden_ev {c : Char} (hc : Token.isBlank (.ch c) = false) (e : CanonEvent)
    (h : ∀ line ∈ tokens.splitOnP Token.isFeed, Hidden line) :
    ∀ line ∈ (Token.ch c :: .ev e :: tokens).splitOnP Token.isFeed, Hidden line := by
  obtain ⟨first, others, hparts⟩ :=
    List.exists_cons_of_ne_nil (List.splitOnP_ne_nil Token.isFeed tokens)
  have hfeed : ∀ t ∈ [Token.ch c, .ev e], t.isFeed = false := by
    intro t ht
    simp only [List.mem_cons, List.not_mem_nil, or_false] at ht
    rcases ht with rfl | rfl
    · simp only [Token.isBlank, Bool.or_eq_false_iff, decide_eq_false_iff_not] at hc
      simp [Token.isFeed, hc.1.2]
    · rfl
  have hcut : (Token.ch c :: .ev e :: tokens).splitOnP Token.isFeed
      = (Token.ch c :: .ev e :: first) :: others := by
    rw [show Token.ch c :: .ev e :: tokens = [Token.ch c, .ev e] ++ tokens from rfl,
      splitOnP_append_front tokens hfeed, hparts]
    rfl
  intro line hline
  rw [hcut] at hline
  rcases List.mem_cons.mp hline with rfl | hline
  · intro _ _
    exact ⟨c, List.mem_cons_self .., hc⟩
  · exact h line (by rw [hparts]; exact List.mem_cons_of_mem _ hline)

/-- The last byte of the length of a short record is a control character. -/
theorem lengthField_of_short {n : Nat} (hn : n < 0x09000000) {field : Text}
    (h : fromUtf8 (leBytes 4 n) = some field) :
    ∃ front c, field = front ++ [c] ∧ Token.isBlank (.ch c) = false := by
  have hbytes : leBytes 4 n = leBytes 3 n ++ [UInt8.ofNat (n / 16777216)] := by
    have hdiv : n / 256 / 256 / 256 = n / 16777216 := by omega
    have hmod : n / 16777216 % 256 = n / 16777216 := Nat.mod_eq_of_lt (by omega)
    simp [leBytes, hdiv, hmod]
  have hsmall : n / 16777216 < 9 := by omega
  have hctrl : ∀ k < 9, (UInt8.ofNat k).IsUTF8FirstByte ∧
      [UInt8.ofNat k] = utf8 [Char.ofNat k] ∧ Token.isBlank (.ch (Char.ofNat k)) = false := by
    decide
  obtain ⟨hfirst, henc, hblank⟩ := hctrl _ hsmall
  rw [hbytes, fromUtf8_append_first (by simpa using hfirst), henc, fromUtf8_utf8] at h
  obtain ⟨front, -, hfield⟩ := Option.bind_eq_some_iff.mp h
  exact ⟨front, _, (Option.some.inj hfield).symm, hblank⟩

theorem hidden_of_short {es : List CanonEvent} (h : recordTokens S es = some tokens)
    (hshort : ∀ e ∈ es, (S.toVec e).length < 0x09000000) :
    ∀ line ∈ tokens.splitOnP Token.isFeed, Hidden line := by
  induction es generalizing tokens with
  | nil =>
    cases h
    intro line hline e he
    obtain rfl : line = [] := by simpa using hline
    cases he
  | cons e es ih =>
    simp only [recordTokens, Option.bind_eq_some_iff, Option.map_eq_some_iff] at h
    obtain ⟨field, hfield, rest, hrest, rfl⟩ := h
    obtain ⟨front, c, rfl, hc⟩ :=
      lengthField_of_short (hshort e (List.mem_cons_self ..)) hfield
    have htail := ih hrest fun e' he => hshort e' (List.mem_cons_of_mem _ he)
    rw [List.map_append, List.append_assoc]
    exact hidden_chars_append (hidden_ev hc e htail)

/-- Below this size the length field ends in a character that no JSON text may have
    in front of it. -/
theorem readable_of_short {s : EventSeg} (hshort : ∀ e ∈ s.events, (S.toVec e).length < 0x09000000)
    : s.readable S = [] := by
  unfold EventSeg.readable
  cases htokens : segmentTokens S s.header s.events with
  | none => rfl
  | some tokens =>
    obtain ⟨records, hrecords, rfl⟩ := Option.map_eq_some_iff.mp htokens
    have hhidden := hidden_of_short hrecords hshort
    have hall : ∀ line ∈ ((if s.header then magicText.map Token.ch else []) ++ records).splitOnP
        Token.isFeed, Hidden line := by
      cases s.header with
      | false => exact hhidden
      | true => exact hidden_chars_append hhidden
    simp only
    rw [List.filterMap_eq_nil_iff]
    intro line hline
    exact (hall line hline).lineEvent_eq_none

theorem scanTlogForGoal_of_short {dir : Dir} {events : List CanonEvent} {segs : List EventSeg}
    (h : LaidOut S dir events segs) (hserde : ReadsLines S events)
    (hshort : ∀ e ∈ events, (S.toVec e).length < 0x09000000) : scanTlogForGoal S dir = none := by
  have hnone : segs.flatMap (EventSeg.readable S) = [] := by
    rw [List.flatMap_eq_nil_iff]
    intro s hs
    apply readable_of_short
    intro e he
    apply hshort e
    rw [← h.order]
    exact List.mem_flatMap.mpr ⟨s, hs, he⟩
  rw [scanTlogForGoal_of_laidOut h hserde, hnone]
  rfl

/-! ### When the goal is found -/

/-- The goal of a log is recovered exactly when the last goal event among those that
    stand alone on a line of their file has the same text.  No event does whose
    record is shorter than `0x09000000` bytes, so from such a log no goal comes
    back. -/
theorem scanTlogForGoal_iff (S : Serde) (config : SegmentConfig)
    (hret : config.retainSegments = none) (attempts : List CanonEvent)
    (hserde : ReadsLines S
      (((appendMachine S).run (.fresh S config) attempts).accepted.map normalizeDelta))
    (hgoal : (lastGoal ((appendMachine S).run (.fresh S config) attempts).accepted).isSome) :
    ∃ segs,
      LaidOut S ((appendMachine S).run (.fresh S config) attempts).dir
        (((appendMachine S).run (.fresh S config) attempts).accepted.map normalizeDelta) segs ∧
      (scanTlogForGoal S ((appendMachine S).run (.fresh S config) attempts).dir
          = lastGoal ((appendMachine S).run (.fresh S config) attempts).accepted ↔
        lastGoal (segs.flatMap (EventSeg.readable S))
          = lastGoal ((appendMachine S).run (.fresh S config) attempts).accepted) ∧
      ((∀ e ∈ ((appendMachine S).run (.fresh S config) attempts).accepted,
          (S.toVec (normalizeDelta e)).length < 0x09000000) →
        scanTlogForGoal S ((appendMachine S).run (.fresh S config) attempts).dir
          ≠ lastGoal ((appendMachine S).run (.fresh S config) attempts).accepted) := by
  obtain ⟨segs, hlaid⟩ := exists_laidOut S config hret attempts
  refine ⟨segs, hlaid, by rw [scanTlogForGoal_of_laidOut hlaid hserde], ?_⟩
  intro hshort hsame
  have hnone := scanTlogForGoal_of_short hlaid hserde (by simpa using hshort)
  rw [← hsame, hnone] at hgoal
  cases hgoal

/-! ### A log with one goal -/

def isJsonBlank (c : Char) : Bool := c = ' ' || c = '\t' || c = '\n' || c = '\r'

/-- The JSON library on a log whose only event is `e`: a line is that event when it
    is its text between white space. -/
def Serde.ofLine (e : CanonEvent) (text : String) : Serde where
  toStr _ := text.toList
  fromStr line :=
    if (line.dropWhile isJsonBlank).rdropWhile isJsonBlank = text.toList then some e else none
  legacyFromStr _ := none
  kindFromStr _ := none
  freshId _ := ""

theorem Serde.ofLine_toVec_length (e e' : CanonEvent) (text : String) :
    ((Serde.ofLine e text).toVec e').length = text.utf8ByteSize :=
  utf8Len_toList text

/-- The number of characters that are no white space. -/
def inkOf (text : Text) : Nat := text.countP fun c => !isJsonBlank c

theorem inkOf_append (s t : Text) : inkOf (s ++ t) = inkOf s + inkOf t := List.countP_append

theorem inkOf_dropWhile (s : Text) : inkOf (s.dropWhile isJsonBlank) = inkOf s := by
  induction s with
  | nil => rfl
  | cons c s ih =>
    by_cases hc : isJsonBlank c = true
    · rw [List.dropWhile_cons_of_pos hc, ih]
      simp [inkOf, hc]
    · rw [List.dropWhile_cons_of_neg hc]

theorem inkOf_trim (s : Text) :
    inkOf ((s.dropWhile isJsonBlank).rdropWhile isJsonBlank) = inkOf s := by
  have hrev : ∀ t : Text, inkOf t.reverse = inkOf t := fun t => List.countP_reverse
  rw [List.rdropWhile, hrev, inkOf_dropWhile, hrev, inkOf_dropWhile]

/-- Blank tokens are those without ink, when events have some. -/
theorem inkOf_textOf_eq_zero (hink : ∀ e, .ev e ∈ tokens → 0 < inkOf (S.toStr e)) :
    inkOf (textOf S tokens) = 0 ↔ ∀ t ∈ tokens, t.isBlank = true := by
  induction tokens with
  | nil => simp [textOf, inkOf]
  | cons t tokens ih =>
    have hcons : textOf S (t :: tokens) = t.text S ++ textOf S tokens := by simp [textOf]
    rw [hcons, inkOf_append, Nat.add_eq_zero_iff,
      ih fun e he => hink e (List.mem_cons_of_mem _ he), List.forall_mem_cons]
    apply and_congr_left'
    cases t with
    | ch c =>
      have hsame : Token.isBlank (.ch c) = isJsonBlank c := rfl
      rw [hsame]
      cases hblank : isJsonBlank c <;> simp [Token.text, inkOf, hblank]
    | ev e =>
      have hpos := hink e (List.mem_cons_self ..)
      simp only [Token.text, Token.isBlank, Bool.false_eq_true, iff_false]
      omega

theorem rdropWhile_append_blank {s t : Text} (h : ∀ c ∈ t, isJsonBlank c = true) :
    (s ++ t).rdropWhile isJsonBlank = s.rdropWhile isJsonBlank := by
  induction t using List.reverseRecOn generalizing s with
  | nil => rw [List.append_nil]
  | append_singleton t c ih =>
    rw [← List.append_assoc, List.rdropWhile_concat_pos _ _ _ (h c (by simp))]
    exact ih fun c' hc => h c' (by simp [hc])

theorem textOf_blank (h : ∀ t ∈ tokens, t.isBlank = true) :
    ∀ c ∈ textOf S tokens, isJsonBlank c = true := by
  intro c hc
  obtain ⟨t, ht, hc⟩ := List.mem_flatMap.mp hc
  have hblank := h t ht
  cases t with
  | ch d =>
    rw [Token.text, List.mem_singleton] at hc
    rw [hc]
    exact hblank
  | ev e => cases hblank

theorem filter_of_lineEvent {line : List Token} {e : CanonEvent} (h : lineEvent line = some e) :
    line.filter (fun t => !t.isBlank) = [.ev e] := by
  unfold lineEvent at h
  split at h
  · rename_i hfilter
    rw [hfilter, Option.some.inj h]
  · cases h

theorem length_textOf_chars {line : List Token} (h : ∀ t ∈ line, t.isChar = true) :
    (textOf S line).length = line.length := by
  induction line with
  | nil => rfl
  | cons t line ih =>
    have hrest := ih fun t' ht => h t' (List.mem_cons_of_mem _ ht)
    cases t with
    | ch c =>
      have hcons : textOf S (.ch c :: line) = c :: textOf S line := rfl
      rw [hcons, List.length_cons, List.length_cons, hrest]
    | ev e => cases h (.ev e) (List.mem_cons_self ..)

/-- The library of `Serde.ofLine` behaves as the scan relies on. -/
theorem Serde.ofLine_readsLines (e : CanonEvent) {text : String} {middle : Text}
    (hbraces : text.toList = '\x7b' :: middle ++ ['\x7d']) (hfeed : '\n' ∉ text.toList)
    (hink : 8 < inkOf text.toList) : ReadsLines (.ofLine e text) [e] := by
  refine ⟨fun _ _ => ⟨middle, hbraces⟩, fun _ _ => hfeed, ?_⟩
  intro line hmem hgap
  have hink' : ∀ tokens : List Token, ∀ e', .ev e' ∈ tokens →
      0 < inkOf ((Serde.ofLine e text).toStr e') := fun _ _ _ => by
    show 0 < inkOf text.toList
    omega
  have hfrom : (Serde.ofLine e text).fromStr (textOf (.ofLine e text) line)
      = if ((textOf (.ofLine e text) line).dropWhile isJsonBlank).rdropWhile isJsonBlank
          = text.toList then some e else none := rfl
  rw [hfrom]
  by_cases hev : ∃ e', .ev e' ∈ line
  · obtain ⟨e', hev⟩ := hev
    obtain rfl : e' = e := by simpa using hmem e' hev
    obtain ⟨front, back, rfl⟩ := List.append_of_mem hev
    have htext : textOf (.ofLine e' text) (front ++ .ev e' :: back)
        = textOf (.ofLine e' text) front ++ (text.toList ++ textOf (.ofLine e' text) back) := by
      rw [textOf_append]
      rfl
    by_cases hblank : (∀ t ∈ front, t.isBlank = true) ∧ ∀ t ∈ back, t.isBlank = true
    -- White space around the event is trimmed, its braces are not.
    · have hfilter : ∀ tokens : List Token, (∀ t ∈ tokens, t.isBlank = true) →
          tokens.filter (fun t => !t.isBlank) = [] := by
        intro tokens h
        rw [List.filter_eq_nil_iff]
        intro t ht
        simp [h t ht]
      have hline : lineEvent (front ++ .ev e' :: back) = some e' := by
        have hkeep : (front ++ Token.ev e' :: back).filter (fun t => !t.isBlank) = [.ev e'] := by
          rw [List.filter_append, hfilter front hblank.1, List.filter_cons_of_pos rfl,
            hfilter back hblank.2]
          rfl
        rw [lineEvent, hkeep]
      have htrim : ((textOf (.ofLine e' text) (front ++ .ev e' :: back)).dropWhile
          isJsonBlank).rdropWhile isJsonBlank = text.toList := by
        have hopen : isJsonBlank '\x7b' = false := by decide
        have hclose : ¬ isJsonBlank '\x7d' = true := by decide
        rw [htext, List.dropWhile_append_of_pos (textOf_blank hblank.1), hbraces,
          List.cons_append, List.cons_append, List.dropWhile_cons_of_neg (by simp [hopen]),
          ← List.cons_append, ← List.cons_append,
          rdropWhile_append_blank (textOf_blank hblank.2),
          List.rdropWhile_concat_neg _ _ _ hclose]
      rw [if_pos htrim, hline]
    -- Anything else around it leaves more ink than the event has.
    · have hmore : inkOf (textOf (.ofLine e' text) (front ++ .ev e' :: back))
          ≠ inkOf text.toList := by
        rw [htext, inkOf_append, inkOf_append]
        intro hsame
        refine hblank ⟨?_, ?_⟩
        · exact (inkOf_textOf_eq_zero (hink' front)).mp (by omega)
        · exact (inkOf_textOf_eq_zero (hink' back)).mp (by omega)
      have hline : lineEvent (front ++ .ev e' :: back) = none := by
        rw [Option.eq_none_iff_forall_ne_some]
        intro x hx
        have hkeep := filter_of_lineEvent hx
        rw [List.filter_append, List.filter_cons_of_pos rfl] at hkeep
        have hlen := congrArg List.length hkeep
        simp only [List.length_append, List.length_cons, List.length_nil] at hlen
        have hfront : front.filter (fun t => !t.isBlank) = [] :=
          List.eq_nil_of_length_eq_zero (by omega)
        have hback : back.filter (fun t => !t.isBlank) = [] :=
          List.eq_nil_of_length_eq_zero (by omega)
        rw [List.filter_eq_nil_iff] at hfront hback
        exact hblank ⟨by simpa using hfront, by simpa using hback⟩
      rw [if_neg ?_, hline]
      intro htrim
      rw [← inkOf_trim, htrim] at hmore
      exact hmore rfl
  -- A line without an event has too little ink.
  · have hchars : ∀ t ∈ line, t.isChar = true := by
      intro t ht
      cases t with
      | ch c => rfl
      | ev e' => exact absurd ⟨e', ht⟩ hev
    have hfew : inkOf (textOf (.ofLine e text) line) ≤ 8 :=
      (List.countP_le_length.trans_eq (length_textOf_chars hchars)).trans
        (hgap line List.infix_rfl hchars)
    have hline : lineEvent line = none := by
      rw [Option.eq_none_iff_forall_ne_some]
      intro x hx
      have hkeep := filter_of_lineEvent hx
      refine hev ⟨x, List.mem_of_mem_filter (p := fun t => !t.isBlank) ?_⟩
      rw [hkeep]
      exact List.mem_singleton_self _
    rw [if_neg ?_, hline]
    intro htrim
    rw [← inkOf_trim, htrim] at hfew
    omega

def goalEvent : CanonEvent :=
  sampleEvent "g1" .promptLoaded 5
    (.obj [("content", .str "ship it"), ("prompt_id", .str "AGENT_GOAL")])

def goalText : String :=
  sampleText "g1" "prompt_loaded" 5
    "\x7b\"content\":\"ship it\",\"prompt_id\":\"AGENT_GOAL\"\x7d"

def goalSerde : Serde := .ofLine goalEvent goalText

theorem goalText_noFeed : '\n' ∉ goalText.toList := by
  have hbytes : (10 : UInt8) ∉ goalText.toByteArray.data.toList := by decide +kernel
  intro hfeed
  rw [← utf8_toList] at hbytes
  exact hbytes (List.mem_flatMap.mpr ⟨'\n', hfeed, by decide⟩)

theorem goalText_ink : 8 < inkOf goalText.toList := by
  have hfront : inkOf "\x7b\"id\":\"".toList = 7 := by decide
  have hback : inkOf "\x7d\x7d".toList = 2 := by decide
  unfold goalText sampleText
  simp only [String.toList_append, inkOf_append]
  omega

theorem goalSerde_readsLines : ReadsLines goalSerde [goalEvent] := by
  obtain ⟨middle, hbraces⟩ := sampleText_toList "g1" "prompt_loaded" 5
    "\x7b\"content\":\"ship it\",\"prompt_id\":\"AGENT_GOAL\"\x7d"
  exact Serde.ofLine_readsLines goalEvent hbraces goalText_noFeed goalText_ink

theorem goalSerde_short : (goalSerde.toVec goalEvent).length < 0x09000000 := by
  have hsize : goalText.utf8ByteSize < 0x09000000 := by decide +kernel
  rw [goalSerde, Serde.ofLine_toVec_length]
  exact hsize

/-- The theorem at the log of one writer that was given one goal. -/
theorem scanTlogForGoal_iff_one_goal :
    scanTlogForGoal goalSerde
        ((appendMachine goalSerde).run (.fresh goalSerde .default) [goalEvent]).dir
      ≠ lastGoal [goalEvent] := by
  obtain ⟨segs, -, -, hlost⟩ :=
    scanTlogForGoal_iff goalSerde .default rfl [goalEvent] goalSerde_readsLines (by decide +kernel)
  apply hlost
  intro e he
  obtain rfl : e = goalEvent := by
    have he' : e ∈ [goalEvent] := he
    simpa using he'
  exact goalSerde_short

/-- A writer is given one goal and the scan of its directory finds none. -/
theorem goal_lost_after_restart :
    ((appendMachine goalSerde).run (.fresh goalSerde .default) [goalEvent]).accepted
        = [goalEvent] ∧
      lastGoal [goalEvent] = some "ship it".toList ∧
      scanTlogForGoal goalSerde
        ((appendMachine goalSerde).run (.fresh goalSerde .default) [goalEvent]).dir = none := by
  refine ⟨rfl, by decide +kernel, ?_⟩
  obtain ⟨segs, hlaid⟩ := exists_laidOut goalSerde .default rfl [goalEvent]
  exact scanTlogForGoal_of_short hlaid goalSerde_readsLines (by
    intro e he
    obtain rfl : e = goalEvent := by
      have he' : e ∈ [goalEvent] := he
      simpa using he'
    exact goalSerde_short)

end Canon.Tlog
