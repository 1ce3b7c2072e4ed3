import Canon.Patch.Parser

/-! # Writing a patch and reading it back

    Hunks as an author writes them, in the documented syntax, and what the parser
    makes of the text.  Every line of content loses the white space at its end, a
    line of a new file also all plus signs at its start, and an update without
    chunks has to be the last hunk.  Apart from that the hunks come back.
-/

namespace Canon.Patch

/-! ### Sources of hunks -/

/-- A line of content. -/
structure Line where
  text : Text
  noFeed : '\n' ∉ text

/-- A path or a context: not blank, and without white space around it. -/
structure Name where
  text : Text
  noFeed : '\n' ∉ text
  nonempty : text ≠ []
  trimStart_eq : Text.trimStart text = text
  trimEnd_eq : Text.trimEnd text = text

inductive DiffLine where
  | context (line : Line)
  | removed (line : Line)
  | added (line : Line)

structure ChunkSource where
  context : Option Name
  lines : List DiffLine
  endOfFile : Bool

/-- A new file has at least one line. -/
inductive HunkSource where
  | addFile (path : Name) (first : Line) (rest : List Line)
  | deleteFile (path : Name)
  | updateFile (path : Name) (move : Option Name) (chunks : List ChunkSource)

/-! ### The documented syntax -/

def DiffLine.render : DiffLine → Text
  | .context line => ' ' :: line.text
  | .removed line => '-' :: line.text
  | .added line => '+' :: line.text

def ChunkSource.header (c : ChunkSource) : Text :=
  match c.context with
  | none => emptyChangeContextMarker
  | some name => changeContextMarker ++ name.text

def ChunkSource.render (c : ChunkSource) : List Text :=
  c.header :: (c.lines.map DiffLine.render ++ if c.endOfFile then [eofMarker] else [])

def HunkSource.render : HunkSource → List Text
  | .addFile path first rest =>
    (addFileMarker ++ path.text) :: (first :: rest).map ('+' :: ·.text)
  | .deleteFile path => [deleteFileMarker ++ path.text]
  | .updateFile path move chunks =>
    (updateFileMarker ++ path.text) ::
      ((move.toList.map (moveToMarker ++ ·.text)) ++ chunks.flatMap ChunkSource.render)

def renderPatch (hs : List HunkSource) : Text :=
  ['\n'].intercalate (beginPatchMarker :: (hs.flatMap HunkSource.render ++ [endPatchMarker]))

/-! ### What the sources stand for -/

section Meaning

-- How a line of a new file is taken, and any other line of content.
variable (add content : Text → Text)

def DiffLine.old : DiffLine → List Text
  | .context line | .removed line => [content line.text]
  | .added _ => []

def DiffLine.new : DiffLine → List Text
  | .context line | .added line => [content line.text]
  | .removed _ => []

def ChunkSource.toChunk (c : ChunkSource) : UpdateFileChunk where
  changeContext := c.context.map (·.text)
  oldLines := c.lines.flatMap (DiffLine.old content)
  newLines := c.lines.flatMap (DiffLine.new content)
  isEndOfFile := c.endOfFile

def HunkSource.toHunk : HunkSource → Hunk
  | .addFile path first rest =>
    .addFile path.text (fileContents ((first :: rest).map fun l => add l.text))
  | .deleteFile path => .deleteFile path.text
  | .updateFile path move chunks =>
    .updateFile path.text (move.map (·.text)) (chunks.map (ChunkSource.toChunk content))

end Meaning

/-- The hunks that were written. -/
def HunkSource.hunk (h : HunkSource) : Hunk := h.toHunk id id

/-- A line of a new file as the parser reads it. -/
def readAdded (text : Text) : Text := (Text.trimEnd text).dropWhile (· = '+')

/-- The hunks that are read. -/
def HunkSource.readHunk (h : HunkSource) : Hunk := h.toHunk readAdded Text.trimEnd

/-! ### Markers and names -/

section Markers

variable {name : Name}

theorem trimEnd_marked (marker : Text) (name : Name) :
    Text.trimEnd (marker ++ name.text) = marker ++ name.text := by
  rw [Text.trimEnd_append (by rw [name.trimEnd_eq]; exact name.nonempty), name.trimEnd_eq]

theorem trim_marked {c : Char} (marker : Text) (hc : Text.isWhitespace c = false) (name : Name) :
    Text.trim (c :: marker ++ name.text) = c :: marker ++ name.text := by
  have hend := trimEnd_marked (c :: marker) name
  rw [Text.trim, hend, List.cons_append, Text.trimStart_cons hc]

theorem trim_name (name : Name) : Text.trim name.text = name.text := by
  rw [Text.trim, name.trimEnd_eq, name.trimStart_eq]

theorem markedName_append (marker : Text) (name : Name) :
    markedName marker (marker ++ name.text) = some name.text := by
  simp [markedName, trim_name]

/-- A header line of a hunk. -/
inductive IsHeader : Text → Prop where
  | add (name : Name) : IsHeader (addFileMarker ++ name.text)
  | delete (name : Name) : IsHeader (deleteFileMarker ++ name.text)
  | update (name : Name) : IsHeader (updateFileMarker ++ name.text)

theorem IsHeader.trim_eq {line : Text} (h : IsHeader line) : Text.trim line = line := by
  cases h with
  | add name => exact trim_marked _ (by decide) name
  | delete name => exact trim_marked _ (by decide) name
  | update name => exact trim_marked _ (by decide) name

theorem IsHeader.trimEnd_eq {line : Text} (h : IsHeader line) : Text.trimEnd line = line := by
  cases h with
  | add name => exact trimEnd_marked _ name
  | delete name => exact trimEnd_marked _ name
  | update name => exact trimEnd_marked _ name

/-- A marker that differs from all headers is not a prefix of one. -/
theorem IsHeader.isPrefixOf_eq_false {line : Text} (h : IsHeader line) (marker : Text) (n : Nat)
    (hn : n ≤ marker.length) (hn' : n ≤ 5) (hadd : marker.take n ≠ addFileMarker.take n)
    (hdelete : marker.take n ≠ deleteFileMarker.take n)
    (hupdate : marker.take n ≠ updateFileMarker.take n) : marker.isPrefixOf line = false := by
  have hlen : 5 ≤ addFileMarker.length ∧ 5 ≤ deleteFileMarker.length ∧
      5 ≤ updateFileMarker.length := by decide
  cases h with
  | add name => exact Text.isPrefixOf_append_eq_false _ n hn (by omega) hadd
  | delete name => exact Text.isPrefixOf_append_eq_false _ n hn (by omega) hdelete
  | update name => exact Text.isPrefixOf_append_eq_false _ n hn (by omega) hupdate

theorem IsHeader.endsChunk {line : Text} (h : IsHeader line) : endsChunk line = true := by
  cases h <;> simp [Canon.Patch.endsChunk, List.isPrefixOf_iff_prefix]

theorem IsHeader.atNextHunk {line : Text} (h : IsHeader line) (rest : List Text) :
    atNextHunk (line :: rest) = true := by
  simp only [Canon.Patch.atNextHunk, h.trim_eq]
  cases h <;> simp [List.isPrefixOf_iff_prefix]

theorem IsHeader.ne_eof {line : Text} (h : IsHeader line) : line ≠ eofMarker := by
  rintro rfl
  have hself : eofMarker.isPrefixOf eofMarker = true := by decide
  have hnot := h.isPrefixOf_eq_false eofMarker 5 (by decide) (by decide)
    (by decide) (by decide) (by decide)
  rw [hself] at hnot
  cases hnot

theorem IsHeader.head? {line : Text} (h : IsHeader line) : line.head? = some '*' := by
  cases h <;> rfl

end Markers

/-! ### Reading chunks -/

section Chunks

variable {rest : List Text} (c : ChunkSource)

theorem trimEnd_context (s : Text) :
    Text.trimEnd (' ' :: s) = if Text.trimEnd s = [] then [] else ' ' :: Text.trimEnd s := by
  rw [← List.singleton_append]
  split
  · rename_i h
    rw [Text.trimEnd_append_of_nil h]
    decide
  · rename_i h
    rw [Text.trimEnd_append h, List.singleton_append]

theorem diffLine_render (d : DiffLine) :
    diffLine (Text.trimEnd d.render) = some (d.old Text.trimEnd, d.new Text.trimEnd) := by
  cases d with
  | context line =>
    rw [DiffLine.render, trimEnd_context]
    split
    · rename_i h
      -- A blank context line loses its mark and is read as a bare blank line.
      simp [diffLine, DiffLine.old, DiffLine.new, h]
    · rfl
  | removed line =>
    rw [DiffLine.render, Text.trimEnd_cons (by decide)]
    rfl
  | added line =>
    rw [DiffLine.render, Text.trimEnd_cons (by decide)]
    rfl

/-- What is read as a line of a chunk is no marker. -/
theorem not_marker_of_diffLine {trimmed : Text} {sides : List Text × List Text}
    (h : diffLine trimmed = some sides) : trimmed ≠ eofMarker ∧ endsChunk trimmed = false := by
  unfold diffLine at h
  split at h
  · exact ⟨fun hc => (by cases hc), rfl⟩
  · exact ⟨fun hc => (by cases hc), rfl⟩
  · exact ⟨fun hc => (by cases hc), rfl⟩
  · exact ⟨by decide, by decide⟩
  · cases h

theorem chunkLines_diff (ds : List DiffLine) (rest : List Text) (n : Nat) :
    chunkLines (ds.map DiffLine.render ++ rest) n =
      (chunkLines rest (n + ds.length)).map fun body =>
        { body with
          oldLines := ds.flatMap (DiffLine.old Text.trimEnd) ++ body.oldLines
          newLines := ds.flatMap (DiffLine.new Text.trimEnd) ++ body.newLines
          consumed := body.consumed + ds.length } := by
  induction ds generalizing n with
  | nil =>
    show chunkLines rest n = (chunkLines rest n).map _
    cases chunkLines rest n <;> rfl
  | cons d ds ih =>
    obtain ⟨hne, hends⟩ := not_marker_of_diffLine (diffLine_render d)
    rw [List.map_cons, List.cons_append, chunkLines]
    simp only [hne, if_false, hends, diffLine_render d, ih, List.length_cons, Bool.false_eq_true]
    rw [Nat.add_right_comm n, ← Nat.add_assoc]
    cases chunkLines rest (n + ds.length + 1) with
    | error e => rfl
    | ok body => simp [Except.map, Nat.add_assoc]

theorem ChunkSource.header_trimEnd : Text.trimEnd c.header = c.header := by
  unfold ChunkSource.header
  split
  · decide
  · exact trimEnd_marked _ _

theorem ChunkSource.header_trim : Text.trim c.header = c.header := by
  unfold ChunkSource.header
  split
  · decide
  · exact trim_marked _ (by decide) _

theorem ChunkSource.header_eq : ∃ s, c.header = emptyChangeContextMarker ++ s := by
  unfold ChunkSource.header
  split
  · exact ⟨[], rfl⟩
  · exact ⟨' ' :: _, rfl⟩

theorem ChunkSource.header_endsChunk : endsChunk c.header = true := by
  obtain ⟨s, hs⟩ := c.header_eq
  simp [endsChunk, hs, List.isPrefixOf_iff_prefix]

/-- The header is taken for one, and its context is read back. -/
theorem ChunkSource.header_context :
    (changeContextMarker.isPrefixOf c.header || c.header = emptyChangeContextMarker) = true ∧
      (let ctx := Text.trim ((Text.stripPrefix? changeContextMarker c.header).getD [])
       (if ctx = [] then none else some ctx) = c.context.map (·.text)) := by
  unfold ChunkSource.header
  -- Nothing behind the mark, or a name that survives trimming.
  cases c.context with
  | none => exact ⟨by decide, by decide⟩
  | some name =>
    refine ⟨by simp [List.isPrefixOf_iff_prefix], ?_⟩
    simp [trim_name, name.nonempty]

/-- The first line that is left, if any, starts a chunk or a hunk. -/
def Stops (rest : List Text) : Prop :=
  ∀ line ∈ rest.head?, IsHeader line ∨ ∃ c : ChunkSource, line = c.header

/-- The first line that is left, if any, starts a hunk. -/
def NextHunk (rest : List Text) : Prop := ∀ line ∈ rest.head?, IsHeader line

theorem NextHunk.stops (h : NextHunk rest) : Stops rest :=
  fun line hline => .inl (h line hline)

theorem chunkLines_of_stops (h : Stops rest) (n : Nat) :
    chunkLines rest n = .ok .empty := by
  cases rest with
  | nil => rfl
  | cons line rest =>
    have hline : Text.trimEnd line = line ∧ line ≠ eofMarker ∧ endsChunk line = true := by
      -- Neither kind of header is the end-of-file mark.
      obtain hheader | ⟨c, rfl⟩ := h line rfl
      · exact ⟨hheader.trimEnd_eq, hheader.ne_eof, hheader.endsChunk⟩
      · refine ⟨c.header_trimEnd, ?_, c.header_endsChunk⟩
        intro heof
        have hends := c.header_endsChunk
        rw [heof] at hends
        revert hends
        decide
    simp [chunkLines, hline.1, hline.2.1, hline.2.2]

theorem parseUpdateChunk_render (h : Stops rest) (n : Nat) :
    parseUpdateChunk (c.render ++ rest) n = .ok (c.toChunk Text.trimEnd, c.render.length) := by
  have hbody : chunkLines ((c.lines.map DiffLine.render ++ if c.endOfFile then [eofMarker] else [])
      ++ rest) n = .ok
      { oldLines := c.lines.flatMap (DiffLine.old Text.trimEnd)
        newLines := c.lines.flatMap (DiffLine.new Text.trimEnd)
        isEndOfFile := c.endOfFile
        consumed := (c.render.length) - 1 } := by
    rw [List.append_assoc, chunkLines_diff]
    -- The loop ends at what follows the chunk, or behind its own mark.
    cases hend : c.endOfFile with
    | false =>
      simp [chunkLines_of_stops h, Except.map, ChunkBody.empty, ChunkSource.render, hend]
    | true =>
      have htrim : Text.trimEnd eofMarker = eofMarker := by decide
      simp [chunkLines, htrim, Except.map, ChunkBody.empty, ChunkSource.render, hend,
        Nat.add_comm]
  have hlen : 1 + (c.render.length - 1) = c.render.length := by
    simp [ChunkSource.render]
    omega
  obtain ⟨hheader, hctx⟩ := c.header_context
  rw [ChunkSource.render, List.cons_append, parseUpdateChunk]
  dsimp only at hctx ⊢
  rw [c.header_trim, if_pos hheader, hbody, hctx]
  show Except.ok (_, 1 + (c.render.length - 1)) = Except.ok (_, c.render.length)
  rw [hlen]
  rfl

/-- A chunk's header does not start a hunk. -/
theorem ChunkSource.header_atNextHunk (rest : List Text) :
    atNextHunk (c.header :: rest) = false := by
  obtain ⟨s, hs⟩ := c.header_eq
  have hne : ∀ marker : Text, 1 ≤ marker.length → marker.take 1 ≠ emptyChangeContextMarker.take 1 →
      marker.isPrefixOf c.header = false := by
    intro marker hlen htake
    rw [hs]
    exact Text.isPrefixOf_append_eq_false s 1 hlen (by decide) htake
  simp only [atNextHunk, c.header_trim]
  rw [hne addFileMarker (by decide) (by decide), hne deleteFileMarker (by decide) (by decide),
    hne updateFileMarker (by decide) (by decide)]
  rfl

theorem stops_flatMap_append (cs : List ChunkSource) (h : NextHunk rest) :
    Stops (cs.flatMap ChunkSource.render ++ rest) := by
  cases cs with
  | nil => exact h.stops
  | cons c cs =>
    intro line hline
    obtain rfl : c.header = line := Option.some.inj hline
    exact .inr ⟨c, rfl⟩

theorem NextHunk.atNextHunk {rest : List Text} (h : NextHunk rest) : atNextHunk rest = true := by
  cases rest with
  | nil => rfl
  | cons line rest => exact (h line rfl).atNextHunk rest

/-- One round of the loop over chunks. -/
theorem parseChunks_step (h : Stops rest) (fuel n : Nat) :
    parseChunks (fuel + 1) (c.render ++ rest) n =
      if atNextHunk rest then .ok ([c.toChunk Text.trimEnd], c.render.length)
      else (parseChunks fuel rest (n + c.render.length)).map fun more =>
        (c.toChunk Text.trimEnd :: more.1, c.render.length + more.2) := by
  have hchunk := parseUpdateChunk_render c h n
  have hdrop : (c.render ++ rest).drop c.render.length = rest := List.drop_left
  have hcons : c.render ++ rest = c.header ::
      ((c.lines.map DiffLine.render ++ if c.endOfFile then [eofMarker] else []) ++ rest) := rfl
  rw [hcons] at hchunk hdrop ⊢
  simp only [parseChunks, hchunk, hdrop]

/-- The chunks of a hunk are read up to the next hunk. -/
theorem parseChunks_render (cs : List ChunkSource) (h : NextHunk rest) {fuel : Nat}
    (hfuel : cs.length < fuel) (n : Nat) :
    parseChunks fuel ((c :: cs).flatMap ChunkSource.render ++ rest) n =
      .ok ((c :: cs).map (ChunkSource.toChunk Text.trimEnd),
        ((c :: cs).flatMap ChunkSource.render).length) := by
  induction cs generalizing c fuel n with
  | nil =>
    obtain ⟨fuel, rfl⟩ : ∃ k, fuel = k + 1 := ⟨fuel - 1, by omega⟩
    rw [List.flatMap_singleton, parseChunks_step c h.stops, if_pos h.atNextHunk]
    rfl
  | cons c' cs ih =>
    rw [List.length_cons] at hfuel
    obtain ⟨fuel, rfl⟩ : ∃ k, fuel = k + 1 := ⟨fuel - 1, by omega⟩
    have hnext : atNextHunk ((c' :: cs).flatMap ChunkSource.render ++ rest) = false :=
      c'.header_atNextHunk _
    have hlater := ih c' (by omega : cs.length < fuel) (n + c.render.length)
    rw [List.flatMap_cons, List.append_assoc, parseChunks_step c (stops_flatMap_append _ h), hnext,
      hlater]
    simp [Except.map]

end Chunks

/-! ### Reading hunks -/

section Hunks

variable {rest : List Text}

theorem addLines_of_nextHunk (h : NextHunk rest) : addLines rest = [] := by
  cases rest with
  | nil => rfl
  | cons line rest =>
    have hheader := h line rfl
    simp [addLines, hheader.trimEnd_eq, hheader.head?]

theorem addLines_render (ls : List Line) (h : NextHunk rest) :
    addLines (ls.map ('+' :: ·.text) ++ rest) = ls.map fun l => readAdded l.text := by
  induction ls with
  | nil => exact addLines_of_nextHunk h
  | cons l ls ih =>
    have htrim : Text.trimEnd ('+' :: l.text) = '+' :: Text.trimEnd l.text :=
      Text.trimEnd_cons (by decide)
    -- A line with its plus sign is none of the markers.
    have hmarker : ¬ ('+' :: Text.trimEnd l.text = addFileMarker ∨
        '+' :: Text.trimEnd l.text = deleteFileMarker ∨
        '+' :: Text.trimEnd l.text = updateFileMarker ∨
        '+' :: Text.trimEnd l.text = eofMarker) := by
      rintro (h | h | h | h) <;> cases h
    rw [List.map_cons, List.cons_append, addLines]
    simp only [htrim, hmarker, if_false, List.head?_cons, if_true, ih, List.map_cons]
    rfl

/-- The header of another hunk is no move target. -/
theorem moveTarget_of_nextHunk (h : NextHunk rest) : moveTarget rest = none := by
  cases rest with
  | nil => rfl
  | cons line rest =>
    have hheader := h line rfl
    have hno := hheader.isPrefixOf_eq_false moveToMarker 5 (by decide) (by decide) (by decide)
      (by decide) (by decide)
    simp [moveTarget, markedName, hheader.trim_eq, Text.stripPrefix?_eq_none hno]

theorem moveTarget_header (c : ChunkSource) (rest : List Text) :
    moveTarget (c.header :: rest) = none := by
  obtain ⟨s, hs⟩ := c.header_eq
  have hno : moveToMarker.isPrefixOf c.header = false := by
    rw [hs]
    exact Text.isPrefixOf_append_eq_false s 1 (by decide) (by decide) (by decide)
  simp [moveTarget, markedName, c.header_trim, Text.stripPrefix?_eq_none hno]

theorem moveTarget_marked (name : Name) (rest : List Text) :
    moveTarget ((moveToMarker ++ name.text) :: rest) = some name.text := by
  have htrim : Text.trim (moveToMarker ++ name.text) = moveToMarker ++ name.text :=
    trim_marked _ (by decide) name
  simp [moveTarget, htrim, markedName_append]

/-- An update that has no chunks. -/
def HunkSource.isBare : HunkSource → Bool
  | .updateFile _ _ [] => true
  | _ => false

theorem markedName_eq_none {marker header : Text} (h : marker.isPrefixOf header = false) :
    markedName marker header = none := by
  simp [markedName, Text.stripPrefix?_eq_none h]

theorem parseOneHunk_add (path : Name) (rest : List Text) (n : Nat) :
    parseOneHunk ((addFileMarker ++ path.text) :: rest) n = parseAddFile path.text rest n := by
  simp only [parseOneHunk, (IsHeader.add path).trim_eq, markedName_append]

theorem parseOneHunk_delete (path : Name) (rest : List Text) (n : Nat) :
    parseOneHunk ((deleteFileMarker ++ path.text) :: rest) n = parseDeleteFile path.text n := by
  have hadd : markedName addFileMarker (deleteFileMarker ++ path.text) = none :=
    markedName_eq_none (Text.isPrefixOf_append_eq_false _ 5 (by decide) (by decide) (by decide))
  simp only [parseOneHunk, (IsHeader.delete path).trim_eq, hadd, markedName_append]

theorem parseOneHunk_update (path : Name) (rest : List Text) (n : Nat) :
    parseOneHunk ((updateFileMarker ++ path.text) :: rest) n =
      parseUpdateFile path.text rest n := by
  have hadd : markedName addFileMarker (updateFileMarker ++ path.text) = none :=
    markedName_eq_none (Text.isPrefixOf_append_eq_false _ 5 (by decide) (by decide) (by decide))
  have hdelete : markedName deleteFileMarker (updateFileMarker ++ path.text) = none :=
    markedName_eq_none (Text.isPrefixOf_append_eq_false _ 5 (by decide) (by decide) (by decide))
  simp only [parseOneHunk, (IsHeader.update path).trim_eq, hadd, hdelete, markedName_append]

/-- The chunks of an update are no move target. -/
theorem moveTarget_flatMap (cs : List ChunkSource) (h : NextHunk rest) :
    moveTarget (cs.flatMap ChunkSource.render ++ rest) = none := by
  cases cs with
  | nil => exact moveTarget_of_nextHunk h
  | cons c cs => exact moveTarget_header c _

/-- The move target is read, and the chunks are left. -/
theorem parseUpdateFile_move (path : Name) (move : Option Name) {tail : List Text}
    (h : moveTarget tail = none) (n : Nat) :
    parseUpdateFile path.text (move.toList.map (moveToMarker ++ ·.text) ++ tail) n =
      (parseChunks tail.length tail (n + move.toList.length)).map fun parsed =>
        (.updateFile path.text (move.map (·.text)) parsed.1,
          1 + move.toList.length + parsed.2) := by
  cases move with
  | none => simp [parseUpdateFile, path.nonempty, h]
  | some name =>
    have htarget := moveTarget_marked name tail
    simp only [Option.toList_some, List.map_cons, List.map_nil, List.singleton_append]
    simp [parseUpdateFile, path.nonempty, htarget]

theorem ChunkSource.render_ne_nil (c : ChunkSource) : c.render ≠ [] := List.cons_ne_nil _ _

/-- Everything that is rendered has a line. -/
theorem length_le_flatMap {α : Type} {render : α → List Text} (h : ∀ x, render x ≠ [])
    (xs : List α) : xs.length ≤ (xs.flatMap render).length := by
  induction xs with
  | nil => exact Nat.le_refl _
  | cons x xs ih =>
    have hpos : 0 < (render x).length := List.length_pos_of_ne_nil (h x)
    simp only [List.flatMap_cons, List.length_append, List.length_cons]
    omega

/-- A hunk is read up to the next one, unless it is an update without chunks and
    there is a next one. -/
theorem parseOneHunk_render (h : HunkSource) (hrest : NextHunk rest)
    (hbare : h.isBare = true → rest = []) (n : Nat) :
    parseOneHunk (h.render ++ rest) n = .ok (h.readHunk, h.render.length) := by
  cases h with
  | addFile path first more =>
    rw [HunkSource.render, List.cons_append, parseOneHunk_add, parseAddFile, if_neg path.nonempty]
    simp only [addLines_render (first :: more) hrest]
    simp [HunkSource.readHunk, HunkSource.toHunk, Nat.add_comm]
  | deleteFile path =>
    rw [HunkSource.render, List.cons_append, parseOneHunk_delete, parseDeleteFile,
      if_neg path.nonempty]
    rfl
  | updateFile path move chunks =>
    rw [HunkSource.render, List.cons_append, parseOneHunk_update, List.append_assoc,
      parseUpdateFile_move path move (moveTarget_flatMap chunks hrest)]
    cases chunks with
    | nil =>
      -- Nothing is left to read as a chunk.
      obtain rfl := hbare rfl
      simp [parseChunks, Except.map, HunkSource.readHunk, HunkSource.toHunk, Nat.add_comm]
    | cons c cs =>
      -- Every chunk has its header, so the lines are enough rounds.
      have hfuel : cs.length < ((c :: cs).flatMap ChunkSource.render ++ rest).length := by
        have hle := length_le_flatMap ChunkSource.render_ne_nil (c :: cs)
        rw [List.length_cons] at hle
        rw [List.length_append]
        omega
      rw [parseChunks_render c cs hrest hfuel]
      simp [Except.map, HunkSource.readHunk, HunkSource.toHunk]
      omega

theorem parseOneHunk_bare {h : HunkSource} (hbare : h.isBare = true) {line : Text}
    (hline : IsHeader line) (rest : List Text) (n : Nat) :
    ∃ e, parseOneHunk (h.render ++ line :: rest) n = .error e := by
  obtain ⟨path, move, rfl⟩ : ∃ path move, h = .updateFile path move [] := by
    unfold HunkSource.isBare at hbare
    split at hbare
    · exact ⟨_, _, rfl⟩
    · cases hbare
  have hnext : NextHunk (line :: rest) := by
    intro l hl
    obtain rfl : line = l := Option.some.inj hl
    exact hline
  -- The header of the next hunk is taken for the header of a chunk.
  have hchunk : ∀ k, parseUpdateChunk (line :: rest) k =
      .error (.invalidHunkError "missing @@ context header".toList k) := by
    intro k
    have hno := hline.isPrefixOf_eq_false changeContextMarker 1 (by decide) (by decide) (by decide)
      (by decide) (by decide)
    have hne : line ≠ emptyChangeContextMarker := by
      rintro rfl
      cases hline.head?
    simp [parseUpdateChunk, hline.trim_eq, hno, hne]
  refine ⟨.invalidHunkError "missing @@ context header".toList (n + move.toList.length), ?_⟩
  rw [HunkSource.render, List.cons_append, parseOneHunk_update, List.append_assoc,
    List.flatMap_nil, List.nil_append,
    parseUpdateFile_move path move (moveTarget_of_nextHunk hnext), List.length_cons, parseChunks,
    hchunk]
  · rfl
  · simp

theorem nextHunk_flatMap (hs : List HunkSource) : NextHunk (hs.flatMap HunkSource.render) := by
  cases hs with
  | nil => intro line hline; cases hline
  | cons h hs =>
    intro line hline
    cases h with
    | addFile path first more =>
      obtain rfl : addFileMarker ++ path.text = line := Option.some.inj hline
      exact .add path
    | deleteFile path =>
      obtain rfl : deleteFileMarker ++ path.text = line := Option.some.inj hline
      exact .delete path
    | updateFile path move chunks =>
      obtain rfl : updateFileMarker ++ path.text = line := Option.some.inj hline
      exact .update path

theorem HunkSource.render_ne_nil (h : HunkSource) : h.render ≠ [] := by
  cases h <;> simp [HunkSource.render]

/-- Updates without chunks come last. -/
def BareLast (hs : List HunkSource) : Prop := ∀ h ∈ hs.dropLast, h.isBare = false

theorem bareLast_cons_cons {h h' : HunkSource} {hs : List HunkSource} :
    BareLast (h :: h' :: hs) ↔ h.isBare = false ∧ BareLast (h' :: hs) := by
  simp [BareLast]

theorem parseHunks_of_ne_nil {lines : List Text} (h : lines ≠ []) (fuel n : Nat) :
    parseHunks (fuel + 1) lines n =
      match parseOneHunk lines n with
      | .error e => .error e
      | .ok (hunk, hunkLines) =>
        (parseHunks fuel (lines.drop hunkLines) (n + hunkLines)).map (hunk :: ·) := by
  cases lines with
  | nil => exact absurd rfl h
  | cons line lines => rfl

/-- One round of the loop over hunks. -/
theorem parseHunks_step (h : HunkSource) (hrest : NextHunk rest)
    (hbare : h.isBare = true → rest = []) (fuel n : Nat) :
    parseHunks (fuel + 1) (h.render ++ rest) n =
      (parseHunks fuel rest (n + h.render.length)).map (h.readHunk :: ·) := by
  have hne : h.render ++ rest ≠ [] := by simp [h.render_ne_nil]
  rw [parseHunks_of_ne_nil hne, parseOneHunk_render h hrest hbare]
  simp only [List.drop_left]

theorem parseHunks_render {hs : List HunkSource} (hlast : BareLast hs) {fuel : Nat}
    (hfuel : hs.length ≤ fuel) (n : Nat) :
    parseHunks fuel (hs.flatMap HunkSource.render) n = .ok (hs.map HunkSource.readHunk) := by
  induction hs generalizing fuel n with
  | nil => simp [parseHunks]
  | cons h hs ih =>
    rw [List.length_cons] at hfuel
    obtain ⟨fuel, rfl⟩ : ∃ k, fuel = k + 1 := ⟨fuel - 1, by omega⟩
    have htail : BareLast hs ∧ (h.isBare = true → hs.flatMap HunkSource.render = []) := by
      cases hs with
      | nil => exact ⟨by simp [BareLast], fun _ => rfl⟩
      | cons h' hs =>
        obtain ⟨hh, hhs⟩ := bareLast_cons_cons.mp hlast
        exact ⟨hhs, fun hbare => absurd hbare (by simp [hh])⟩
    rw [List.flatMap_cons, parseHunks_step h (nextHunk_flatMap hs) htail.2,
      ih htail.1 (by omega : hs.length ≤ fuel)]
    rfl

/-- An update without chunks in front of another hunk is an error, whatever is in
    front of it. -/
theorem parseHunks_bare {hs : List HunkSource} (hlast : ¬ BareLast hs) {fuel : Nat}
    (hfuel : hs.length ≤ fuel) (n : Nat) :
    ∃ e, parseHunks fuel (hs.flatMap HunkSource.render) n = .error e := by
  induction hs generalizing fuel n with
  | nil => exact absurd (by simp [BareLast]) hlast
  | cons h hs ih =>
    rw [List.length_cons] at hfuel
    obtain ⟨fuel, rfl⟩ : ∃ k, fuel = k + 1 := ⟨fuel - 1, by omega⟩
    cases hs with
    | nil => exact absurd (by simp [BareLast]) hlast
    | cons h' hs =>
      rw [bareLast_cons_cons, not_and_or] at hlast
      have hnext := nextHunk_flatMap (h' :: hs)
      by_cases hbare : h.isBare = true
      -- The header of the next hunk is read as a chunk.
      · obtain ⟨line, lines, hlines⟩ :=
          List.exists_cons_of_ne_nil (l := (h' :: hs).flatMap HunkSource.render)
            (by simp [h'.render_ne_nil])
        rw [hlines] at hnext
        obtain ⟨e, he⟩ := parseOneHunk_bare hbare (hnext line rfl) lines n
        refine ⟨e, ?_⟩
        rw [List.flatMap_cons, hlines, parseHunks_of_ne_nil (by simp), he]
      -- The error comes later.
      · have hlater : ¬ BareLast (h' :: hs) :=
          hlast.resolve_left (fun hc => hc (by simpa using hbare))
        obtain ⟨e, he⟩ := ih hlater (by omega : (h' :: hs).length ≤ fuel) (n + h.render.length)
        refine ⟨e, ?_⟩
        rw [List.flatMap_cons, parseHunks_step h hnext (fun hc => absurd hc hbare), he]
        rfl

end Hunks

/-! ### Carriage returns

    `lines` drops a carriage return in front of a line feed.  The parser trims the
    end of every line anyway. -/

section CarriageReturns

variable (ls : List Text)

theorem chunkLines_stripCr (n : Nat) :
    chunkLines (ls.map Text.stripCr) n = chunkLines ls n := by
  induction ls generalizing n with
  | nil => rfl
  | cons l ls ih => simp only [List.map_cons, chunkLines, Text.trimEnd_stripCr, ih]

theorem parseUpdateChunk_stripCr (n : Nat) :
    parseUpdateChunk (ls.map Text.stripCr) n = parseUpdateChunk ls n := by
  cases ls with
  | nil => rfl
  | cons l ls =>
    simp only [List.map_cons, parseUpdateChunk, Text.trim_stripCr, chunkLines_stripCr]

theorem atNextHunk_stripCr : atNextHunk (ls.map Text.stripCr) = atNextHunk ls := by
  cases ls with
  | nil => rfl
  | cons l ls => simp only [List.map_cons, atNextHunk, Text.trim_stripCr]

theorem parseChunks_stripCr (fuel : Nat) (ls : List Text) (n : Nat) :
    parseChunks fuel (ls.map Text.stripCr) n = parseChunks fuel ls n := by
  induction fuel generalizing ls n with
  | zero => cases ls <;> rfl
  | succ fuel ih =>
    cases ls with
    | nil => rfl
    | cons l ls =>
      have hchunk := parseUpdateChunk_stripCr (l :: ls) n
      rw [List.map_cons] at hchunk
      simp only [List.map_cons, parseChunks, hchunk]
      simp only [← List.map_cons, ← List.map_drop, atNextHunk_stripCr, ih]

theorem addLines_stripCr : addLines (ls.map Text.stripCr) = addLines ls := by
  induction ls with
  | nil => rfl
  | cons l ls ih => simp only [List.map_cons, addLines, Text.trimEnd_stripCr, ih]

theorem moveTarget_stripCr : moveTarget (ls.map Text.stripCr) = moveTarget ls := by
  cases ls with
  | nil => rfl
  | cons l ls => simp [moveTarget, Text.trim_stripCr]

theorem parseOneHunk_stripCr (n : Nat) :
    parseOneHunk (ls.map Text.stripCr) n = parseOneHunk ls n := by
  cases ls with
  | nil => rfl
  | cons l ls =>
    simp only [List.map_cons, parseOneHunk, Text.trim_stripCr, parseAddFile, addLines_stripCr,
      parseUpdateFile, moveTarget_stripCr, ← List.map_drop, parseChunks_stripCr, List.length_map]

theorem parseHunks_stripCr (fuel : Nat) (ls : List Text) (n : Nat) :
    parseHunks fuel (ls.map Text.stripCr) n = parseHunks fuel ls n := by
  induction fuel generalizing ls n with
  | zero => cases ls <;> rfl
  | succ fuel ih =>
    by_cases hls : ls = []
    · rw [hls]
      rfl
    · rw [parseHunks_of_ne_nil (by simpa using hls), parseHunks_of_ne_nil hls,
        parseOneHunk_stripCr]
      simp only [← List.map_drop, ih]

end CarriageReturns

/-! ### The whole patch -/

section Patches

theorem Name.noFeed_append (marker : Text) (h : '\n' ∉ marker) (name : Name) :
    '\n' ∉ marker ++ name.text := by
  simp [h, name.noFeed]

theorem DiffLine.noFeed_render (d : DiffLine) : '\n' ∉ d.render := by
  cases d <;> simp [DiffLine.render, Line.noFeed]

theorem ChunkSource.noFeed_render (c : ChunkSource) : ∀ l ∈ c.render, '\n' ∉ l := by
  intro l hl
  rw [ChunkSource.render, List.mem_cons, List.mem_append, List.mem_map] at hl
  obtain rfl | ⟨d, -, rfl⟩ | hl := hl
  · unfold ChunkSource.header
    split
    · decide
    · exact Name.noFeed_append _ (by decide) _
  · exact d.noFeed_render
  · split at hl
    · obtain rfl := List.mem_singleton.mp hl
      decide
    · cases hl

theorem HunkSource.noFeed_render (h : HunkSource) : ∀ l ∈ h.render, '\n' ∉ l := by
  intro l hl
  cases h with
  | addFile path first rest =>
    rw [HunkSource.render, List.mem_cons, List.mem_map] at hl
    obtain rfl | ⟨m, -, rfl⟩ := hl
    · exact Name.noFeed_append _ (by decide) path
    · simp [m.noFeed]
  | deleteFile path =>
    obtain rfl := List.mem_singleton.mp hl
    exact Name.noFeed_append _ (by decide) path
  | updateFile path move chunks =>
    rw [HunkSource.render, List.mem_cons, List.mem_append, List.mem_map, List.mem_flatMap] at hl
    obtain rfl | ⟨name, -, rfl⟩ | ⟨c, -, hc⟩ := hl
    · exact Name.noFeed_append _ (by decide) path
    · exact Name.noFeed_append _ (by decide) name
    · exact c.noFeed_render l hc

theorem intercalate_concat_eq (sep : Text) (ls : List Text) (l : Text) :
    ∃ before, sep.intercalate (ls ++ [l]) = before ++ l := by
  induction ls with
  | nil => exact ⟨[], by simp⟩
  | cons l' ls ih =>
    obtain ⟨before, hbefore⟩ := ih
    obtain ⟨m, ms, hms⟩ := List.exists_cons_of_ne_nil (l := ls ++ [l]) (by simp)
    refine ⟨l' ++ sep ++ before, ?_⟩
    rw [List.cons_append, hms, List.intercalate_cons_cons, ← hms, hbefore]
    simp

/-- The markers have no white space around them. -/
theorem trim_renderPatch (hs : List HunkSource) : Text.trim (renderPatch hs) = renderPatch hs := by
  obtain ⟨before, hbefore⟩ := intercalate_concat_eq ['\n']
    (beginPatchMarker :: hs.flatMap HunkSource.render) endPatchMarker
  -- What is trimmed is the marker at either end, which has no white space.
  have hend : Text.trimEnd (renderPatch hs) = renderPatch hs := by
    rw [renderPatch, ← List.cons_append, hbefore, Text.trimEnd_append (by decide)]
    congr 1
  have hstart : ∃ t, renderPatch hs = '*' :: t := by
    obtain ⟨m, ms, hms⟩ := List.exists_cons_of_ne_nil
      (l := hs.flatMap HunkSource.render ++ [endPatchMarker]) (by simp)
    rw [renderPatch, hms, List.intercalate_cons_cons]
    exact ⟨_, rfl⟩
  obtain ⟨t, ht⟩ := hstart
  rw [Text.trim, hend, ht, Text.trimStart_cons (by decide)]

theorem lines_renderPatch (hs : List HunkSource) :
    Text.lines (renderPatch hs) =
      (beginPatchMarker :: (hs.flatMap HunkSource.render).map Text.stripCr) ++
        [endPatchMarker] := by
  rw [renderPatch, ← List.cons_append, Text.lines_intercalate (by decide) _ (by decide)]
  · rfl
  · intro m hm
    obtain rfl | hm := List.mem_cons.mp hm
    · decide
    · obtain ⟨h, -, hh⟩ := List.mem_flatMap.mp hm
      exact h.noFeed_render m hh

/-- Reading a rendered patch is reading its hunks. -/
theorem parsePatch_renderPatch (hs : List HunkSource) :
    (parsePatch (renderPatch hs)).map (·.hunks) =
      parseHunks (hs.flatMap HunkSource.render).length (hs.flatMap HunkSource.render) 2 := by
  have hbounds : checkPatchBoundariesStrict ((beginPatchMarker ::
      (hs.flatMap HunkSource.render).map Text.stripCr) ++ [endPatchMarker]) = .ok () := by
    rw [checkPatchBoundariesStrict, List.getLast?_concat]
    show checkStartAndEndLinesStrict (some beginPatchMarker) (some endPatchMarker) = .ok ()
    decide
  rw [parsePatch, parsePatchText, trim_renderPatch, lines_renderPatch]
  simp only [boundedLines, hbounds]
  rw [List.length_append, List.length_singleton, Nat.add_sub_cancel, List.take_left,
    List.drop_one, List.tail_cons, List.length_map, parseHunks_stripCr]
  cases parseHunks _ (hs.flatMap HunkSource.render) 2 <;> rfl

end Patches

/-! ### What comes back -/

section Contents

/-- No white space at the end. -/
def Line.PlainEnd (l : Line) : Prop := ∀ c ∈ l.text.getLast?, Text.isWhitespace c = false

/-- No plus sign at the start. -/
def Line.PlainStart (l : Line) : Prop := l.text.head? ≠ some '+'

def DiffLine.line : DiffLine → Line
  | .context line | .removed line | .added line => line

/-- Content that survives the parser's trimming. -/
def HunkSource.Plain : HunkSource → Prop
  | .addFile _ first rest => ∀ l ∈ first :: rest, l.PlainStart ∧ l.PlainEnd
  | .deleteFile _ => True
  | .updateFile _ _ chunks => ∀ c ∈ chunks, ∀ d ∈ c.lines, d.line.PlainEnd

theorem Line.trimEnd_eq_iff (l : Line) : Text.trimEnd l.text = l.text ↔ l.PlainEnd := by
  rw [Text.trimEnd_eq_self_iff, Line.PlainEnd]
  constructor
  · intro h c hc
    obtain ⟨hne, rfl⟩ := List.mem_getLast?_eq_getLast hc
    exact h hne
  · intro h hne
    exact h _ (List.getLast?_eq_some_getLast hne)

theorem dropWhile_plus_eq_iff (s : Text) : s.dropWhile (· = '+') = s ↔ s.head? ≠ some '+' := by
  rw [List.dropWhile_eq_self_iff]
  cases s <;> simp

/-- Trimming a line of a new file leaves it as it is when both ends are plain.
    Trimming never makes a text longer, so neither end may lose anything. -/
theorem Line.readAdded_eq_iff (l : Line) :
    readAdded l.text = l.text ↔ l.PlainStart ∧ l.PlainEnd := by
  have hpre : Text.trimEnd l.text <+: l.text := List.rdropWhile_prefix _ _
  constructor
  · intro h
    have hle : l.text.length ≤ (Text.trimEnd l.text).length := by
      conv_lhs => rw [← h]
      exact (List.dropWhile_suffix _).length_le
    have hend : Text.trimEnd l.text = l.text := hpre.eq_of_length_le hle
    rw [readAdded, hend, dropWhile_plus_eq_iff] at h
    exact ⟨h, l.trimEnd_eq_iff.mp hend⟩
  · rintro ⟨hstart, hend⟩
    rw [readAdded, l.trimEnd_eq_iff.mpr hend, dropWhile_plus_eq_iff]
    exact hstart

/-- Lists of equal lengths are joined alike only when they are equal. -/
theorem flatMap_eq_iff {α β : Type} {f g : α → List β} (hlen : ∀ x, (f x).length = (g x).length)
    (xs : List α) : xs.flatMap f = xs.flatMap g ↔ ∀ x ∈ xs, f x = g x := by
  induction xs with
  | nil => simp
  | cons x xs ih =>
    rw [List.flatMap_cons, List.flatMap_cons, List.forall_mem_cons, ← ih]
    constructor
    · intro h
      exact List.append_inj h (hlen x)
    · rintro ⟨hx, hxs⟩
      rw [hx, hxs]

theorem DiffLine.read_eq_iff (d : DiffLine) :
    (d.old Text.trimEnd = d.old id ∧ d.new Text.trimEnd = d.new id) ↔ d.line.PlainEnd := by
  rw [← d.line.trimEnd_eq_iff]
  cases d <;> simp [DiffLine.old, DiffLine.new, DiffLine.line]

theorem ChunkSource.read_eq_iff (c : ChunkSource) :
    c.toChunk Text.trimEnd = c.toChunk id ↔ ∀ d ∈ c.lines, d.line.PlainEnd := by
  have hold := flatMap_eq_iff (f := DiffLine.old Text.trimEnd) (g := DiffLine.old id)
    (fun d => by cases d <;> rfl) c.lines
  have hnew := flatMap_eq_iff (f := DiffLine.new Text.trimEnd) (g := DiffLine.new id)
    (fun d => by cases d <;> rfl) c.lines
  simp only [ChunkSource.toChunk, UpdateFileChunk.mk.injEq, true_and, and_true]
  rw [hold, hnew, ← forall₂_and]
  exact forall₂_congr fun d _ => d.read_eq_iff

/-- The lines of a file can be read off its contents. -/
theorem fileContents_inj {ls ms : List Text} (hls : ∀ l ∈ ls, '\n' ∉ l) (hms : ∀ m ∈ ms, '\n' ∉ m)
    (hls' : ls ≠ []) (hms' : ms ≠ []) : fileContents ls = fileContents ms ↔ ls = ms := by
  constructor
  · intro h
    -- Splitting at the line feeds gives the lines back.
    have hjoin := List.append_cancel_right h
    rw [← List.splitOn_intercalate '\n' hls hls', hjoin, List.splitOn_intercalate '\n' hms hms']
  · rintro rfl
    rfl

theorem noFeed_readAdded (l : Line) : '\n' ∉ readAdded l.text := by
  intro h
  have hmem := (List.dropWhile_suffix _).subset h
  exact l.noFeed ((List.rdropWhile_prefix _ _).subset hmem)

theorem HunkSource.readHunk_eq_iff (h : HunkSource) : h.readHunk = h.hunk ↔ h.Plain := by
  cases h with
  | addFile path first rest =>
    have hread : ∀ l ∈ (first :: rest).map fun l => readAdded l.text, '\n' ∉ l := by
      simpa using ⟨noFeed_readAdded first, fun l _ => noFeed_readAdded l⟩
    have hwritten : ∀ l ∈ (first :: rest).map (·.text), '\n' ∉ l := by
      simpa using ⟨first.noFeed, fun l _ => l.noFeed⟩
    have hinj := fileContents_inj hread hwritten (by simp) (by simp)
    show Hunk.addFile _ _ = Hunk.addFile _ _ ↔ _
    rw [Hunk.addFile.injEq, eq_self, true_and]
    refine hinj.trans (List.map_inj_left.trans ?_)
    exact forall₂_congr fun l _ => l.readAdded_eq_iff
  | deleteFile path => exact ⟨fun _ => trivial, fun _ => rfl⟩
  | updateFile path move chunks =>
    show Hunk.updateFile _ _ _ = Hunk.updateFile _ _ _ ↔ _
    rw [Hunk.updateFile.injEq, eq_self, eq_self, true_and, true_and, List.map_inj_left]
    exact forall₂_congr fun c _ => c.read_eq_iff

/-- A patch is read back as it was written when no line of content ends in white
    space, no line of a new file starts with a plus sign, and an update without
    chunks comes last; and only then. -/
theorem parse_render_iff (hs : List HunkSource) :
    (parsePatch (renderPatch hs)).map (·.hunks) = .ok (hs.map HunkSource.hunk) ↔
      BareLast hs ∧ ∀ h ∈ hs, h.Plain := by
  have hfuel := length_le_flatMap HunkSource.render_ne_nil hs
  rw [parsePatch_renderPatch]
  by_cases hlast : BareLast hs
  · rw [parseHunks_render hlast hfuel, Except.ok.injEq, List.map_inj_left]
    simp only [hlast, true_and]
    exact forall₂_congr fun h _ => h.readHunk_eq_iff
  · obtain ⟨e, he⟩ := parseHunks_bare hlast hfuel 2
    rw [he]
    exact ⟨fun h => (by cases h), fun h => absurd h.1 hlast⟩

/-- A new file whose only line is `+x`. -/
def plusSource : HunkSource :=
  .addFile ⟨['a'], by decide, by decide, by decide, by decide⟩ ⟨['+', 'x'], by decide⟩ []

/-- The plus sign of the content is taken off with the one of the syntax. -/
theorem plus_line_is_lost :
    (parsePatch (renderPatch [plusSource])).map (·.hunks) =
        .ok [.addFile ['a'] ['x', '\n']] ∧
      (parsePatch (renderPatch [plusSource])).map (·.hunks) ≠
        .ok ([plusSource].map HunkSource.hunk) := by
  decide +kernel

end Contents

end Canon.Patch
