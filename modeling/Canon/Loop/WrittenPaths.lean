import Canon.Lib.Fallible
import Canon.Lib.Words
import Canon.Loop.Act
import Canon.Loop.Confinement

/-! # The paths a patch writes to

    Before a patch is applied the loop claims the files it writes to.  It does not
    parse the patch for that: `extract_written_paths` looks at every line on its own
    and takes the name behind `*** Add File:` and `*** Update File:`.  The parser
    knows two more places for a path, the header of a deletion and the target of a
    move.

    * `announced`, `unannounced`: the paths of a hunk that stand in a header the scan
      knows, and the others,
    * `mem_extractPathsFromPatch_iff`: the scan finds the announced paths, and what
      indented lines of a chunk happen to name,
    * `written_paths_seen_iff`: when it finds all that is written.
-/

namespace Canon.Loop

open Canon.Patch Act

/-! ### Model -/

/-- Extract file paths touched by an action payload. -/
def extractWrittenPaths (actionKind : Text) (payload : Json) : List FilePath :=
  if actionKind = "write_file".toList then ((payload.get "path").bind Json.asText).toList
  else if actionKind = "apply_patch".toList then
    extractPathsFromPatch (((payload.get "patch").bind Json.asText).getD [])
  else []

/-! ### Paths of a hunk -/

/-- The name in a header of the scan. -/
def announced : Hunk → Option FilePath
  | .addFile path _ => some path
  | .deleteFile _ => none
  | .updateFile path _ _ => some path

/-- The names in the other two places. -/
def unannounced : Hunk → List FilePath
  | .addFile _ _ => []
  | .deleteFile path => [path]
  | .updateFile _ movePath _ => movePath.toList

theorem mem_hunkPaths_iff {hunk : Hunk} {path : FilePath} :
    path ∈ hunkPaths hunk ↔ announced hunk = some path ∨ path ∈ unannounced hunk := by
  cases hunk with
  | addFile p contents => simp [hunkPaths, announced, unannounced, eq_comm]
  | deleteFile p => simp [hunkPaths, announced, unannounced]
  | updateFile p movePath chunks => simp [hunkPaths, announced, unannounced, eq_comm]

/-! ### Reading a line -/

/-- What the scan takes from one line. -/
def pathOfLine (line : Text) : Option FilePath :=
  let trimmed := Text.trim line
  ((Text.stripPrefix? "*** Add File:" trimmed).or
    (Text.stripPrefix? "*** Update File:" trimmed)).map Text.trim

theorem extractPathsFromPatch_eq (patch : Text) :
    extractPathsFromPatch patch = (Text.lines patch).filterMap pathOfLine := rfl

/-- The line reads, trimmed, as a header of the scan with this name. -/
def Mentions (line : Text) (path : FilePath) : Prop :=
  ∃ name, (Text.trim line = "*** Add File:".toList ++ name ∨
    Text.trim line = "*** Update File:".toList ++ name) ∧ path = Text.trim name

theorem pathOfLine_eq_some_iff {line : Text} {path : FilePath} :
    pathOfLine line = some path ↔ Mentions line path := by
  constructor
  · intro h
    obtain ⟨name, hname, rfl⟩ := Option.map_eq_some_iff.mp h
    refine ⟨name, ?_, rfl⟩
    rcases Option.or_eq_some_iff.mp hname with hname | ⟨-, hname⟩
    · exact .inl (Text.eq_append_of_stripPrefix? hname)
    · exact .inr (Text.eq_append_of_stripPrefix? hname)
  · intro h
    obtain ⟨name, hline | hline, rfl⟩ := h
    · simp only [pathOfLine, hline, Text.stripPrefix?_append, Option.some_or, Option.map_some]
    · have hother : Text.stripPrefix? "*** Add File:" ("*** Update File:".toList ++ name) = none :=
        Text.stripPrefix?_eq_none
          (Text.isPrefixOf_append_eq_false name 5 (by decide) (by decide) (by decide))
      simp only [pathOfLine, hline, hother, Text.stripPrefix?_append, Option.none_or,
        Option.map_some]

/-- The fifth character tells the two headers of the scan from all other lines. -/
theorem take_of_pathOfLine {line : Text} {path : FilePath} (h : pathOfLine line = some path) :
    (Text.trim line).take 5 = "*** A".toList ∨ (Text.trim line).take 5 = "*** U".toList := by
  obtain ⟨name, hline | hline, -⟩ := pathOfLine_eq_some_iff.mp h
  · left
    rw [hline]
    rfl
  · right
    rw [hline]
    rfl

theorem pathOfLine_of_take {line : Text} (ha : (Text.trim line).take 5 ≠ "*** A".toList)
    (hu : (Text.trim line).take 5 ≠ "*** U".toList) : pathOfLine line = none := by
  cases hline : pathOfLine line with
  | none => rfl
  | some path =>
    rcases take_of_pathOfLine hline with h | h
    · exact absurd h ha
    · exact absurd h hu

@[simp] theorem pathOfLine_nil : pathOfLine [] = none := rfl

theorem pathOfLine_trim (line : Text) : pathOfLine (Text.trim line) = pathOfLine line := by
  simp only [pathOfLine, Text.trim_trim]

/-! ### What the parser passes over

    Whatever it takes behind a header says nothing to the scan, indented lines of a
    chunk apart. -/

section Quiet

def Quiet (line : Text) : Prop := pathOfLine line = none ∨ line.head? = some ' '

/-- Lines that begin with another character than a header does. -/
theorem quiet_of_head {line : Text} {c : Char} (hc : (Text.trimEnd line).head? = some c)
    (hspace : Text.isWhitespace c = false) (hstar : c ≠ '*') : Quiet line := by
  obtain ⟨rest, hrest⟩ := List.head?_eq_some_iff.mp hc
  have htrim : Text.trim line = c :: rest := by
    rw [Text.trim, hrest, Text.trimStart_cons hspace]
  apply Or.inl (pathOfLine_of_take _ _)
  · rw [htrim]
    intro h
    exact hstar (List.cons.inj h).1
  · rw [htrim]
    intro h
    exact hstar (List.cons.inj h).1

/-- A line of a chunk. -/
theorem quiet_of_diffLine {line : Text} {sides : List Text × List Text}
    (h : diffLine (Text.trimEnd line) = some sides) : Quiet line := by
  cases htrimmed : Text.trimEnd line with
  | nil =>
    left
    rw [← pathOfLine_trim, Text.trim, htrimmed]
    rfl
  | cons c rest =>
    by_cases hindent : c = ' '
    · right
      obtain ⟨back, hback⟩ : Text.trimEnd line <+: line := List.rdropWhile_prefix _ _
      rw [← hback, htrimmed, hindent]
      rfl
    · rw [htrimmed] at h
      have hsign : c = '+' ∨ c = '-' := by
        unfold diffLine at h
        split at h <;> simp_all
      rcases hsign with rfl | rfl
      · exact quiet_of_head (by rw [htrimmed]; rfl) (by decide) (by decide)
      · exact quiet_of_head (by rw [htrimmed]; rfl) (by decide) (by decide)

theorem quiet_chunkLines {lines : List Text} {n : Nat} {body : ChunkBody}
    (h : chunkLines lines n = .ok body) : ∀ line ∈ lines.take body.consumed, Quiet line := by
  induction lines generalizing n body with
  | nil => simp
  | cons line rest ih =>
    unfold chunkLines at h
    simp only at h
    split at h
    -- The end marker is a line of its own.
    · rename_i heof
      obtain rfl := Except.ok.inj h
      intro l hl
      rw [List.take_succ_cons, List.take_zero, List.mem_singleton] at hl
      rw [hl]
      have htrim : Text.trim line = eofMarker := by
        rw [Text.trim, heof]
        rfl
      exact .inl (pathOfLine_of_take (by rw [htrim]; decide) (by rw [htrim]; decide))
    · split at h
      · obtain rfl := Except.ok.inj h
        simp [ChunkBody.empty]
      · split at h
        · cases h
        · rename_i old new hdiff
          obtain ⟨more, hmore, rfl⟩ := map_eq_ok.mp h
          intro l hl
          rw [List.take_succ_cons] at hl
          rcases List.mem_cons.mp hl with rfl | hl
          · exact quiet_of_diffLine hdiff
          · exact ih hmore l hl

theorem quiet_parseUpdateChunk {lines : List Text} {n used : Nat} {chunk : UpdateFileChunk}
    (h : parseUpdateChunk lines n = .ok (chunk, used)) : ∀ line ∈ lines.take used, Quiet line := by
  unfold parseUpdateChunk at h
  split at h
  · cases h
  · rename_i line rest
    simp only at h
    split at h
    · rename_i hheader
      obtain ⟨body, hbody, heq⟩ := map_eq_ok.mp h
      obtain ⟨-, rfl⟩ := Prod.mk.inj heq
      intro l hl
      rw [Nat.add_comm, List.take_succ_cons] at hl
      rcases List.mem_cons.mp hl with rfl | hl
      -- The header of a chunk begins with an at sign.
      · obtain ⟨back, hback⟩ : ∃ back, Text.trim l = '@' :: back := by
          have hmarker : changeContextMarker <+: Text.trim l ∨
              Text.trim l = emptyChangeContextMarker := by
            simpa using hheader
          rcases hmarker with ⟨back, hback⟩ | hbare
          · exact ⟨_, hback.symm⟩
          · exact ⟨_, hbare⟩
        exact .inl (pathOfLine_of_take (by rw [hback]; simp) (by rw [hback]; simp))
      · exact quiet_chunkLines hbody l hl
    · cases h

theorem mem_take_add {α : Type} {l : List α} {i j : Nat} {x : α} (h : x ∈ l.take (i + j)) :
    x ∈ l.take i ∨ x ∈ (l.drop i).take j := by
  rw [List.take_add] at h
  exact List.mem_append.mp h

theorem quiet_parseChunks {fuel : Nat} {lines : List Text} {n used : Nat}
    {chunks : List UpdateFileChunk} (h : parseChunks fuel lines n = .ok (chunks, used)) :
    ∀ line ∈ lines.take used, Quiet line := by
  induction fuel generalizing lines n chunks used with
  | zero =>
    have hused : used = 0 := by
      cases lines with
      | nil => simp_all [parseChunks]
      | cons line rest => simp_all [parseChunks]
    simp [hused]
  | succ fuel ih =>
    cases lines with
    | nil => simp
    | cons first rest =>
      unfold parseChunks at h
      split at h
      · cases h
      · rename_i chunk usedLines hchunk
        simp only at h
        split at h
        · obtain ⟨-, rfl⟩ := Prod.mk.inj (Except.ok.inj h)
          exact quiet_parseUpdateChunk hchunk
        · obtain ⟨more, hmore, heq⟩ := map_eq_ok.mp h
          obtain ⟨-, rfl⟩ := Prod.mk.inj heq
          intro l hl
          rcases mem_take_add hl with hl | hl
          · exact quiet_parseUpdateChunk hchunk l hl
          · exact ih hmore l hl

theorem quiet_addLines (lines : List Text) :
    ∀ line ∈ lines.take (addLines lines).length, Quiet line := by
  induction lines with
  | nil => simp
  | cons line rest ih =>
    unfold addLines
    simp only
    split
    · simp
    · split
      · rename_i hplus
        intro l hl
        rw [List.length_cons, List.take_succ_cons] at hl
        rcases List.mem_cons.mp hl with rfl | hl
        · exact quiet_of_head hplus (by decide) (by decide)
        · exact ih l hl
      · simp

/-! ### One hunk -/

theorem trim_of_markedName {marker header : Text} {filename : Text}
    (h : markedName marker header = some filename) :
    ∃ name, header = marker ++ name ∧ filename = Text.trim name := by
  obtain ⟨name, hname, rfl⟩ := Option.map_eq_some_iff.mp h
  exact ⟨name, Text.eq_append_of_stripPrefix? hname, rfl⟩

/-- The parser's markers end in a space, those of the scan do not. -/
theorem pathOfLine_of_marker {marker front line filename : Text}
    (hfront : front = "*** Add File:".toList ∨ front = "*** Update File:".toList)
    (hmarker : marker = front ++ [' '])
    (h : markedName marker (Text.trim line) = some filename) :
    pathOfLine line = some filename := by
  obtain ⟨name, hline, rfl⟩ := trim_of_markedName h
  have hscan : Text.trim line = front ++ ' ' :: name := by
    rw [hline, hmarker, List.append_assoc, List.singleton_append]
  refine pathOfLine_eq_some_iff.mpr ⟨' ' :: name, ?_, ?_⟩
  · rcases hfront with hfront | hfront
    · exact .inl (hfront ▸ hscan)
    · exact .inr (hfront ▸ hscan)
  · rw [Text.trim_cons_space (by decide)]

/-- The other markers of the parser. -/
theorem pathOfLine_of_otherMarker {marker line filename : Text} (hlen : 5 ≤ marker.length)
    (ha : marker.take 5 ≠ "*** A".toList) (hu : marker.take 5 ≠ "*** U".toList)
    (h : markedName marker (Text.trim line) = some filename) : pathOfLine line = none := by
  obtain ⟨name, hline, -⟩ := trim_of_markedName h
  have htake : (Text.trim line).take 5 = marker.take 5 := by
    rw [hline, List.take_append_of_le_length hlen]
  rw [← htake] at ha hu
  exact pathOfLine_of_take ha hu

theorem quiet_moveTarget {lines : List Text} (h : (moveTarget lines).isSome) :
    ∀ line ∈ lines.take 1, Quiet line := by
  cases lines with
  | nil => simp
  | cons line rest =>
    obtain ⟨filename, hname⟩ := Option.isSome_iff_exists.mp h
    intro l hl
    obtain rfl := List.mem_singleton.mp hl
    exact .inl (pathOfLine_of_otherMarker (by decide) (by decide) (by decide) hname)

/-- A hunk is read from its header, which announces what the scan finds there, and
    from lines that say nothing. -/
theorem parseOneHunk_spec {line : Text} {rest : List Text} {n used : Nat} {hunk : Hunk}
    (h : parseOneHunk (line :: rest) n = .ok (hunk, used)) :
    pathOfLine line = announced hunk ∧
      ∃ more, used = 1 + more ∧ ∀ l ∈ rest.take more, Quiet l := by
  unfold parseOneHunk at h
  simp only at h
  split at h
  · rename_i filename hadd
    unfold parseAddFile at h
    split at h
    · cases h
    · simp only at h
      split at h
      · cases h
      · obtain ⟨rfl, rfl⟩ := Prod.mk.inj (Except.ok.inj h)
        exact ⟨pathOfLine_of_marker (.inl rfl) (by decide) hadd, _, rfl, quiet_addLines rest⟩
  · split at h
    · rename_i filename hdelete
      unfold parseDeleteFile at h
      split at h
      · cases h
      · obtain ⟨rfl, rfl⟩ := Prod.mk.inj (Except.ok.inj h)
        have hnone := pathOfLine_of_otherMarker (by decide) (by decide) (by decide) hdelete
        exact ⟨hnone, 0, rfl, by simp⟩
    · split at h
      · rename_i filename hupdate
        unfold parseUpdateFile at h
        split at h
        · cases h
        · obtain ⟨parsed, hparsed, heq⟩ := map_eq_ok.mp h
          obtain ⟨rfl, rfl⟩ := Prod.mk.inj heq
          refine ⟨pathOfLine_of_marker (.inr rfl) (by decide) hupdate, _, Nat.add_assoc _ _ _, ?_⟩
          intro l hl
          rcases mem_take_add hl with hl | hl
          -- The line of the move target, if there is one.
          · by_cases hmove : (moveTarget rest).isSome
            · rw [if_pos hmove] at hl
              exact quiet_moveTarget hmove l hl
            · rw [if_neg hmove] at hl
              simp at hl
          · exact quiet_parseChunks hparsed l hl
      · cases h

end Quiet

/-! ### All hunks -/

/-- The scan finds what the hunks announce. -/
theorem announced_of_parseHunks {fuel : Nat} {lines : List Text} {n : Nat} {hunks : List Hunk}
    (h : parseHunks fuel lines n = .ok hunks) :
    ∀ hunk ∈ hunks, ∀ path ∈ announced hunk, ∃ line ∈ lines, pathOfLine line = some path := by
  induction fuel generalizing lines n hunks with
  | zero =>
    cases lines with
    | nil => simp_all [parseHunks]
    | cons line rest => simp_all [parseHunks]
  | succ fuel ih =>
    cases lines with
    | nil => simp_all [parseHunks]
    | cons line rest =>
      unfold parseHunks at h
      split at h
      · cases h
      · rename_i first used hfirst
        obtain ⟨more, hmore, rfl⟩ := map_eq_ok.mp h
        intro hunk hhunk path hpath
        rcases List.mem_cons.mp hhunk with rfl | hhunk
        · refine ⟨line, List.mem_cons_self, ?_⟩
          rw [(parseOneHunk_spec hfirst).1]
          exact hpath
        · obtain ⟨l, hl, hread⟩ := ih hmore hunk hhunk path hpath
          exact ⟨l, List.mem_of_mem_drop hl, hread⟩

/-- It finds nothing else, but for indented lines. -/
theorem of_scan_parseHunks {fuel : Nat} {lines : List Text} {n : Nat} {hunks : List Hunk}
    (h : parseHunks fuel lines n = .ok hunks) (hfuel : lines.length ≤ fuel) {line : Text}
    (hline : line ∈ lines) {path : FilePath} (hread : pathOfLine line = some path) :
    line.head? = some ' ' ∨ ∃ hunk ∈ hunks, announced hunk = some path := by
  induction fuel generalizing lines n hunks with
  | zero =>
    have hnil : lines = [] := List.eq_nil_of_length_eq_zero (by omega)
    simp [hnil] at hline
  | succ fuel ih =>
    cases lines with
    | nil => simp at hline
    | cons first rest =>
      unfold parseHunks at h
      split at h
      · cases h
      · rename_i hunk used hfirst
        obtain ⟨more, hmore, rfl⟩ := map_eq_ok.mp h
        obtain ⟨hheader, taken, rfl, hquiet⟩ := parseOneHunk_spec hfirst
        rcases List.mem_cons.mp hline with rfl | hline
        · right
          exact ⟨hunk, List.mem_cons_self, by rw [← hheader, hread]⟩
        · rw [← List.take_append_drop taken rest] at hline
          rcases List.mem_append.mp hline with hline | hline
          · left
            rcases hquiet line hline with hnone | hindent
            · rw [hnone] at hread
              cases hread
            · exact hindent
          · have hdrop : (first :: rest).drop (1 + taken) = rest.drop taken := by
              rw [Nat.add_comm, List.drop_succ_cons]
            rw [hdrop] at hmore
            have hlen : (rest.drop taken).length ≤ fuel := by
              have hall : (first :: rest).length = rest.length + 1 := rfl
              rw [List.length_drop]
              omega
            rcases ih hmore hlen hline with hindent | ⟨later, hlater, hpath⟩
            · exact .inl hindent
            · exact .inr ⟨later, List.mem_cons_of_mem _ hlater, hpath⟩

/-! ### The whole patch -/

/-- No line of a text holds a line feed, so the test for a here-document, which looks
    behind one, never succeeds. -/
theorem boundedLines_lines {text : Text} {mode : ParseMode} {bounded : List Text}
    (h : boundedLines (Text.lines text) mode = .ok bounded) :
    bounded = Text.lines text ∧ (Text.lines text).head?.map Text.trim = some beginPatchMarker ∧
      (Text.lines text).getLast?.map Text.trim = some endPatchMarker := by
  have hlenient : ∀ e, checkPatchBoundariesLenient (Text.lines text) e = .error e := by
    intro e
    have hsplit : (splitOnce ((Text.lines text).getLast?.getD [])).2 = [] := by
      have hfeed : '\n' ∉ (Text.lines text).getLast?.getD [] := by
        cases hlast : (Text.lines text).getLast? with
        | none => simp
        | some l => exact Text.feed_notMem_of_mem_lines (List.mem_of_getLast? hlast)
      have hdrop : ((Text.lines text).getLast?.getD []).dropWhile (· ≠ '\n') = [] := by
        rw [List.dropWhile_eq_nil_iff]
        intro c hc
        have hne : c ≠ '\n' := fun heq => hfeed (heq ▸ hc)
        simpa using hne
      rw [splitOnce, hdrop]
    unfold checkPatchBoundariesLenient
    split
    · rfl
    · simp only [hsplit]
      rw [if_neg (by simp [Text.trim, Text.trimEnd, Text.trimStart])]
  unfold boundedLines checkPatchBoundariesStrict checkStartAndEndLinesStrict at h
  by_cases hends : (Text.lines text).head?.map Text.trim = some beginPatchMarker ∧
      (Text.lines text).getLast?.map Text.trim = some endPatchMarker
  · rw [if_pos hends] at h
    exact ⟨(Except.ok.inj h).symm, hends⟩
  · rw [if_neg hends] at h
    split at h
    · rename_i hok
      split at hok
      · cases hok
      · split at hok <;> cases hok
    · cases h
    · rw [hlenient] at h
      cases h

/-- The lines of an accepted patch between its two markers. -/
theorem parsePatch_spec {patch : Text} {args : ApplyPatchArgs} (h : parsePatch patch = .ok args) :
    ∃ first inner last, Text.lines (Text.trim patch) = first :: inner ++ [last] ∧
      pathOfLine first = none ∧ pathOfLine last = none ∧
      parseHunks inner.length inner 2 = .ok args.hunks := by
  unfold parsePatch parsePatchText at h
  split at h
  · cases h
  · rename_i bounded hbounded
    obtain ⟨rfl, hhead, hlast⟩ := boundedLines_lines hbounded
    obtain ⟨hunks, hhunks, rfl⟩ := map_eq_ok.mp h
    obtain ⟨first, hfirst, hbegin⟩ := Option.map_eq_some_iff.mp hhead
    obtain ⟨last, hlastLine, hend⟩ := Option.map_eq_some_iff.mp hlast
    obtain ⟨rest, hrest⟩ := List.head?_eq_some_iff.mp hfirst
    obtain ⟨front, hfront⟩ := List.getLast?_eq_some_iff.mp hlastLine
    -- One line cannot be both markers.
    cases front with
    | nil =>
      rw [hrest, List.nil_append] at hfront
      obtain ⟨rfl, -⟩ := List.cons.inj hfront
      rw [hbegin] at hend
      exact absurd hend (by decide)
    | cons line inner =>
      have hline : line = first := by
        rw [hrest, List.cons_append] at hfront
        exact (List.cons.inj hfront).1.symm
      subst hline
      refine ⟨line, inner, last, hfront, ?_, ?_, ?_⟩
      · exact pathOfLine_of_take (by rw [hbegin]; decide) (by rw [hbegin]; decide)
      · exact pathOfLine_of_take (by rw [hend]; decide) (by rw [hend]; decide)
      · have hinner : ((Text.lines (Text.trim patch)).take
            ((Text.lines (Text.trim patch)).length - 1)).drop 1 = inner := by
          rw [hfront, ← List.dropLast_eq_take, List.dropLast_concat]
          rfl
        rw [hinner] at hhunks
        exact hhunks

/-- An indented line that mentions the path: in a chunk it is context, and the scan
    takes it for a header. -/
def MentionedAside (patch : Text) (path : FilePath) : Prop :=
  ∃ line ∈ Text.lines (Text.trim patch), line.head? = some ' ' ∧ Mentions line path

/-- The scan finds the announced paths, and what is mentioned aside. -/
theorem mem_extractPathsFromPatch_iff {patch : Text} {args : ApplyPatchArgs}
    (h : parsePatch patch = .ok args) {path : FilePath} :
    path ∈ extractPathsFromPatch patch ↔
      (∃ hunk ∈ args.hunks, announced hunk = some path) ∨ MentionedAside patch path := by
  obtain ⟨first, inner, last, hlines, hfirst, hlast, hhunks⟩ := parsePatch_spec h
  rw [extractPathsFromPatch_eq, ← Text.filterMap_lines_trim pathOfLine_trim pathOfLine_nil,
    List.mem_filterMap]
  constructor
  · rintro ⟨line, hline, hread⟩
    have hinner : line ∈ inner := by
      rw [hlines] at hline
      rcases List.mem_append.mp hline with hline | hline
      · rcases List.mem_cons.mp hline with rfl | hline
        · rw [hfirst] at hread
          cases hread
        · exact hline
      · rw [List.mem_singleton.mp hline, hlast] at hread
        cases hread
    rcases of_scan_parseHunks hhunks (Nat.le_refl _) hinner hread with hindent | hfound
    · exact .inr ⟨line, hline, hindent, pathOfLine_eq_some_iff.mp hread⟩
    · exact .inl hfound
  · rintro (⟨hunk, hhunk, hpath⟩ | ⟨line, hline, -, hmentions⟩)
    · obtain ⟨line, hline, hread⟩ := announced_of_parseHunks hhunks hunk hhunk path hpath
      refine ⟨line, ?_, hread⟩
      rw [hlines]
      exact List.mem_append_left _ (List.mem_cons_of_mem _ hline)
    · exact ⟨line, hline, pathOfLine_eq_some_iff.mpr hmentions⟩

/-- Some path among those read from the payload is this one, as a path. -/
def Sees (payload : Json) (path : FilePath) : Prop :=
  ∃ seen ∈ extractWrittenPaths "apply_patch".toList payload, FilePath.same seen path

theorem extractWrittenPaths_patch {payload : Json} {patch : Text}
    (h : (payload.get "patch").bind Json.asText = some patch) :
    extractWrittenPaths "apply_patch".toList payload = extractPathsFromPatch patch := by
  rw [extractWrittenPaths, if_neg (by decide), if_pos rfl, h, Option.getD_some]

/-- The claims made before a patch is applied cover all files it writes to if and
    only if every file it deletes or moves something to is also added or updated by a
    hunk of the patch, or mentioned aside. -/
theorem written_paths_seen_iff {payload : Json} {patch : Text} {args : ApplyPatchArgs}
    (hpatch : (payload.get "patch").bind Json.asText = some patch)
    (h : parsePatch patch = .ok args) :
    (∀ hunk ∈ args.hunks, ∀ path ∈ hunkPaths hunk, Sees payload path) ↔
      ∀ hunk ∈ args.hunks, ∀ path ∈ unannounced hunk,
        (∃ other ∈ args.hunks, ∃ named ∈ announced other, FilePath.same named path) ∨
          ∃ named, FilePath.same named path ∧ MentionedAside patch named := by
  have hsees : ∀ path, Sees payload path ↔
      (∃ other ∈ args.hunks, ∃ named ∈ announced other, FilePath.same named path) ∨
        ∃ named, FilePath.same named path ∧ MentionedAside patch named := by
    intro path
    unfold Sees
    rw [extractWrittenPaths_patch hpatch]
    constructor
    · rintro ⟨seen, hseen, hsame⟩
      rcases (mem_extractPathsFromPatch_iff h).mp hseen with ⟨other, hother, hnamed⟩ | haside
      · exact .inl ⟨other, hother, seen, hnamed, hsame⟩
      · exact .inr ⟨seen, hsame, haside⟩
    · rintro (⟨other, hother, named, hnamed, hsame⟩ | ⟨named, hsame, haside⟩)
      · exact ⟨named, (mem_extractPathsFromPatch_iff h).mpr (.inl ⟨other, hother, hnamed⟩), hsame⟩
      · exact ⟨named, (mem_extractPathsFromPatch_iff h).mpr (.inr haside), hsame⟩
  constructor
  · intro hall hunk hhunk path hpath
    exact (hsees path).mp (hall hunk hhunk path (mem_hunkPaths_iff.mpr (.inr hpath)))
  · intro hrest hunk hhunk path hpath
    apply (hsees path).mpr
    rcases mem_hunkPaths_iff.mp hpath with hheader | hother
    · exact .inl ⟨hunk, hhunk, path, hheader, by simp [FilePath.same]⟩
    · exact hrest hunk hhunk path hother

/-! ### A deletion and a move -/

def deletion : String := "*** Begin Patch\n*** Delete File: a\n*** End Patch"

def move : String :=
  "*** Begin Patch\n*** Update File: a\n*** Move to: b\n@@\n-x\n+y\n*** End Patch"

/-- The file that a patch moves to, here `b`, is not claimed. -/
theorem written_paths_seen_move :
    ¬ ∀ hunk ∈ [Hunk.updateFile ['a'] (some ['b'])
        [{ changeContext := none, oldLines := [['x']], newLines := [['y']]
           isEndOfFile := false }]],
      ∀ path ∈ hunkPaths hunk, Sees (.obj [("patch", .str move)]) path := by
  intro hall
  have hparse : parsePatch move.toList = .ok
      { patch := move.toList
        hunks := [.updateFile ['a'] (some ['b'])
          [{ changeContext := none, oldLines := [['x']], newLines := [['y']]
             isEndOfFile := false }]]
        workdir := none } := by
    decide +kernel
  have hcovered := (@written_paths_seen_iff (.obj [("patch", .str move)]) _ _ rfl hparse).mp
    hall _ (List.mem_singleton_self _) ['b'] (by decide)
  rcases hcovered with ⟨other, hother, named, hnamed, hsame⟩ | ⟨named, -, line, hline, hindent, -⟩
  · obtain rfl := List.mem_singleton.mp hother
    obtain rfl := Option.mem_some.mp hnamed
    exact absurd hsame (by decide)
  · have hnone : ∀ l ∈ Text.lines (Text.trim move.toList), l.head? ≠ some ' ' := by
      decide +kernel
    exact hnone line hline hindent

/-- Nor is a file that a patch deletes. -/
theorem deleted_file_unseen :
    ∃ (payload : Json) (patch : Text) (args : ApplyPatchArgs),
      (payload.get "patch").bind Json.asText = some patch ∧ parsePatch patch = .ok args ∧
      ¬ ∀ hunk ∈ args.hunks, ∀ path ∈ hunkPaths hunk, Sees payload path := by
  refine ⟨.obj [("patch", .str deletion)], deletion.toList,
    { patch := deletion.toList, hunks := [.deleteFile ['a']], workdir := none }, rfl, ?_, ?_⟩
  · decide +kernel
  · intro hall
    obtain ⟨seen, hseen, -⟩ := hall _ (List.mem_singleton_self _) ['a'] (by decide)
    have hnothing :
      extractWrittenPaths "apply_patch".toList (.obj [("patch", .str deletion)]) = [] := by
      decide +kernel
    rw [hnothing] at hseen
    cases hseen

end Canon.Loop
