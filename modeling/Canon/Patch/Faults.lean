import Canon.Lib.Consume
import Canon.Lib.Words
import Canon.Patch.Parser

/-! # What the patch parser takes, and what it reports

    The parser is a loop over hunks around a loop over chunks.  Both cut the front off
    a slice by a number the callee reports, and both add the same number to a line
    number.

    * `checkedPatchText`: the parser with its slice expressions, which stop the program
      when a bound is out of range, and with loops that may not end,
    * `checkedPatchText_eq`: none of that happens,
    * `firstFault`: one pass over the lines, without any counting, that finds the first
      line that cannot be read,
    * `parser_exact_iff`: everything adds up, and the reported line is the first faulty
      one except when it lies in a chunk or when there are lines in front of the patch.
-/

namespace Canon.Patch

open Consume

/-! ### The parser with its slices -/

def chunkStep : Step Text UpdateFileChunk ParseError := fun lines n =>
  some (parseUpdateChunk lines n)

def checkedUpdateFile (filename : Text) (lines : List Text) (lineNumber : Nat) :
    Option (Except ParseError (Hunk × Nat)) :=
  if filename = [] then
    some (.error (.invalidHunkError "missing filename for Update File".toList lineNumber))
  else
    let movePath := moveTarget lines
    let skip := if movePath.isSome then 1 else 0
    let remaining := lines.drop skip
    (loop chunkStep atNextHunk remaining.length remaining (lineNumber + skip)).map fun parsed =>
      parsed.map fun chunks =>
        (.updateFile filename movePath (chunks.map Prod.fst),
          1 + skip + (chunks.map Prod.snd).sum)

def checkedOneHunk : Step Text Hunk ParseError := fun lines startingLineNumber =>
  match lines with
  | [] => some (.error (.invalidPatchError "missing hunk".toList))
  | firstLine :: rest =>
    let header := Text.trim firstLine
    match markedName addFileMarker header with
    | some filename => some (parseAddFile filename rest startingLineNumber)
    | none =>
      match markedName deleteFileMarker header with
      | some filename => some (parseDeleteFile filename startingLineNumber)
      | none =>
        match markedName updateFileMarker header with
        | some filename => checkedUpdateFile filename rest startingLineNumber
        | none =>
          some (.error
            (.invalidHunkError "expected Add/Delete/Update hunk".toList startingLineNumber))

/-- The loop over the hunks, with the number of lines of each. -/
def hunkLoop (lines : List Text) : Option (Except ParseError (List (Hunk × Nat))) :=
  loop checkedOneHunk (fun _ => false) lines.length lines 2

/-- The lines between the markers: the slice from the second to the last but one. -/
def between (lines : List Text) : Option (List Text) :=
  let lastLineIndex := lines.length - 1
  if 1 ≤ lastLineIndex ∧ lastLineIndex ≤ lines.length then
    some ((lines.take lastLineIndex).drop 1)
  else none

def checkedPatchText (patch : Text) (mode : ParseMode) :
    Option (Except ParseError ApplyPatchArgs) :=
  match boundedLines (Text.lines (Text.trim patch)) mode with
  | .error e => some (.error e)
  | .ok lines =>
    (between lines).bind fun remaining =>
      (hunkLoop remaining).map fun result =>
        result.map fun hunks =>
          { patch := ['\n'].intercalate lines, hunks := hunks.map Prod.fst, workdir := none }

/-! ### How much a step takes -/

section Counts

variable {lines : List Text} {n used : Nat}

theorem chunkLines_le {body : ChunkBody} (h : chunkLines lines n = .ok body) :
    body.consumed ≤ lines.length := by
  induction lines generalizing n body with
  | nil =>
    rw [chunkLines] at h
    cases h
    exact Nat.le_refl 0
  | cons line rest ih =>
    rw [chunkLines] at h
    by_cases heof : Text.trimEnd line = eofMarker
    · rw [if_pos heof] at h
      cases h
      exact Nat.succ_le_succ (Nat.zero_le _)
    · rw [if_neg heof] at h
      by_cases hends : endsChunk (Text.trimEnd line) = true
      · rw [if_pos hends] at h
        cases h
        exact Nat.zero_le _
      · rw [if_neg hends] at h
        match hdiff : diffLine (Text.trimEnd line) with
        | none => simp only [hdiff] at h; cases h
        | some (old, new) =>
          simp only [hdiff] at h
          match hrest : chunkLines rest (n + 1) with
          | .error e => rw [hrest] at h; cases h
          | .ok more =>
            rw [hrest] at h
            cases h
            exact Nat.succ_le_succ (ih hrest)

theorem parseUpdateChunk_bounds {chunk : UpdateFileChunk}
    (h : parseUpdateChunk lines n = .ok (chunk, used)) : 1 ≤ used ∧ used ≤ lines.length := by
  match lines with
  | [] => cases h
  | firstLine :: rest =>
    rw [parseUpdateChunk] at h
    split at h
    · match hbody : chunkLines rest n with
      | .error e => rw [hbody] at h; cases h
      | .ok body =>
        rw [hbody] at h
        cases h
        have hle := chunkLines_le hbody
        rw [List.length_cons]
        omega
    · cases h

theorem chunkStep_progress : Progress chunkStep where
  ends lines n _ := ⟨parseUpdateChunk lines n, rfl⟩
  pos _ h := (parseUpdateChunk_bounds (Option.some.inj h)).1
  le _ h := (parseUpdateChunk_bounds (Option.some.inj h)).2

/-- The chunks of the parser are those of the loop, and so is their length. -/
theorem parseChunks_eq {fuel : Nat} (hfuel : lines.length ≤ fuel) :
    ((loop chunkStep atNextHunk fuel lines n).map fun result => result.map fun chunks =>
      (chunks.map Prod.fst, (chunks.map Prod.snd).sum)) = some (parseChunks fuel lines n) := by
  induction fuel generalizing lines n with
  | zero =>
    have hnil : lines = [] := List.eq_nil_of_length_eq_zero (Nat.le_zero.mp hfuel)
    rw [hnil, loop_nil]
    rfl
  | succ fuel ih =>
    by_cases hne : lines = []
    · rw [hne, loop_nil]
      rfl
    · match hchunk : parseUpdateChunk lines n with
      | .error e =>
        rw [loop_error hne (congrArg some hchunk)]
        obtain ⟨line, rest, rfl⟩ := List.exists_cons_of_ne_nil hne
        simp only [parseChunks, hchunk]
        rfl
      | .ok (chunk, used) =>
        have hbounds := parseUpdateChunk_bounds hchunk
        have hshort : (lines.drop used).length ≤ fuel := by
          rw [List.length_drop]
          omega
        have hmore := ih (n := n + used) hshort
        rw [chunkStep_progress.loop_ok hne (congrArg some hchunk)]
        have hparse : parseChunks (fuel + 1) lines n =
            if atNextHunk (lines.drop used) then .ok ([chunk], used)
            else (parseChunks fuel (lines.drop used) (n + used)).map fun more =>
              (chunk :: more.1, used + more.2) := by
          obtain ⟨line, rest, rfl⟩ := List.exists_cons_of_ne_nil hne
          simp only [parseChunks, hchunk]
        rw [hparse]
        by_cases hnext : atNextHunk (lines.drop used) = true
        · simp only [if_pos hnext]
          rfl
        · simp only [if_neg hnext]
          match hloop : loop chunkStep atNextHunk fuel (lines.drop used) (n + used) with
          | none => rw [hloop] at hmore; cases hmore
          | some (.error e) =>
            rw [hloop] at hmore
            rw [← Option.some.inj hmore]
            rfl
          | some (.ok more) =>
            rw [hloop] at hmore
            rw [← Option.some.inj hmore]
            rfl

theorem parseChunks_le {fuel : Nat} {chunks : List UpdateFileChunk}
    (h : parseChunks fuel lines n = .ok (chunks, used)) : used ≤ lines.length := by
  induction fuel generalizing lines n chunks used with
  | zero =>
    cases lines <;> (cases h; exact Nat.zero_le _)
  | succ fuel ih =>
    match lines with
    | [] => rw [parseChunks] at h; cases h; exact Nat.zero_le _
    | line :: rest =>
      match hchunk : parseUpdateChunk (line :: rest) n with
      | .error e => simp only [parseChunks, hchunk] at h; cases h
      | .ok (chunk, first) =>
        have hbounds := parseUpdateChunk_bounds hchunk
        simp only [parseChunks, hchunk] at h
        split at h
        · cases h
          exact hbounds.2
        · match hmore : parseChunks fuel ((line :: rest).drop first) (n + first) with
          | .error e => rw [hmore] at h; cases h
          | .ok (more, behind) =>
            rw [hmore] at h
            cases h
            have hle := ih hmore
            rw [List.length_drop] at hle
            omega

theorem addLines_le (lines : List Text) : (addLines lines).length ≤ lines.length := by
  induction lines with
  | nil => exact Nat.le_refl 0
  | cons line rest ih =>
    rw [addLines]
    split
    · exact Nat.zero_le _
    · split
      · exact Nat.succ_le_succ ih
      · exact Nat.zero_le _

theorem checkedUpdateFile_eq (filename : Text) :
    checkedUpdateFile filename lines n = some (parseUpdateFile filename lines n) := by
  rw [checkedUpdateFile, parseUpdateFile]
  by_cases hname : filename = []
  · rw [if_pos hname, if_pos hname]
  · rw [if_neg hname, if_neg hname]
    have hchunks := parseChunks_eq (n := n + if (moveTarget lines).isSome then 1 else 0)
      (Nat.le_refl (lines.drop (if (moveTarget lines).isSome then 1 else 0)).length)
    match hloop : loop chunkStep atNextHunk
        (lines.drop (if (moveTarget lines).isSome then 1 else 0)).length
        (lines.drop (if (moveTarget lines).isSome then 1 else 0))
        (n + if (moveTarget lines).isSome then 1 else 0) with
    | none => rw [hloop] at hchunks; cases hchunks
    | some (.error e) =>
      rw [hloop] at hchunks
      simp only [hloop, ← Option.some.inj hchunks]
      rfl
    | some (.ok chunks) =>
      rw [hloop] at hchunks
      simp only [hloop, ← Option.some.inj hchunks]
      rfl

theorem checkedOneHunk_eq : checkedOneHunk lines n = some (parseOneHunk lines n) := by
  cases lines with
  | nil => rfl
  | cons firstLine rest =>
    match hadd : markedName addFileMarker (Text.trim firstLine) with
    | some filename => simp only [checkedOneHunk, parseOneHunk, hadd]
    | none =>
      match hdelete : markedName deleteFileMarker (Text.trim firstLine) with
      | some filename => simp only [checkedOneHunk, parseOneHunk, hadd, hdelete]
      | none =>
        match hupdate : markedName updateFileMarker (Text.trim firstLine) with
        | some filename =>
          simp only [checkedOneHunk, parseOneHunk, hadd, hdelete, hupdate, checkedUpdateFile_eq]
        | none => simp only [checkedOneHunk, parseOneHunk, hadd, hdelete, hupdate]

theorem parseAddFile_bounds {filename : Text} {hunk : Hunk}
    (h : parseAddFile filename lines n = .ok (hunk, used)) :
    used = 1 + (addLines lines).length := by
  rw [parseAddFile] at h
  split at h
  · cases h
  · simp only at h
    split at h
    · cases h
    · cases h
      rfl

theorem parseUpdateFile_bounds {filename : Text} {hunk : Hunk}
    (h : parseUpdateFile filename lines n = .ok (hunk, used)) :
    1 ≤ used ∧ used ≤ lines.length + 1 := by
  rw [parseUpdateFile] at h
  split at h
  · cases h
  · simp only at h
    have hskip : (if (moveTarget lines).isSome then 1 else 0) ≤ lines.length := by
      cases lines with
      | nil => exact Nat.le_refl 0
      | cons line rest =>
        rw [List.length_cons]
        split <;> omega
    generalize (if (moveTarget lines).isSome then 1 else 0) = skip at h hskip
    match hchunks : parseChunks (lines.drop skip).length (lines.drop skip) (n + skip) with
    | .error e => rw [hchunks] at h; cases h
    | .ok (chunks, behind) =>
      rw [hchunks] at h
      cases h
      have hle := parseChunks_le hchunks
      rw [List.length_drop] at hle
      show 1 ≤ 1 + skip + behind ∧ 1 + skip + behind ≤ lines.length + 1
      omega

theorem parseOneHunk_bounds {hunk : Hunk} (h : parseOneHunk lines n = .ok (hunk, used)) :
    1 ≤ used ∧ used ≤ lines.length := by
  match lines with
  | [] => cases h
  | firstLine :: rest =>
    rw [List.length_cons]
    rw [parseOneHunk] at h
    split at h
    · have hused := parseAddFile_bounds h
      have hle := addLines_le rest
      omega
    · split at h
      · rw [parseDeleteFile] at h
        split at h
        · cases h
        · cases h
          omega
      · split at h
        · exact parseUpdateFile_bounds h
        · cases h

theorem checkedOneHunk_progress : Progress checkedOneHunk where
  ends lines n _ := ⟨parseOneHunk lines n, checkedOneHunk_eq⟩
  pos _ h := (parseOneHunk_bounds (Option.some.inj (checkedOneHunk_eq.symm.trans h))).1
  le _ h := (parseOneHunk_bounds (Option.some.inj (checkedOneHunk_eq.symm.trans h))).2

/-- The hunks of the parser are those of the loop. -/
theorem parseHunks_eq {fuel : Nat} (hfuel : lines.length ≤ fuel) :
    ((loop checkedOneHunk (fun _ => false) fuel lines n).map fun result =>
      result.map (·.map Prod.fst)) = some (parseHunks fuel lines n) := by
  induction fuel generalizing lines n with
  | zero =>
    have hnil : lines = [] := List.eq_nil_of_length_eq_zero (Nat.le_zero.mp hfuel)
    rw [hnil, loop_nil]
    rfl
  | succ fuel ih =>
    by_cases hne : lines = []
    · rw [hne, loop_nil]
      rfl
    · match hhunk : parseOneHunk lines n with
      | .error e =>
        rw [loop_error hne (checkedOneHunk_eq.trans (congrArg some hhunk))]
        obtain ⟨line, rest, rfl⟩ := List.exists_cons_of_ne_nil hne
        simp only [parseHunks, hhunk]
        rfl
      | .ok (hunk, used) =>
        have hbounds := parseOneHunk_bounds hhunk
        have hshort : (lines.drop used).length ≤ fuel := by
          rw [List.length_drop]
          omega
        have hmore := ih (n := n + used) hshort
        have hstep := checkedOneHunk_eq.trans (congrArg some hhunk)
        rw [checkedOneHunk_progress.loop_ok hne hstep]
        have hparse : parseHunks (fuel + 1) lines n =
            (parseHunks fuel (lines.drop used) (n + used)).map (hunk :: ·) := by
          obtain ⟨line, rest, rfl⟩ := List.exists_cons_of_ne_nil hne
          simp only [parseHunks, hhunk]
        rw [hparse]
        simp only [Bool.false_eq_true, if_false]
        match hloop : loop checkedOneHunk (fun _ => false) fuel (lines.drop used) (n + used) with
        | none => rw [hloop] at hmore; cases hmore
        | some (.error e) =>
          rw [hloop] at hmore
          rw [← Option.some.inj hmore]
          rfl
        | some (.ok more) =>
          rw [hloop] at hmore
          rw [← Option.some.inj hmore]
          rfl

end Counts

variable (line : Text) (patch : Text)

/-! ### The markers -/

/-- The two markers are different lines. -/
theorem two_le_length {lines : List Text} (h : checkPatchBoundariesStrict lines = .ok ()) :
    2 ≤ lines.length := by
  match lines with
  | [] =>
    rw [show checkPatchBoundariesStrict [] = .error (.invalidPatchError "patch is empty".toList)
      from by decide] at h
    cases h
  | [line] =>
    rw [checkPatchBoundariesStrict, checkStartAndEndLinesStrict] at h
    by_cases hmarkers : ([line].head?.map Text.trim = some beginPatchMarker ∧
        [line].getLast?.map Text.trim = some endPatchMarker)
    -- One line cannot be both.
    · have hsame : some beginPatchMarker = some endPatchMarker :=
        hmarkers.1.symm.trans hmarkers.2
      exact absurd hsame (by decide)
    · rw [if_neg hmarkers] at h
      split at h
      · cases h
      · split at h <;> cases h
  | _ :: _ :: _ => exact Nat.le_add_left 2 _

/-- A line holds no line feed, so the last line never looks like the end of a
    here-document. -/
theorem checkPatchBoundariesLenient_lines (e : ParseError) :
    checkPatchBoundariesLenient (Text.lines patch) e = .error e := by
  rw [checkPatchBoundariesLenient]
  split
  · rfl
  · have hlast : (splitOnce ((Text.lines patch).getLast?.getD [])).2 = [] := by
      have hfeed : '\n' ∉ (Text.lines patch).getLast?.getD [] := by
        match h : (Text.lines patch).getLast? with
        | none => exact List.not_mem_nil
        | some l => exact Text.feed_notMem_of_mem_lines (List.mem_of_getLast? h)
      have hdrop : ((Text.lines patch).getLast?.getD []).dropWhile (· ≠ '\n') = [] := by
        rw [List.dropWhile_eq_nil_iff]
        intro c hc
        have hne : c ≠ '\n' := fun h => hfeed (h ▸ hc)
        simpa using hne
      rw [splitOnce, hdrop]
    have hheredoc : List.isSuffixOf "EOF".toList (Text.trim []) = false := by decide
    simp only [hlast, hheredoc, Bool.and_false, Bool.false_and, Bool.false_eq_true, if_false]

theorem boundedLines_lines (mode : ParseMode) :
    boundedLines (Text.lines patch) mode =
      (checkPatchBoundariesStrict (Text.lines patch)).map fun _ => Text.lines patch := by
  match hcheck : checkPatchBoundariesStrict (Text.lines patch) with
  | .ok () =>
    simp only [boundedLines, hcheck]
    rfl
  | .error e =>
    match mode with
    | .strict =>
      simp only [boundedLines, hcheck]
      rfl
    | .lenient =>
      simp only [boundedLines, hcheck]
      exact checkPatchBoundariesLenient_lines patch e

/-- The mode makes no difference. -/
theorem parsePatchText_mode (mode : ParseMode) :
    parsePatchText patch mode = parsePatchText patch .strict := by
  rw [parsePatchText, parsePatchText, boundedLines_lines, boundedLines_lines]

/-- Every slice is in range and every loop ends. -/
theorem checkedPatchText_eq (mode : ParseMode) :
    checkedPatchText patch mode = some (parsePatchText patch mode) := by
  rw [checkedPatchText, parsePatchText, boundedLines_lines]
  match hcheck : checkPatchBoundariesStrict (Text.lines (Text.trim patch)) with
  | .error e => rfl
  | .ok () =>
    have htwo := two_le_length hcheck
    have hbetween : between (Text.lines (Text.trim patch)) =
        some (((Text.lines (Text.trim patch)).take
          ((Text.lines (Text.trim patch)).length - 1)).drop 1) := by
      rw [between, if_pos ⟨by omega, by omega⟩]
    simp only [Except.map, hbetween, Option.bind_some]
    generalize ((Text.lines (Text.trim patch)).take
      ((Text.lines (Text.trim patch)).length - 1)).drop 1 = remaining
    have hhunks := parseHunks_eq (n := 2) (Nat.le_refl remaining.length)
    rw [hunkLoop]
    match hloop : loop checkedOneHunk (fun _ => false) remaining.length remaining 2 with
    | none => rw [hloop] at hhunks; cases hhunks
    | some (.error e) =>
      rw [hloop] at hhunks
      rw [← Option.some.inj hhunks]
      rfl
    | some (.ok hunks) =>
      rw [hloop] at hhunks
      rw [← Option.some.inj hhunks]
      rfl

/-! ### The first faulty line -/

/-- Where a faulty line stands. -/
inductive Place where
  | header
  | chunk
deriving DecidableEq, Repr

/-- What the next line has to be. -/
inductive Expects where
  /-- The header of a hunk. -/
  | hunk
  /-- The first line of a new file. -/
  | plusLine
  /-- Another line of it, or a header. -/
  | plusLines
  /-- The target of a move, or a context. -/
  | target
  /-- The context line of a chunk. -/
  | context
  /-- A line of a chunk. -/
  | body
  /-- A context or a header. -/
  | chunkEnd
deriving DecidableEq, Repr

/-- What follows a header; nothing when the line is none or has no name. -/
def afterHeader : Option Expects :=
  let header := Text.trim line
  match markedName addFileMarker header with
  | some filename => if filename = [] then none else some .plusLine
  | none =>
    match markedName deleteFileMarker header with
    | some filename => if filename = [] then none else some .hunk
    | none =>
      match markedName updateFileMarker header with
      | some filename => if filename = [] then none else some .target
      | none => none

def isContext : Bool :=
  changeContextMarker.isPrefixOf (Text.trim line) || Text.trim line = emptyChangeContextMarker

def isPlusLine : Bool := (Text.trimEnd line).head? = some '+'

/-- A fault is on the line itself, or on the header in front of it. -/
inductive Fault where
  | here (place : Place)
  | headerBefore
deriving DecidableEq, Repr

def readHeader : Except Fault Expects :=
  match afterHeader line with
  | some next => .ok next
  | none => .error (.here .header)

def readContext : Except Fault Expects :=
  if isContext line then .ok .body else .error (.here .chunk)

def readChunkEnd : Except Fault Expects :=
  if atNextHunk [line] then readHeader line else readContext line

def Expects.read : Expects → Text → Except Fault Expects
  | .hunk, line => readHeader line
  | .plusLine, line => if isPlusLine line then .ok .plusLines else .error .headerBefore
  | .plusLines, line => if isPlusLine line then .ok .plusLines else readHeader line
  | .target, line =>
    if (markedName moveToMarker (Text.trim line)).isSome then .ok .context else readContext line
  | .context, line => readContext line
  | .body, line =>
    let trimmed := Text.trimEnd line
    if trimmed = eofMarker then .ok .chunkEnd
    else if endsChunk trimmed then readChunkEnd line
    else if (diffLine trimmed).isSome then .ok .body
    else .error (.here .chunk)
  | .chunkEnd, line => readChunkEnd line

/-- The number and the place of the first faulty line; `n` is the number of the first
    one.  A new file that has no line is the fault of its header. -/
def firstFault : Expects → (n : Nat) → List Text → Option (Nat × Place)
  | .plusLine, n, [] => some (n - 1, .header)
  | _, _, [] => none
  | expects, n, line :: rest =>
    match expects.read line with
    | .ok next => firstFault next (n + 1) rest
    | .error (.here place) => some (n, place)
    | .error .headerBefore => some (n - 1, .header)

section Faults

variable {lines : List Text} {n used : Nat}

theorem firstFault_cons (expects : Expects) (n : Nat) (line : Text) (rest : List Text) :
    firstFault expects n (line :: rest) =
      match expects.read line with
      | .ok next => firstFault next (n + 1) rest
      | .error (.here place) => some (n, place)
      | .error .headerBefore => some (n - 1, .header) := by
  cases expects <;> rfl

theorem firstFault_nil {expects : Expects} (h : expects ≠ .plusLine) (n : Nat) :
    firstFault expects n [] = none := by
  cases expects <;> first | rfl | exact absurd rfl h

/-- Two ways to read the first line the same way find the same fault. -/
theorem firstFault_congr {e e' : Expects} (he : e ≠ .plusLine) (he' : e' ≠ .plusLine)
    (hread : ∀ line ∈ lines.head?, e.read line = e'.read line) (n : Nat) :
    firstFault e n lines = firstFault e' n lines := by
  cases lines with
  | nil => rw [firstFault_nil he, firstFault_nil he']
  | cons line rest => rw [firstFault_cons, firstFault_cons, hread line rfl]

/-- A chunk error is numbered one line early: the number of the faulty line is one
    more. -/
structure ChunkErrorAt (expects : Expects) (n : Nat) (lines : List Text) (e : ParseError) :
    Prop where
  fault : ∃ message m, e = .invalidHunkError message m ∧
    firstFault expects n lines = some (m + 1, .chunk)

/-- The loop of a chunk reads up to the first line that is not part of it.  The number
    it is given belongs to the line two before its first one. -/
theorem firstFault_chunkLines (lines : List Text) (n : Nat) :
    match chunkLines lines n with
    | .ok body => firstFault .body (n + 2) lines =
        firstFault .chunkEnd (n + 2 + body.consumed) (lines.drop body.consumed)
    | .error e => ChunkErrorAt .body (n + 2) lines e := by
  induction lines generalizing n with
  | nil => rfl
  | cons line rest ih =>
    rw [chunkLines]
    by_cases heof : Text.trimEnd line = eofMarker
    · simp only [if_pos heof]
      rw [firstFault_cons, Expects.read, if_pos heof]
      rfl
    · by_cases hends : endsChunk (Text.trimEnd line) = true
      · simp only [if_neg heof, if_pos hends]
        show firstFault .body (n + 2) (line :: rest) = firstFault .chunkEnd (n + 2) (line :: rest)
        apply firstFault_congr (by decide) (by decide)
        intro l hl
        cases hl
        simp only [Expects.read, if_neg heof, if_pos hends]
      · match hdiff : diffLine (Text.trimEnd line) with
        | none =>
          simp only [if_neg heof, if_neg hends]
          refine ⟨_, _, rfl, ?_⟩
          rw [firstFault_cons]
          simp only [Expects.read, if_neg heof, if_neg hends, hdiff]
          rfl
        | some (old, new) =>
          simp only [if_neg heof, if_neg hends]
          have hread : (Expects.body).read line = .ok .body := by
            simp only [Expects.read, if_neg heof, if_neg hends, hdiff]
            rfl
          have hfirst : firstFault .body (n + 2) (line :: rest) =
              firstFault .body (n + 1 + 2) rest := by
            rw [firstFault_cons, hread]
          have hrest := ih (n + 1)
          match hbody : chunkLines rest (n + 1) with
          | .ok body =>
            rw [hbody] at hrest
            show firstFault .body (n + 2) (line :: rest) =
              firstFault .chunkEnd (n + 2 + (body.consumed + 1)) (rest.drop body.consumed)
            rw [hfirst, hrest]
            congr 1
            omega
          | .error e =>
            rw [hbody] at hrest
            obtain ⟨message, m, he, hfault⟩ := hrest.fault
            exact ⟨message, m, he, hfirst.trans hfault⟩

theorem firstFault_parseUpdateChunk (hne : lines ≠ []) (n : Nat) :
    match parseUpdateChunk lines n with
    | .ok (_, used) => firstFault .context (n + 1) lines =
        firstFault .chunkEnd (n + 1 + used) (lines.drop used)
    | .error e => ChunkErrorAt .context (n + 1) lines e := by
  match lines with
  | [] => exact absurd rfl hne
  | firstLine :: rest =>
    rw [parseUpdateChunk]
    by_cases hcontext : isContext firstLine = true
    · have hheader : (changeContextMarker.isPrefixOf (Text.trim firstLine) ||
          decide (Text.trim firstLine = emptyChangeContextMarker)) = true := hcontext
      have hread : (Expects.context).read firstLine = .ok .body := by
        simp only [Expects.read, readContext, if_pos hcontext]
      have hfirst : firstFault .context (n + 1) (firstLine :: rest) =
          firstFault .body (n + 2) rest := by
        rw [firstFault_cons, hread]
      have hrest := firstFault_chunkLines rest n
      simp only [if_pos hheader]
      match hbody : chunkLines rest n with
      | .ok body =>
        rw [hbody] at hrest
        show firstFault .context (n + 1) (firstLine :: rest) =
          firstFault .chunkEnd (n + 1 + (1 + body.consumed))
            ((firstLine :: rest).drop (1 + body.consumed))
        rw [hfirst, hrest, Nat.add_comm 1 body.consumed, List.drop_succ_cons]
        congr 1
        omega
      | .error e =>
        rw [hbody] at hrest
        obtain ⟨message, m, he, hfault⟩ := hrest.fault
        exact ⟨message, m, he, hfirst.trans hfault⟩
    · have hheader : ¬ (changeContextMarker.isPrefixOf (Text.trim firstLine) ||
          decide (Text.trim firstLine = emptyChangeContextMarker)) = true := hcontext
      simp only [if_neg hheader]
      refine ⟨_, _, rfl, ?_⟩
      rw [firstFault_cons]
      simp only [Expects.read, readContext, if_neg hcontext]

/-- Behind a chunk the loop looks for a header and goes on with a context otherwise. -/
theorem firstFault_chunkEnd (lines : List Text) (n : Nat) :
    firstFault .chunkEnd n lines =
      if atNextHunk lines then firstFault .hunk n lines else firstFault .context n lines := by
  match lines with
  | [] => rfl
  | line :: rest =>
    have hread : (Expects.chunkEnd).read line =
        if atNextHunk (line :: rest) then (Expects.hunk).read line
        else (Expects.context).read line := rfl
    by_cases hnext : atNextHunk (line :: rest) = true
    · rw [firstFault_cons, firstFault_cons, hread, if_pos hnext, if_pos hnext]
    · rw [firstFault_cons, firstFault_cons .context, hread, if_neg hnext, if_neg hnext]

theorem firstFault_parseChunks (fuel : Nat) (lines : List Text) (n : Nat)
    (hfuel : lines.length ≤ fuel) :
    match parseChunks fuel lines n with
    | .ok (_, used) => firstFault .context (n + 1) lines =
        firstFault .hunk (n + 1 + used) (lines.drop used)
    | .error e => ChunkErrorAt .context (n + 1) lines e := by
  induction fuel generalizing lines n with
  | zero =>
    rw [List.eq_nil_of_length_eq_zero (Nat.le_zero.mp hfuel)]
    rfl
  | succ fuel ih =>
    match lines with
    | [] => rfl
    | line :: rest =>
      have hchunk := firstFault_parseUpdateChunk (List.cons_ne_nil line rest) n
      match hparse : parseUpdateChunk (line :: rest) n with
      | .error e =>
        rw [hparse] at hchunk
        simp only [parseChunks, hparse]
        exact hchunk
      | .ok (chunk, used) =>
        rw [hparse] at hchunk
        have hbounds := parseUpdateChunk_bounds hparse
        simp only [parseChunks, hparse]
        simp only [firstFault_chunkEnd] at hchunk
        by_cases hnext : atNextHunk ((line :: rest).drop used) = true
        · rw [if_pos hnext] at hchunk
          simp only [if_pos hnext]
          exact hchunk
        · rw [if_neg hnext, show n + 1 + used = n + used + 1 by omega] at hchunk
          simp only [if_neg hnext]
          have hshort : ((line :: rest).drop used).length ≤ fuel := by
            rw [List.length_drop]
            omega
          have hmore := ih ((line :: rest).drop used) (n + used) hshort
          match hrest : parseChunks fuel ((line :: rest).drop used) (n + used) with
          | .ok (more, behind) =>
            rw [hrest] at hmore
            show firstFault .context (n + 1) (line :: rest) =
              firstFault .hunk (n + 1 + (used + behind)) ((line :: rest).drop (used + behind))
            rw [hchunk, hmore, List.drop_drop]
            congr 1
            omega
          | .error e =>
            rw [hrest] at hmore
            obtain ⟨message, m, he, hfault⟩ := hmore.fault
            exact ⟨message, m, he, hchunk.trans hfault⟩

/-- A header error carries the number of the header. -/
structure HeaderErrorAt (n : Nat) (lines : List Text) (e : ParseError) : Prop where
  fault : ∃ message m, e = .invalidHunkError message m ∧
    firstFault .hunk n lines = some (m, .header)

/-- The lines of a new file end at the first line without a plus sign. -/
theorem firstFault_addLines (lines : List Text) (n : Nat) :
    firstFault .plusLines n lines =
      firstFault .hunk (n + (addLines lines).length) (lines.drop (addLines lines).length) := by
  induction lines generalizing n with
  | nil => rfl
  | cons line rest ih =>
    by_cases hplus : isPlusLine line = true
    · have hhead : (Text.trimEnd line).head? = some '+' := by
        simpa [isPlusLine] using hplus
      have hadd : addLines (line :: rest) =
          (Text.trimEnd line).dropWhile (· = '+') :: addLines rest := by
        rw [addLines, if_neg, if_pos hhead]
        -- None of the markers starts with a plus sign.
        rintro (h | h | h | h) <;> (rw [h] at hhead; exact absurd hhead (by decide))
      rw [firstFault_cons, hadd]
      simp only [Expects.read, if_pos hplus, List.length_cons, List.drop_succ_cons]
      rw [ih (n + 1)]
      congr 1
      omega
    · have hadd : addLines (line :: rest) = [] := by
        rw [addLines]
        split
        · rfl
        · rw [if_neg (by simpa [isPlusLine] using hplus)]
      rw [hadd]
      show firstFault .plusLines n (line :: rest) = firstFault .hunk n (line :: rest)
      rw [firstFault_cons, firstFault_cons]
      simp only [Expects.read, if_neg hplus]

theorem addLines_eq_nil_iff (line : Text) (rest : List Text) :
    addLines (line :: rest) = [] ↔ isPlusLine line = false := by
  constructor
  · intro h
    by_contra hplus
    have hhead : (Text.trimEnd line).head? = some '+' := by
      simpa [isPlusLine] using hplus
    rw [addLines, if_neg, if_pos hhead] at h
    · exact List.cons_ne_nil _ _ h
    · rintro (hm | hm | hm | hm) <;> (rw [hm] at hhead; exact absurd hhead (by decide))
  · intro hplus
    rw [addLines]
    split
    · rfl
    · rw [if_neg (by simpa [isPlusLine] using hplus)]

theorem firstFault_target (lines : List Text) (n : Nat) :
    firstFault .target (n + 1) lines =
      firstFault .context (n + (if (moveTarget lines).isSome then 1 else 0) + 1)
        (lines.drop (if (moveTarget lines).isSome then 1 else 0)) := by
  match lines with
  | [] => rfl
  | line :: rest =>
    by_cases hmove : (markedName moveToMarker (Text.trim line)).isSome = true
    · have htarget : (moveTarget (line :: rest)).isSome = true := hmove
      rw [if_pos htarget, firstFault_cons]
      simp only [Expects.read, if_pos hmove]
      rfl
    · have htarget : ¬ (moveTarget (line :: rest)).isSome = true := hmove
      rw [if_neg htarget]
      show firstFault .target (n + 1) (line :: rest) = firstFault .context (n + 1) (line :: rest)
      apply firstFault_congr (by decide) (by decide)
      intro l hl
      cases hl
      simp only [Expects.read, if_neg hmove]

theorem firstFault_parseUpdateFile {filename : Text} (hname : filename ≠ []) (lines : List Text)
    (n : Nat) :
    match parseUpdateFile filename lines n with
    | .ok (_, used) => firstFault .target (n + 1) lines =
        firstFault .hunk (n + used) (lines.drop (used - 1))
    | .error e => ChunkErrorAt .target (n + 1) lines e := by
  have htarget := firstFault_target lines n
  rw [parseUpdateFile, if_neg hname]
  dsimp only
  generalize (if (moveTarget lines).isSome then 1 else 0) = skip at htarget ⊢
  have hchunks := firstFault_parseChunks (lines.drop skip).length (lines.drop skip) (n + skip)
    (Nat.le_refl _)
  match hparse : parseChunks (lines.drop skip).length (lines.drop skip) (n + skip) with
  | .ok (chunks, behind) =>
    rw [hparse] at hchunks
    show firstFault .target (n + 1) lines =
      firstFault .hunk (n + (1 + skip + behind)) (lines.drop (1 + skip + behind - 1))
    rw [htarget, hchunks, List.drop_drop]
    congr 1
    · omega
    · congr 1
      omega
  | .error e =>
    rw [hparse] at hchunks
    obtain ⟨message, m, he, hfault⟩ := hchunks.fault
    exact ⟨message, m, he, htarget.trans hfault⟩

theorem firstFault_parseAddFile {filename : Text} (hname : filename ≠ []) (lines : List Text)
    (n : Nat) :
    match parseAddFile filename lines n with
    | .ok (_, used) => firstFault .plusLine (n + 1) lines =
        firstFault .hunk (n + used) (lines.drop (used - 1))
    | .error e => ∃ message, e = .invalidHunkError message n ∧
        firstFault .plusLine (n + 1) lines = some (n, .header) := by
  rw [parseAddFile, if_neg hname]
  by_cases hnil : addLines lines = []
  · simp only [if_pos hnil]
    refine ⟨_, rfl, ?_⟩
    match lines with
    | [] => rfl
    | line :: rest =>
      have hplus := (addLines_eq_nil_iff line rest).mp hnil
      rw [firstFault_cons]
      simp only [Expects.read, hplus, Bool.false_eq_true, if_false]
      rfl
  · simp only [if_neg hnil]
    match lines with
    | [] => exact absurd rfl hnil
    | line :: rest =>
      have hplus : isPlusLine line = true := by
        by_contra hplus
        exact hnil ((addLines_eq_nil_iff line rest).mpr (Bool.not_eq_true _ ▸ hplus))
      -- Behind its header a new file reads like behind one of its lines.
      have hsame : firstFault .plusLine (n + 1) (line :: rest) =
          firstFault .plusLines (n + 1) (line :: rest) := by
        rw [firstFault_cons, firstFault_cons]
        simp only [Expects.read, if_pos hplus]
      rw [hsame, firstFault_addLines, Nat.add_sub_cancel_left, Nat.add_assoc]

/-- One hunk: the pass goes on behind it, or finds the line it reports. -/
theorem firstFault_parseOneHunk (hne : lines ≠ []) (n : Nat) :
    match parseOneHunk lines n with
    | .ok (_, used) => firstFault .hunk n lines = firstFault .hunk (n + used) (lines.drop used)
    | .error e => HeaderErrorAt n lines e ∨ ChunkErrorAt .hunk n lines e := by
  match lines with
  | [] => exact absurd rfl hne
  | line :: rest =>
    have hcons := firstFault_cons .hunk n line rest
    have hdrop : ∀ used, 1 ≤ used → (line :: rest).drop used = rest.drop (used - 1) := by
      intro used hused
      obtain ⟨k, rfl⟩ := Nat.exists_eq_add_of_le hused
      rw [Nat.add_comm 1 k, List.drop_succ_cons, Nat.add_sub_cancel]
    simp only [Expects.read, readHeader] at hcons
    match hadd : markedName addFileMarker (Text.trim line) with
    | some filename =>
      by_cases hname : filename = []
      · simp only [parseOneHunk, hadd, parseAddFile, if_pos hname]
        simp only [afterHeader, hadd, if_pos hname] at hcons
        exact .inl ⟨_, _, rfl, hcons⟩
      · simp only [afterHeader, hadd, if_neg hname] at hcons
        have hfile := firstFault_parseAddFile hname rest n
        simp only [parseOneHunk, hadd]
        match hparse : parseAddFile filename rest n with
        | .ok (hunk, used) =>
          rw [hparse] at hfile
          have hused := parseAddFile_bounds hparse
          show firstFault .hunk n (line :: rest) = _
          rw [hcons, hfile, hdrop used (by omega)]
        | .error e =>
          rw [hparse] at hfile
          obtain ⟨message, he, hfault⟩ := hfile
          exact .inl ⟨message, n, he, hcons.trans hfault⟩
    | none =>
      match hdelete : markedName deleteFileMarker (Text.trim line) with
      | some filename =>
        by_cases hname : filename = []
        · simp only [parseOneHunk, hadd, hdelete, parseDeleteFile, if_pos hname]
          simp only [afterHeader, hadd, hdelete, if_pos hname] at hcons
          exact .inl ⟨_, _, rfl, hcons⟩
        · simp only [parseOneHunk, hadd, hdelete, parseDeleteFile, if_neg hname]
          simp only [afterHeader, hadd, hdelete, if_neg hname] at hcons
          exact hcons
      | none =>
        match hupdate : markedName updateFileMarker (Text.trim line) with
        | some filename =>
          by_cases hname : filename = []
          · simp only [parseOneHunk, hadd, hdelete, hupdate, parseUpdateFile, if_pos hname]
            simp only [afterHeader, hadd, hdelete, hupdate, if_pos hname] at hcons
            exact .inl ⟨_, _, rfl, hcons⟩
          · simp only [afterHeader, hadd, hdelete, hupdate, if_neg hname] at hcons
            have hfile := firstFault_parseUpdateFile hname rest n
            simp only [parseOneHunk, hadd, hdelete, hupdate]
            match hparse : parseUpdateFile filename rest n with
            | .ok (hunk, used) =>
              rw [hparse] at hfile
              show firstFault .hunk n (line :: rest) = _
              rw [hcons, hfile, hdrop used (parseUpdateFile_bounds hparse).1]
            | .error e =>
              rw [hparse] at hfile
              obtain ⟨message, m, he, hfault⟩ := hfile.fault
              exact .inr ⟨message, m, he, hcons.trans hfault⟩
        | none =>
          simp only [parseOneHunk, hadd, hdelete, hupdate]
          simp only [afterHeader, hadd, hdelete, hupdate] at hcons
          exact .inl ⟨_, _, rfl, hcons⟩

/-- All hunks: no fault, or the error of the first one. -/
theorem firstFault_parseHunks (fuel : Nat) (lines : List Text) (n : Nat)
    (hfuel : lines.length ≤ fuel) :
    match parseHunks fuel lines n with
    | .ok _ => firstFault .hunk n lines = none
    | .error e => HeaderErrorAt n lines e ∨ ChunkErrorAt .hunk n lines e := by
  induction fuel generalizing lines n with
  | zero =>
    rw [List.eq_nil_of_length_eq_zero (Nat.le_zero.mp hfuel)]
    rfl
  | succ fuel ih =>
    match lines with
    | [] => rfl
    | line :: rest =>
      have hhunk := firstFault_parseOneHunk (List.cons_ne_nil line rest) n
      match hparse : parseOneHunk (line :: rest) n with
      | .error e =>
        rw [hparse] at hhunk
        simp only [parseHunks, hparse]
        exact hhunk
      | .ok (hunk, used) =>
        rw [hparse] at hhunk
        have hbounds := parseOneHunk_bounds hparse
        have hshort : ((line :: rest).drop used).length ≤ fuel := by
          rw [List.length_drop]
          omega
        have hmore := ih ((line :: rest).drop used) (n + used) hshort
        simp only [parseHunks, hparse]
        match hrest : parseHunks fuel ((line :: rest).drop used) (n + used) with
        | .ok more =>
          rw [hrest] at hmore
          show firstFault .hunk n (line :: rest) = none
          exact hhunk.trans hmore
        | .error e =>
          rw [hrest] at hmore
          match hmore with
          | .inl ⟨message, m, he, hfault⟩ => exact .inl ⟨message, m, he, hhunk.trans hfault⟩
          | .inr ⟨message, m, he, hfault⟩ => exact .inr ⟨message, m, he, hhunk.trans hfault⟩

end Faults

/-! ### Numbers of the input -/

/-- The lines between the markers. -/
def patchBody (patch : Text) : List Text :=
  let lines := Text.lines (Text.trim patch)
  (lines.take (lines.length - 1)).drop 1

/-- The lines in front of the patch: the line feeds in the white space it starts with. -/
def linesBefore (patch : Text) : Nat := (patch.takeWhile Text.isWhitespace).count '\n'

/-- The number of the first faulty line in the input.  The line of the begin marker is
    line 1 of the trimmed text. -/
def offendingLine (patch : Text) : Option Nat :=
  (firstFault .hunk 2 (patchBody patch)).map fun fault => linesBefore patch + fault.1

/-- What is read, and what is said about what is not. -/
structure ParsesExactly (patch : Text) : Prop where
  total : checkedPatchText patch .lenient = some (parsePatch patch)
  hunkStep : ∀ lines n hunk used, parseOneHunk lines n = .ok (hunk, used) →
    1 ≤ used ∧ used ≤ lines.length
  chunkStep : ∀ lines n chunk used, parseUpdateChunk lines n = .ok (chunk, used) →
    1 ≤ used ∧ used ≤ lines.length
  allLines : ∀ args, parsePatch patch = .ok args → ∃ steps,
    hunkLoop (patchBody patch) = some (.ok steps) ∧ steps.map Prod.fst = args.hunks ∧
      (steps.map Prod.snd).sum = (patchBody patch).length
  lineNumber : ∀ message m, parsePatch patch = .error (.invalidHunkError message m) →
    offendingLine patch = some m

/-- The first faulty line is the header of a hunk, and the patch starts on the first
    line. -/
def FaultsInHeaders (patch : Text) : Prop :=
  checkPatchBoundariesStrict (Text.lines (Text.trim patch)) = .ok () →
    ∀ m place, firstFault .hunk 2 (patchBody patch) = some (m, place) →
      place = .header ∧ linesBefore patch = 0

theorem parsePatch_eq (patch : Text) :
    parsePatch patch = (checkPatchBoundariesStrict (Text.lines (Text.trim patch))).bind fun _ =>
      (parseHunks (patchBody patch).length (patchBody patch) 2).map fun hunks =>
        { patch := ['\n'].intercalate (Text.lines (Text.trim patch)), hunks := hunks,
          workdir := none } := by
  rw [parsePatch, parsePatchText, boundedLines_lines]
  match checkPatchBoundariesStrict (Text.lines (Text.trim patch)) with
  | .ok () => rfl
  | .error e => rfl

theorem allLines_of_ok {patch : Text} {args : ApplyPatchArgs} (h : parsePatch patch = .ok args) :
    ∃ steps, hunkLoop (patchBody patch) = some (.ok steps) ∧ steps.map Prod.fst = args.hunks ∧
      (steps.map Prod.snd).sum = (patchBody patch).length := by
  rw [parsePatch_eq] at h
  match hcheck : checkPatchBoundariesStrict (Text.lines (Text.trim patch)) with
  | .error e => rw [hcheck] at h; cases h
  | .ok () =>
    rw [hcheck] at h
    have hloop := parseHunks_eq (n := 2) (Nat.le_refl (patchBody patch).length)
    match hhunks : parseHunks (patchBody patch).length (patchBody patch) 2 with
    | .error e => simp only [Except.bind, hhunks] at h; cases h
    | .ok hunks =>
      simp only [Except.bind, hhunks] at h
      cases h
      rw [hhunks] at hloop
      match hsteps : loop checkedOneHunk (fun _ => false) (patchBody patch).length
          (patchBody patch) 2 with
      | none => rw [hsteps] at hloop; cases hloop
      | some (.error e) => rw [hsteps] at hloop; cases hloop
      | some (.ok steps) =>
        rw [hsteps] at hloop
        have hfst : Except.ok (steps.map Prod.fst) = (Except.ok hunks : Except ParseError _) :=
          Option.some.inj hloop
        exact ⟨steps, hsteps, Except.ok.inj hfst, sum_loop checkedOneHunk_progress hsteps⟩

/-- The error of the boundaries is not one of a hunk. -/
theorem boundaries_error {lines : List Text} {message : Text} {m : Nat} :
    checkPatchBoundariesStrict lines ≠ .error (.invalidHunkError message m) := by
  intro h
  rw [checkPatchBoundariesStrict, checkStartAndEndLinesStrict] at h
  split at h
  · cases h
  · split at h
    · cases h
    · split at h <;> cases h

/-- The parser ends, stays inside its slices and takes every line once, and the line
    it reports is the faulty one exactly when that is a header and no line is in front
    of the patch. -/
theorem parser_exact_iff (patch : Text) : ParsesExactly patch ↔ FaultsInHeaders patch := by
  have hfault := firstFault_parseHunks (patchBody patch).length (patchBody patch) 2
    (Nat.le_refl _)
  constructor
  · intro h hcheck m place hfirst
    match hhunks : parseHunks (patchBody patch).length (patchBody patch) 2 with
    | .ok hunks =>
      rw [hhunks] at hfault
      rw [hfault] at hfirst
      cases hfirst
    | .error e =>
      have hparse : parsePatch patch = .error e := by
        rw [parsePatch_eq, hcheck]
        simp only [Except.bind, hhunks]
        rfl
      rw [hhunks] at hfault
      match hfault with
      | .inl ⟨message, k, he, hk⟩ =>
        have hline := h.lineNumber message k (by rw [hparse, he])
        rw [offendingLine, hk] at hline
        have hnumber : linesBefore patch + k = k := Option.some.inj hline
        rw [hk] at hfirst
        cases hfirst
        exact ⟨rfl, by omega⟩
      | .inr ⟨message, k, he, hk⟩ =>
        -- The number is too small already in the trimmed text.
        have hline := h.lineNumber message k (by rw [hparse, he])
        rw [offendingLine, hk] at hline
        have hnumber : linesBefore patch + (k + 1) = k := Option.some.inj hline
        omega
  · intro h
    refine ⟨checkedPatchText_eq patch .lenient, ?_, ?_, ?_, ?_⟩
    · exact fun lines n hunk used hok => parseOneHunk_bounds hok
    · exact fun lines n chunk used hok => parseUpdateChunk_bounds hok
    · exact fun args hok => allLines_of_ok hok
    · intro message m herror
      rw [parsePatch_eq] at herror
      match hcheck : checkPatchBoundariesStrict (Text.lines (Text.trim patch)) with
      | .error e =>
        rw [hcheck] at herror
        cases herror
        exact absurd hcheck boundaries_error
      | .ok () =>
        rw [hcheck] at herror
        match hhunks : parseHunks (patchBody patch).length (patchBody patch) 2 with
        | .ok hunks => simp only [Except.bind, hhunks] at herror; cases herror
        | .error e =>
          simp only [Except.bind, hhunks] at herror
          cases herror
          rw [hhunks] at hfault
          match hfault with
          | .inl ⟨message', k, he, hk⟩ =>
            cases he
            have hbefore := (h hcheck _ _ hk).2
            rw [offendingLine, hk, Option.map_some, hbefore, Nat.zero_add]
          | .inr ⟨message', k, he, hk⟩ => exact absurd (h hcheck _ _ hk).1 (by decide)

/-- A chunk without its context line. -/
def missingContext : Text :=
  "*** Begin Patch\n*** Update File: a\nfoo\n*** End Patch".toList

/-- Line 3 is faulty, line 2 is reported. -/
theorem chunk_reported_early :
    parsePatch missingContext =
      .error (.invalidHunkError "missing @@ context header".toList 2) ∧
    offendingLine missingContext = some 3 ∧ ¬ ParsesExactly missingContext := by
  have hparse : parsePatch missingContext =
      .error (.invalidHunkError "missing @@ context header".toList 2) := by decide +kernel
  have hline : offendingLine missingContext = some 3 := by decide +kernel
  refine ⟨hparse, hline, ?_⟩
  intro h
  have hreported := h.lineNumber _ _ hparse
  rw [hline] at hreported
  exact absurd hreported (by decide)

end Canon.Patch
