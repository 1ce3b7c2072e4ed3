import Canon.Lib.Text

/-! # The patch parser

    `parser.rs`: a patch is a list of hunks between a begin and an end marker, read
    line by line.  Lines are trimmed before they are looked at, and every part
    reports how many lines it took.
-/

namespace Canon.Patch

variable (lines : List Text)

/-! ### Markers -/

def beginPatchMarker : Text := "*** Begin Patch".toList

def endPatchMarker : Text := "*** End Patch".toList

def addFileMarker : Text := "*** Add File: ".toList

def deleteFileMarker : Text := "*** Delete File: ".toList

def updateFileMarker : Text := "*** Update File: ".toList

def moveToMarker : Text := "*** Move to: ".toList

def eofMarker : Text := "*** End of File".toList

def changeContextMarker : Text := "@@ ".toList

def emptyChangeContextMarker : Text := "@@".toList

/-! ### Data -/

inductive ParseError where
  | invalidPatchError (message : Text)
  | invalidHunkError (message : Text) (lineNumber : Nat)
deriving DecidableEq, Repr

structure UpdateFileChunk where
  changeContext : Option Text
  oldLines : List Text
  newLines : List Text
  isEndOfFile : Bool
deriving DecidableEq, Repr

inductive Hunk where
  | addFile (path contents : Text)
  | deleteFile (path : Text)
  | updateFile (path : Text) (movePath : Option Text) (chunks : List UpdateFileChunk)
deriving DecidableEq, Repr

structure ApplyPatchArgs where
  patch : Text
  hunks : List Hunk
  workdir : Option Text
deriving DecidableEq, Repr

/-! ### Chunks -/

/-- What one line of a chunk adds to the old and to the new lines.  A blank line is
    a blank line on both sides. -/
def diffLine (trimmed : Text) : Option (List Text × List Text) :=
  match trimmed with
  | '+' :: rest => some ([], [rest])
  | '-' :: rest => some ([rest], [])
  | ' ' :: rest => some ([rest], [rest])
  | [] => some ([[]], [[]])
  | _ => none

/-- The next chunk or the next hunk. -/
def endsChunk (trimmed : Text) : Bool :=
  emptyChangeContextMarker.isPrefixOf trimmed || addFileMarker.isPrefixOf trimmed ||
    deleteFileMarker.isPrefixOf trimmed || updateFileMarker.isPrefixOf trimmed

/-- What the loop of a chunk has read, and how many lines it took. -/
structure ChunkBody where
  oldLines : List Text
  newLines : List Text
  isEndOfFile : Bool
  consumed : Nat
deriving DecidableEq, Repr

def ChunkBody.empty : ChunkBody where
  oldLines := []
  newLines := []
  isEndOfFile := false
  consumed := 0

/-- The lines of a chunk; `lineNumber` is the number of the line before them. -/
def chunkLines : List Text → (lineNumber : Nat) → Except ParseError ChunkBody
  | [], _ => .ok .empty
  | line :: rest, lineNumber =>
    let trimmed := Text.trimEnd line
    -- The marker is the only one that is part of the chunk.
    if trimmed = eofMarker then .ok { ChunkBody.empty with isEndOfFile := true, consumed := 1 }
    else if endsChunk trimmed then .ok .empty
    else
      match diffLine trimmed with
      | none =>
        .error (.invalidHunkError ("unexpected line in update chunk: ".toList ++ trimmed)
          (lineNumber + 1))
      | some (old, new) =>
        (chunkLines rest (lineNumber + 1)).map fun body =>
          { body with
            oldLines := old ++ body.oldLines
            newLines := new ++ body.newLines
            consumed := body.consumed + 1 }

def parseUpdateChunk (startingLineNumber : Nat) :
    Except ParseError (UpdateFileChunk × Nat) :=
  match lines with
  | [] => .error (.invalidHunkError "missing update chunk".toList startingLineNumber)
  | firstLine :: rest =>
    let header := Text.trim firstLine
    if changeContextMarker.isPrefixOf header || header = emptyChangeContextMarker then
      -- A bare `@@` has no context.
      let ctx := Text.trim ((Text.stripPrefix? changeContextMarker header).getD [])
      (chunkLines rest startingLineNumber).map fun body =>
        ({ changeContext := if ctx = [] then none else some ctx
           oldLines := body.oldLines
           newLines := body.newLines
           isEndOfFile := body.isEndOfFile },
          1 + body.consumed)
    else .error (.invalidHunkError "missing @@ context header".toList startingLineNumber)

/-- No line is left, or the next one is the header of a hunk. -/
def atNextHunk (remaining : List Text) : Bool :=
  match remaining with
  | [] => true
  | line :: _ =>
    let header := Text.trim line
    addFileMarker.isPrefixOf header || deleteFileMarker.isPrefixOf header ||
      updateFileMarker.isPrefixOf header

/-- Chunks up to the next hunk.  Each takes at least a line, so the number of lines
    is enough fuel.  The loop looks for the next hunk only behind a chunk. -/
def parseChunks : (fuel : Nat) → List Text → (lineNumber : Nat) →
    Except ParseError (List UpdateFileChunk × Nat)
  | _, [], _ => .ok ([], 0)
  | 0, _, _ => .ok ([], 0)
  | fuel + 1, lines, lineNumber =>
    match parseUpdateChunk lines lineNumber with
    | .error e => .error e
    | .ok (chunk, usedLines) =>
      let remaining := lines.drop usedLines
      if atNextHunk remaining then .ok ([chunk], usedLines)
      else
        (parseChunks fuel remaining (lineNumber + usedLines)).map fun more =>
          (chunk :: more.1, usedLines + more.2)

/-! ### Hunks -/

/-- The lines of a new file, without their plus signs. -/
def addLines : List Text → List Text
  | [] => []
  | line :: rest =>
    let trimmed := Text.trimEnd line
    -- No trimmed line equals one of the first three, which end in a space; they
    -- end the loop below because they do not start with a plus sign.
    if trimmed = addFileMarker ∨ trimmed = deleteFileMarker ∨ trimmed = updateFileMarker ∨
        trimmed = eofMarker then []
    -- All plus signs go, not only the one of the syntax.
    else if trimmed.head? = some '+' then trimmed.dropWhile (· = '+') :: addLines rest
    else []

def fileContents : Text := ['\n'].intercalate lines ++ ['\n']

/-- The name behind a marker. -/
def markedName (marker header : Text) : Option Text :=
  (Text.stripPrefix? marker header).map Text.trim

def parseAddFile (filename : Text) (lines : List Text) (lineNumber : Nat) :
    Except ParseError (Hunk × Nat) :=
  if filename = [] then .error (.invalidHunkError "missing filename for Add File".toList lineNumber)
  else
    let contents := addLines lines
    if contents = [] then
      .error (.invalidHunkError "Add File hunk requires at least one + line".toList lineNumber)
    else .ok (.addFile filename (fileContents contents), 1 + contents.length)

def parseDeleteFile (filename : Text) (lineNumber : Nat) : Except ParseError (Hunk × Nat) :=
  if filename = [] then
    .error (.invalidHunkError "missing filename for Delete File".toList lineNumber)
  else .ok (.deleteFile filename, 1)

/-- The move target, if the next line has one. -/
def moveTarget : Option Text :=
  lines.head?.bind fun line => markedName moveToMarker (Text.trim line)

/-- `lineNumber` is the number of the header.  It only goes up for the move target,
    so the first chunk is reported one line early. -/
def parseUpdateFile (filename : Text) (lines : List Text) (lineNumber : Nat) :
    Except ParseError (Hunk × Nat) :=
  if filename = [] then
    .error (.invalidHunkError "missing filename for Update File".toList lineNumber)
  else
    let movePath := moveTarget lines
    let skip := if movePath.isSome then 1 else 0
    let remaining := lines.drop skip
    (parseChunks remaining.length remaining (lineNumber + skip)).map fun parsed =>
      (.updateFile filename movePath parsed.1, 1 + skip + parsed.2)

def parseOneHunk (startingLineNumber : Nat) :
    Except ParseError (Hunk × Nat) :=
  match lines with
  | [] => .error (.invalidPatchError "missing hunk".toList)
  | firstLine :: rest =>
    let header := Text.trim firstLine
    match markedName addFileMarker header with
    | some filename => parseAddFile filename rest startingLineNumber
    | none =>
      match markedName deleteFileMarker header with
      | some filename => parseDeleteFile filename startingLineNumber
      | none =>
        match markedName updateFileMarker header with
        | some filename => parseUpdateFile filename rest startingLineNumber
        | none =>
          .error (.invalidHunkError "expected Add/Delete/Update hunk".toList startingLineNumber)

/-- Each hunk takes at least a line, so the number of lines is enough fuel. -/
def parseHunks : (fuel : Nat) → List Text → (lineNumber : Nat) → Except ParseError (List Hunk)
  | _, [], _ => .ok []
  | 0, _, _ => .ok []
  | fuel + 1, lines, lineNumber =>
    match parseOneHunk lines lineNumber with
    | .error e => .error e
    | .ok (hunk, hunkLines) =>
      (parseHunks fuel (lines.drop hunkLines) (lineNumber + hunkLines)).map (hunk :: ·)

/-! ### Patches -/

inductive ParseMode where
  | strict
  | lenient
deriving DecidableEq, Repr

def checkStartAndEndLinesStrict (first last : Option Text) : Except ParseError Unit :=
  if first.map Text.trim = some beginPatchMarker ∧ last.map Text.trim = some endPatchMarker then
    .ok ()
  else if first.isSome ∧ first.map Text.trim ≠ some beginPatchMarker then
    .error (.invalidPatchError ("patch should start with ".toList ++ beginPatchMarker))
  else if last.isSome ∧ last.map Text.trim ≠ some endPatchMarker then
    .error (.invalidPatchError ("patch should end with ".toList ++ endPatchMarker))
  else .error (.invalidPatchError "patch is empty".toList)

def checkPatchBoundariesStrict : Except ParseError Unit :=
  checkStartAndEndLinesStrict lines.head? lines.getLast?

/-- What is in front of the first line feed and behind it. -/
def splitOnce (s : Text) : Text × Text :=
  match s.dropWhile (· ≠ '\n') with
  | [] => (s, [])
  | _ :: rest => (s.takeWhile (· ≠ '\n'), rest)

/-- A patch inside a here-document. -/
def checkPatchBoundariesLenient (strictError : ParseError) :
    Except ParseError (List Text) :=
  if lines.length < 4 then .error strictError
  else
    let first := splitOnce (lines.head?.getD [])
    let last := splitOnce (lines.getLast?.getD [])
    let looksLikeHeredoc := "<<".toList.isPrefixOf (Text.trim first.1) &&
      "EOF".toList.isSuffixOf (Text.trim last.2)
    if looksLikeHeredoc && Text.contains beginPatchMarker first.2 &&
        Text.contains endPatchMarker last.1 then
      let firstIdx := (lines.findIdx? (Text.contains beginPatchMarker)).getD 0
      let lastIdx := lines.length - 1 -
        (lines.reverse.findIdx? (Text.contains endPatchMarker)).getD 0
      .ok ((lines.take (lastIdx + 1)).drop firstIdx)
    else .error strictError

/-- The lines between the markers, with the markers. -/
def boundedLines (mode : ParseMode) : Except ParseError (List Text) :=
  match checkPatchBoundariesStrict lines, mode with
  | .ok (), _ => .ok lines
  | .error e, .strict => .error e
  | .error e, .lenient => checkPatchBoundariesLenient lines e

def parsePatchText (patch : Text) (mode : ParseMode) : Except ParseError ApplyPatchArgs :=
  match boundedLines (Text.lines (Text.trim patch)) mode with
  | .error e => .error e
  | .ok lines =>
    -- The two markers are not part of what is parsed.
    let remaining := (lines.take (lines.length - 1)).drop 1
    (parseHunks remaining.length remaining 2).map fun hunks =>
      { patch := ['\n'].intercalate lines, hunks := hunks, workdir := none }

def parsePatch (patch : Text) : Except ParseError ApplyPatchArgs := parsePatchText patch .lenient

end Canon.Patch
