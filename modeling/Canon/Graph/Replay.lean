import Canon.Tlog.Segment
import Canon.Graph.Snapshot

/-! # Full and incremental replay

    `replay_graph_from_tlog`, `replay_graph_from_tlog_incremental` and
    `replay_events_from_offset` of `replay.rs` with the session scan of
    `session_scan.rs`, on the bytes of a log file.

    A full replay of a JSON lines log starts at the last session that defines a
    node or an edge and ends in front of the next session.  The incremental one
    goes on from a snapshot and starts over at every session it meets.
-/

namespace Canon.Graph

open Canon.Tlog

variable (S : GraphSerde)

/-! ### Events of a line -/

/-- The JSON library, with what it makes of the data of a code event. -/
structure GraphSerde extends Serde where
  parseRustcEventValue : Json → Option RustcEvent

def parseAnyEvent (line : Text) : Option CanonEvent :=
  let trimmed := Text.trim line
  if trimmed = [] then none
  else
    (S.fromStr trimmed).or
      ((S.legacyFromStr trimmed).map (upgradeLegacyEvent S.toSerde trimmed))

def extractRustcEvent (canon : CanonEvent) : Option RustcEvent :=
  if canon.kind = .code then S.parseRustcEventValue canon.payload.data else none

/-- The code event of a line, if it holds one. -/
def GraphSerde.eventOf (line : Text) : Option RustcEvent :=
  (parseAnyEvent S line).bind (extractRustcEvent S)

def RustcEvent.isSessionStart : RustcEvent → Bool
  | .sessionStart _ => true
  | _ => false

/-- The events that make a session one with a graph. -/
def RustcEvent.definesGraph : RustcEvent → Bool
  | .nodeDefined .. | .edgeDefined .. => true
  | _ => false

/-! ### The session scan -/

structure ScanState where
  offset : Nat
  currentSessionOffset : Option Nat
  currentHasGraph : Bool
  lastWithGraph : Option Nat

def ScanState.init : ScanState where
  offset := 0
  currentSessionOffset := none
  currentHasGraph := false
  lastWithGraph := none

/-- The last session with a graph, the current one counted. -/
def ScanState.close (st : ScanState) : Option Nat :=
  if st.currentHasGraph then st.currentSessionOffset.or st.lastWithGraph else st.lastWithGraph

def scanLine (st : ScanState) (line : Text) : ScanState :=
  let next := { st with offset := st.offset + (utf8Len line + 1) }
  match S.eventOf line with
  | none => next
  | some event =>
    if event.isSessionStart then
      { next with
        -- The session that ends here counts if it has a graph.
        lastWithGraph := st.close
        currentSessionOffset := some st.offset
        currentHasGraph := false }
    else if event.definesGraph then { next with currentHasGraph := true }
    else next

/-- No offset when some line cannot be read. -/
def findLastGraphSessionOffset (bytes : Bytes) : Option Nat :=
  ((bufLines bytes).mapM id).bind fun lines => (lines.foldl (scanLine S) .init).close

/-! ### The replay loop -/

structure Replay where
  state : GraphState
  seenSession : Bool
  eventsAdded : Nat

def Replay.start (state : GraphState) : Replay where
  state := state
  seenSession := false
  eventsAdded := 0

/-- One event of the loop; `none` ends it. -/
def replayEvent (stopAfterSession : Bool) (r : Replay) (event : RustcEvent) : Option Replay :=
  if event.isSessionStart && r.seenSession && stopAfterSession then none
  else
    -- Every session that is taken clears the graph.
    let applied := applyRustcEventToGraph event r.state true
    some
      { state := applied.2
        seenSession := r.seenSession || event.isSessionStart
        eventsAdded := if applied.1 then r.eventsAdded + 1 else r.eventsAdded }

/-- A line that cannot be read is an error of the replay, unless the loop ended
    before it. -/
def replayLines (S : GraphSerde) (stopAfterSession : Bool) :
    List (Option Text) → Replay → Option Replay
  | [], r => some r
  | none :: _, _ => none
  | some line :: rest, r =>
    match S.eventOf line with
    | none => replayLines S stopAfterSession rest r
    | some event =>
      match replayEvent stopAfterSession r event with
      | none => some r
      | some r' => replayLines S stopAfterSession rest r'

/-- Everything in a binary log counts, and sessions do not clear the graph. -/
def replayBinary (bytes : Bytes) : CodeGraphProjection :=
  let events := (readBinaryEvents S.toSerde bytes).filterMap (extractRustcEvent S)
  (graphMachine.run .empty (events.map (·, false))).graph

/-- `lastSessionOffset` is the entry of the side file `tlog.idx`, if there is one. -/
def replayGraphFromTlog (lastSessionOffset : Option Nat) (bytes : Bytes) :
    Option CodeGraphProjection :=
  if isBinaryMagic bytes then some (replayBinary S bytes)
  else
    -- The loop only stops at a second session when it started at one.
    let found := (findLastGraphSessionOffset S bytes).or lastSessionOffset
    let lines := bufLines (bytes.drop (found.getD 0))
    (replayLines S found.isSome lines (.start .empty)).map (·.state.graph)

/-- The part of `replay_events_from_offset` for JSON lines.  It decodes lossily,
    so no line is an error. -/
def replayEventsFromOffset (bytes : Bytes) (startOffset : Nat) (state : GraphState)
    (stopAfterSession : Bool) : Option Replay :=
  let offset := min startOffset bytes.length
  let lines := (rawLines (bytes.drop offset)).map fun line => some (fromUtf8Lossy line)
  replayLines S stopAfterSession lines (.start state)

/-! ### Incremental replay -/

/-- The graph of a usable snapshot and the offset to go on from.  A snapshot
    without nodes and edges counts as none. -/
def snapshotBase (snapshotMeta : Option SnapshotMeta) (snapshot : Option CodeSnapshot) :
    GraphState × Nat :=
  match snapshotMeta, snapshot with
  | some info, some snapshot =>
    if info.version = 2 then
      let graph := snapshotIntoRows snapshot
      if graph.nodes.isEmpty && graph.edges.isEmpty then (.empty, 0)
      -- The rebuilt index does not leave out the empty symbol.
      else ({ graph := graph, symbolToId := rebuildSymbolIndex graph.nodes }, info.tlogOffset)
    else (.empty, 0)
  | _, _ => (.empty, 0)

/-- The two files of the snapshot are `none` when they are missing or unreadable. -/
def replayGraphFromTlogIncremental (lastSessionOffset : Option Nat) (bytes : Bytes)
    (snapshotMeta : Option SnapshotMeta) (snapshot : Option CodeSnapshot) :
    Option CodeGraphProjection :=
  if isBinaryMagic bytes then replayGraphFromTlog S lastSessionOffset bytes
  else
    let base := snapshotBase snapshotMeta snapshot
    -- Behind a snapshot there is no scan, and no session ends the loop.
    let found := if base.2 = 0 then findLastGraphSessionOffset S bytes else none
    (replayEventsFromOffset S bytes (found.getD base.2) base.1 found.isSome).map (·.state.graph)

end Canon.Graph
