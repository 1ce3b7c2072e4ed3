import Canon.Graph.Formats

/-! # Replay of one crate

    `replay_graph_for_crate` of `replay.rs`.  A log holds the sessions of several
    crates.  One pass with a flag collects the graph of one crate: it starts over
    at each of the crate's sessions and looks away during the others.
-/

namespace Canon.Graph

open Canon.Tlog

variable (crateName : String) (es : List RustcEvent)

/-! ### Reading a log -/

/-- A directory of segments or a single file. -/
inductive EventLog where
  | directory (files : FileTable)
  | file (bytes : Bytes)

/-- The events of a file.  A file of lines with a line that is no text is read as a
    binary one. -/
def readAnyEvents (S : GraphSerde) (bytes : Bytes) : List CanonEvent :=
  if isBinaryMagic bytes then readBinaryEvents S.toSerde bytes
  else
    match (bufLines bytes).mapM id with
    | none => readBinaryEvents S.toSerde bytes
    | some lines => lines.filterMap (parseAnyEvent S)

def EventLog.events (S : GraphSerde) : EventLog → List CanonEvent
  | directory files => readAnyEventsFromPath S.toSerde files
  | file bytes => readAnyEvents S bytes

/-- The code events of a log. -/
def EventLog.code (S : GraphSerde) (log : EventLog) : List RustcEvent :=
  (log.events S).filterMap (extractRustcEvent S)

/-! ### The pass over the log -/

structure CrateReplay where
  state : GraphState
  inTarget : Bool

def CrateReplay.start : CrateReplay := ⟨.empty, false⟩

def CrateReplay.take (r : CrateReplay) (event : RustcEvent) : CrateReplay :=
  match event with
  | .sessionStart project =>
    -- A fresh session of the crate clears the data of the one before.
    if project = crateName then { state := .empty, inTarget := true }
    else { r with inTarget := false }
  | event =>
    if r.inTarget then { r with state := (applyRustcEventToGraph event r.state false).2 } else r

def replayGraphForCrate (S : GraphSerde) (log : EventLog) (crateName : String) :
    CodeGraphProjection :=
  ((log.code S).foldl (CrateReplay.take crateName) .start).state.graph

/-! ### Sessions -/

/-- The sessions of a log, each with its project and the events strictly between its
    start and the next one. -/
def sessions : List RustcEvent → List (String × List RustcEvent)
  | [] => []
  | .sessionStart project :: es =>
    (project, es.takeWhile fun e => !e.isSessionStart) :: sessions es
  | _ :: es => sessions es

/-- The sessions of one crate. -/
def sessionsOf : List (List RustcEvent) :=
  ((sessions es).filter (·.1 = crateName)).map (·.2)

/-- The projection after some events, from the empty one. -/
def projectionOf : CodeGraphProjection :=
  (graphMachine.run .empty (es.map (·, false))).graph

theorem sessionsOf_start :
    sessionsOf crateName (.sessionStart crateName :: es) =
      es.takeWhile (fun e => !e.isSessionStart) :: sessionsOf crateName es := by
  simp [sessionsOf, sessions]

theorem sessionsOf_start_of_ne {crateName project : String} (h : project ≠ crateName)
    (es : List RustcEvent) :
    sessionsOf crateName (.sessionStart project :: es) = sessionsOf crateName es := by
  simp [sessionsOf, sessions, h]

theorem sessionsOf_cons {e : RustcEvent} (h : e.isSessionStart = false) (crateName : String)
    (es : List RustcEvent) : sessionsOf crateName (e :: es) = sessionsOf crateName es := by
  cases e with
  | sessionStart project => simp [RustcEvent.isSessionStart] at h
  | _ => rfl

/-- The pass from any state: the last session of the crate decides, and without one
    the open session goes on to the next start. -/
theorem foldl_take (r : CrateReplay) :
    (es.foldl (CrateReplay.take crateName) r).state =
      match (sessionsOf crateName es).getLast? with
      | some inside => graphMachine.run .empty (inside.map (·, false))
      | none =>
        if r.inTarget then
          graphMachine.run r.state ((es.takeWhile fun e => !e.isSessionStart).map (·, false))
        else r.state := by
  induction es generalizing r with
  | nil => simp [sessionsOf, sessions]
  | cons e es ih =>
    rw [List.foldl_cons, ih]
    by_cases hstart : e.isSessionStart = true
    · cases e with
      | sessionStart project =>
        by_cases hproject : project = crateName
        · subst hproject
          have htake : r.take project (.sessionStart project) = ⟨.empty, true⟩ := by
            simp [CrateReplay.take]
          rw [htake, sessionsOf_start, List.getLast?_cons]
          cases (sessionsOf project es).getLast? with
          | none => simp
          | some inside => simp
        · have htake : r.take crateName (.sessionStart project) = { r with inTarget := false } := by
            simp [CrateReplay.take, hproject]
          rw [htake, sessionsOf_start_of_ne hproject]
          cases (sessionsOf crateName es).getLast? with
          | none => simp [RustcEvent.isSessionStart]
          | some inside => simp
      | _ => simp [RustcEvent.isSessionStart] at hstart
    · have hno : e.isSessionStart = false := by simpa using hstart
      have htake : r.take crateName e =
          if r.inTarget then { r with state := (applyRustcEventToGraph e r.state false).2 }
          else r := by
        cases e with
        | sessionStart project => simp [RustcEvent.isSessionStart] at hno
        | _ => rfl
      rw [htake, sessionsOf_cons hno]
      cases (sessionsOf crateName es).getLast? with
      | some inside => rfl
      | none =>
        by_cases htarget : r.inTarget = true
        · simp [htarget, hno, graphMachine]
        · simp [htarget]

/-- **The replay of a crate is about its last session alone**: it is the projection of
    the events of that session, so logs with the same last session of the crate give
    the same graph, whatever the other crates did and wherever they did it. -/
theorem crate_replay_isolated (S : GraphSerde) (log : EventLog) (crateName : String) :
    replayGraphForCrate S log crateName =
        projectionOf ((sessionsOf crateName (log.code S)).getLast?.getD []) ∧
      ∀ log' : EventLog,
        (sessionsOf crateName (log.code S)).getLast? =
          (sessionsOf crateName (log'.code S)).getLast? →
        replayGraphForCrate S log crateName = replayGraphForCrate S log' crateName := by
  have hreplay : ∀ log : EventLog, replayGraphForCrate S log crateName =
      projectionOf ((sessionsOf crateName (log.code S)).getLast?.getD []) := by
    intro log
    rw [replayGraphForCrate, foldl_take]
    cases (sessionsOf crateName (log.code S)).getLast? with
    | none => rfl
    | some inside => rfl
  refine ⟨hreplay log, ?_⟩
  intro log' hsame
  rw [hreplay log, hreplay log', hsame]

/-- A session of crate `q` does not show in the graph of crate `p`. -/
theorem crate_replay_isolated_sample :
    (sessionsOf "p" ((EventLog.directory (sampleFiles 2)).code sampleGraphSerde)).getLast? =
        (sessionsOf "p" ((EventLog.directory (sampleFiles 4)).code sampleGraphSerde)).getLast? ∧
      replayGraphForCrate sampleGraphSerde (.directory (sampleFiles 2)) "p" =
        replayGraphForCrate sampleGraphSerde (.directory (sampleFiles 4)) "p" := by
  have hcode : ∀ n, (EventLog.directory (sampleFiles n)).code sampleGraphSerde =
      ((sampleLog.take n).map (·.1)).filterMap (extractRustcEvent sampleGraphSerde) := by
    intro n
    rw [EventLog.code, EventLog.events, sampleFiles_events]
  have hsame :
      (sessionsOf "p" ((EventLog.directory (sampleFiles 2)).code sampleGraphSerde)).getLast? =
        (sessionsOf "p" ((EventLog.directory (sampleFiles 4)).code sampleGraphSerde)).getLast? := by
    rw [hcode 2, hcode 4]
    decide +kernel
  exact ⟨hsame, (crate_replay_isolated sampleGraphSerde _ "p").2 _ hsame⟩

end Canon.Graph
