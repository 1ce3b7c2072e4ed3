import Canon.Lib.Machine
import Canon.Tlog.Segment

/-! # The segment writer

    `BinarySegmentWriter` of `binary.rs`: opening a directory, the raw append
    `write_canon_event_inner`, and `write_canon_event` with its gate in front of
    it (retry blocking, event checks, transition check, required successor,
    deduplication).

    A call ends in one of three ways.  Besides success and error it can be
    `stuck`: the transition check reports a rejected edge while it still holds the
    lock of the last-event slot, and the append made for that report takes the
    same lock at its end, which never returns.
-/

namespace Canon.Tlog

/-! ### Caches -/

/-- A set of at most `cap` entries that forgets the oldest one first. -/
structure DedupCache (α : Type) where
  seen : List α
  order : List α
  cap : Nat

namespace DedupCache

variable {α : Type} [DecidableEq α]

def new (cap : Nat) : DedupCache α := { seen := [], order := [], cap := cap }

/-- The answer is whether the entry is new; an old one leaves the cache alone. -/
def insertIfNew (c : DedupCache α) (h : α) : Bool × DedupCache α :=
  if h ∈ c.seen then (false, c)
  else
    let seen := h :: c.seen
    let order := c.order ++ [h]
    if order.length > c.cap then
      match order with
      | old :: rest => (true, { c with seen := seen.erase old, order := rest })
      | [] => (true, { c with seen := seen, order := order })
    else (true, { c with seen := seen, order := order })

end DedupCache

structure RejectedEdge where
  parent : String
  kind : String
  fingerprint : Nat
deriving DecidableEq, Repr

/-! ### State and surroundings -/

/-- What the writer takes from outside: the JSON library and the hash of an
    event's kind, data and delta. -/
structure Env where
  serde : Serde
  contentHash : EventKind → Json → Json → Nat

/-- What one call gets from its surroundings: two fresh ids and the clock. -/
structure Surroundings where
  parentId : String
  violationId : String
  now : Nat

structure Writer where
  config : SegmentConfig
  seq : Nat
  lastTs : Nat
  files : SegmentFiles
  dedup : DedupCache Nat
  rejectedEdges : DedupCache RejectedEdge
  lastEvent : Option CanonEvent
  pending : Option PendingTransition

inductive Outcome where
  | ok
  | err (message : String)
  | stuck
deriving DecidableEq, Repr

/-- The end of a call.  `wrote` are the events it put on disk. -/
structure WriteResult where
  dir : Dir
  writer : Writer
  outcome : Outcome
  wrote : List CanonEvent

namespace WriteResult

def fail (dir : Dir) (w : Writer) (message : String) : WriteResult :=
  { dir := dir, writer := w, outcome := .err message, wrote := [] }

def done (dir : Dir) (w : Writer) : WriteResult :=
  { dir := dir, writer := w, outcome := .ok, wrote := [] }

/-- Go on only after success. -/
def andThen (r : WriteResult) (k : Dir → Writer → WriteResult) : WriteResult :=
  match r.outcome with
  | .ok =>
    let r' := k r.dir r.writer
    { r' with wrote := r.wrote ++ r'.wrote }
  | _ => r

end WriteResult

/-! ### Opening -/

def openWithConfig (S : Serde) (dir : Dir) (config : SegmentConfig) : Dir × Writer :=
  -- Index files without any log are leftovers of an earlier failure.
  let dir := if dir.log.isEmpty then { dir with idx := [], time := [] } else dir
  let baseSeq := (findLatestSegment dir).getD 0
  let recovered := recoverSegment S config dir baseSeq
  let seq := recovered.lastSeq.getD baseSeq
  -- The segment to write to is named after the last record found, not after the
  -- segment that was recovered.
  let o := openNewSegmentFiles recovered.dir seq
  let o := if o.dir.log.isEmpty then openNewSegmentFiles o.dir seq else o
  let o := if o.files.size = 0 then openNewSegmentFiles o.dir seq else o
  let nextSeq := (recovered.lastSeq.map (· + 1)).getD baseSeq
  let o := if o.files.size ≥ config.maxBytes then openNewSegmentFiles o.dir nextSeq else o
  let dir := match config.retainSegments with
    | some keep => applyRetention o.dir keep
    | none => o.dir
  (dir,
    { config := config
      seq := nextSeq
      lastTs := 0
      files := o.files
      dedup := DedupCache.new 1024
      rejectedEdges := DedupCache.new 1024
      lastEvent := recovered.lastEvent
      pending := recovered.lastEvent.bind requiredSuccessor })

/-! ### The raw append -/

variable (event : CanonEvent)

/-- An empty delta, or one that only says graph version 0, is replaced. -/
def normalizeDelta : CanonEvent :=
  match event.payload.delta with
  | .obj [] => withDelta event autoDelta
  | .obj [("graph_version", .num (.posInt 0))] => withDelta event autoDelta
  | _ => event

/-- The header goes in front of the first record of an empty file. -/
def writeMagic (o : OpenSegment) : OpenSegment :=
  if o.files.size = 0 then
    { dir := { o.dir with log := o.dir.log.append o.files.base magicBytes }
      files := { o.files with size := o.files.size + magicBytes.length } }
  else o

/-- A segment that cannot take `lineLen` more bytes is followed by a new one. -/
def rotateIfFull (config : SegmentConfig) (seq lineLen : Nat) (o : OpenSegment) : OpenSegment :=
  if o.files.size + lineLen > config.maxBytes then
    -- The record that did not fit goes to the new segment without a header.
    let o' := openNewSegmentFiles o.dir seq
    match config.retainSegments with
    | some keep => { o' with dir := applyRetention o'.dir keep }
    | none => o'
  else o

/-- The record itself and its entries in the two index files. -/
def appendRecord (config : SegmentConfig) (seq ts : Nat) (bytes : Bytes) (o : OpenSegment) :
    OpenSegment :=
  let files := o.files
  let recordPos := files.size
  let records := satSuccU32 files.records
  let bucket := ts / config.timeBucketMs
  { dir :=
      { log := o.dir.log.append files.base bytes
        idx := if records % config.indexStride = 0 then
            o.dir.idx.append files.base (leBytes 8 seq ++ leBytes 8 recordPos)
          else o.dir.idx
        time := if files.lastTimeBucket ≠ some bucket then
            o.dir.time.append files.base (leBytes 8 bucket ++ leBytes 8 recordPos)
          else o.dir.time }
    files :=
      { files with
        size := files.size + bytes.length
        records := records
        lastTimeBucket := some bucket } }

/-- `write_canon_event_inner`.  `held` says that the caller holds the lock of the
    last-event slot. -/
def writeCanonEventInner (S : Serde) (held : Bool) (dir : Dir) (w : Writer)
    (event : CanonEvent) : WriteResult :=
  let prev := w.lastTs
  -- The clock is set before the checks, so a refused event moves it too.
  let w := { w with lastTs := max prev event.ts }
  if event.ts < prev then
    .fail dir w ("non-monotonic timestamp: " ++ toString event.ts ++ " < prev " ++ toString prev)
  else if event.payload.input.isNull || event.payload.output.isNull
      || event.payload.delta.isNull then
    .fail dir w "CanonPayload input/output/delta must not be null"
  else
    let event := normalizeDelta event
    let bytes := frame (S.toVec event)
    let o := appendRecord w.config w.seq event.ts bytes
      (rotateIfFull w.config w.seq bytes.length (writeMagic { dir := dir, files := w.files }))
    let w := { w with seq := w.seq + 1, files := o.files }
    -- The last-event slot comes behind the append: a caller that holds its lock
    -- waits for itself, with the record already on disk.
    if held then { dir := o.dir, writer := w, outcome := .stuck, wrote := [event] }
    else
      { dir := o.dir, writer := { w with lastEvent := some event }, outcome := .ok,
        wrote := [event] }

/-- The raw append takes `event`: its time does not run backwards and its three
    payload slots are there. -/
def Accepts (w : Writer) (event : CanonEvent) : Prop :=
  w.lastTs ≤ event.ts ∧ event.payload.input.isNull = false ∧
    event.payload.output.isNull = false ∧ event.payload.delta.isNull = false

/-- The files after appending `event`. -/
def appended (S : Serde) (dir : Dir) (w : Writer) (event : CanonEvent) : OpenSegment :=
  let bytes := frame (S.toVec (normalizeDelta event))
  appendRecord w.config w.seq event.ts bytes
    (rotateIfFull w.config w.seq bytes.length (writeMagic { dir := dir, files := w.files }))

@[simp] theorem normalizeDelta_ts : (normalizeDelta event).ts = event.ts := by
  unfold normalizeDelta
  split <;> rfl

@[simp] theorem normalizeDelta_kind :
    (normalizeDelta event).kind = event.kind := by
  unfold normalizeDelta
  split <;> rfl

@[simp] theorem normalizeDelta_id : (normalizeDelta event).id = event.id := by
  unfold normalizeDelta
  split <;> rfl

@[simp] theorem normalizeDelta_prevEventId :
    (normalizeDelta event).prevEventId = event.prevEventId := by
  unfold normalizeDelta
  split <;> rfl

theorem writeCanonEventInner_of_accepts {S : Serde} {dir : Dir} {w : Writer}
    {event : CanonEvent} (h : Accepts w event) (held : Bool) :
    writeCanonEventInner S held dir w event =
      { dir := (appended S dir w event).dir
        writer :=
          { w with
            lastTs := max w.lastTs event.ts
            seq := w.seq + 1
            files := (appended S dir w event).files
            lastEvent := if held then w.lastEvent else some (normalizeDelta event) }
        outcome := if held then .stuck else .ok
        wrote := [normalizeDelta event] } := by
  obtain ⟨hts, hin, hout, hdelta⟩ := h
  cases held <;> simp [writeCanonEventInner, appended, hin, hout, hdelta, Nat.not_lt.mpr hts]

theorem writeCanonEventInner_of_not_accepts {w : Writer} {event : CanonEvent}
    (h : ¬ Accepts w event) (S : Serde) (held : Bool) (dir : Dir) :
    ∃ message, writeCanonEventInner S held dir w event =
      .fail dir { w with lastTs := max w.lastTs event.ts } message := by
  by_cases hts : event.ts < w.lastTs
  · exact ⟨_, if_pos hts⟩
  · by_cases hnull : (event.payload.input.isNull || event.payload.output.isNull
        || event.payload.delta.isNull) = true
    · exact ⟨_, (if_neg hts).trans (if_pos hnull)⟩
    · simp only [Bool.or_eq_true, not_or, Bool.not_eq_true] at hnull
      exact absurd ⟨Nat.not_lt.mp hts, hnull.1.1, hnull.1.2, hnull.2⟩ h

/-! ### Rejected events -/

def isInvariantViolationEvent : Bool :=
  (((event.payload.data.get "delta").bind (Json.get "event")).bind
    (Json.get "InvariantViolation")).isSome

def invariantViolationDelta (message : String) : Json :=
  .obj
    [("event", .obj [("InvariantViolation",
        .obj [("message", .str message), ("recorded", .bool true)])]),
     ("id", .nat 0), ("tick", .nat 0)]

def invariantViolationState : Json :=
  .obj
    [("graph_version", .nat 0), ("invariant_hash", .str ""), ("known_edges", .arr []),
     ("known_files", .arr []), ("known_symbols", .obj []), ("last_event_id", .nat 0),
     ("phase", .str ""), ("removed_edges", .arr []), ("removed_symbols", .arr []),
     ("tick", .nat 0)]

def buildInvariantViolationEventWithParent (sur : Surroundings) (rejected : CanonEvent)
    (message parent : String) : CanonEvent :=
  let fullMessage := message ++ "; rejected_kind=" ++ rejected.kind.asStr ++ "; rejected_id="
    ++ rejected.id ++ "; rejected_actor=" ++ rejected.actor ++ "; rejected_meta_file="
    ++ rejected.payload.payloadMeta.file ++ "; rejected_meta_line="
    ++ toString rejected.payload.payloadMeta.line
  { id := sur.violationId
    parentIds := [parent]
    actor := "writer"
    kind := .code
    ts := sur.now
    payload :=
      { input := .obj [("id", .nat 0), ("tick", .nat 0)]
        output := .obj [("InvariantViolation",
          .obj [("message", .str fullMessage), ("recorded", .bool true)])]
        delta := .obj [("graph_version", .nat 0)]
        payloadMeta :=
          { file := "canon-utils/canon-runtime-events/src/tlog/binary.rs", line := 482 }
        data := .obj
          [("delta", invariantViolationDelta fullMessage),
           ("rejected", .obj
             [("actor", .str rejected.actor), ("id", .str rejected.id),
              ("kind", .str rejected.kind.asStr),
              ("meta_file", .str rejected.payload.payloadMeta.file),
              ("meta_line", .nat rejected.payload.payloadMeta.line)]),
           ("state", invariantViolationState)] }
    prevEventId := none }

def eventContentHash (env : Env) (event : CanonEvent) : Nat :=
  env.contentHash event.kind event.payload.data event.payload.delta

def rejectedEdge (env : Env) (event : CanonEvent) (parent : String) : RejectedEdge :=
  { parent := parent, kind := event.kind.asStr, fingerprint := eventContentHash env event }

/-- A rejected event is put on record once per edge, by a violation event.  `inner` is the raw
    append. -/
def recordRejectedEdgeWith (inner : Bool → Dir → Writer → CanonEvent → WriteResult) (env : Env)
    (sur : Surroundings) (held : Bool) (dir : Dir) (w : Writer) (event : CanonEvent)
    (message : String) (parent : Option String) : WriteResult :=
  if isInvariantViolationEvent event then .done dir w
  else
    let parent := parent.getD (event.parentIds.head?.getD sur.parentId)
    let violation := buildInvariantViolationEventWithParent sur event message parent
    let inserted := w.rejectedEdges.insertIfNew (rejectedEdge env event parent)
    let w := { w with rejectedEdges := inserted.2 }
    if inserted.1 then inner held dir w violation else .done dir w

/-- The error for an event whose first edge was rejected before. -/
def checkInvalidRetry (env : Env) (w : Writer) (event : CanonEvent) : Option String :=
  if isRecoveryEvent event || isInvariantViolationEvent event then none
  else
    match event.parentIds with
    | [] => none
    | parent :: _ =>
      if rejectedEdge env event parent ∈ w.rejectedEdges.seen then
        some ("invariant violation: invalid_retry parent=" ++ parent ++ "; kind="
          ++ event.kind.asStr
          ++ "; blocked until recovery_event/reset_event/override_event")
      else none

/-! ### The gate -/

inductive PendingVerdict where
  | untouched
  | discharged
  | violated (req : PendingTransition)

/-- What the pending obligation says to an event.  An effect event neither
    discharges nor violates it; a route tick also accepts an observation or a
    route selection in place of what it asked for. -/
def checkPending (pending : Option PendingTransition) (event : CanonEvent) : PendingVerdict :=
  match pending with
  | none => .untouched
  | some req =>
    if event.kind.eventClass = .effect then .untouched
    else if event.kind ≠ req.expected then
      -- The override: a route tick may be answered by observing or by selecting.
      if req.sourceKind = .routeTick && event.kind = .loopObserved then .discharged
      else if req.sourceKind = .routeTick && event.kind = .routeSelected then .discharged
      else .violated req
    else .discharged

def missingSuccessorMessage (req : PendingTransition) (event : CanonEvent) : String :=
  "invariant violation: missing required successor after " ++ req.sourceKind.asStr ++ " id="
    ++ req.parent ++ "; expected=" ++ req.expected.asStr ++ "; got=" ++ event.kind.asStr
    ++ "; note=" ++ req.note

/-- The error of the transition check against the last event, with that event. -/
def transitionError (w : Writer) (event : CanonEvent) : Option (String × CanonEvent) :=
  match w.lastEvent with
  | none => none
  | some prev =>
    match validateTransition prev event with
    | .ok () => none
    | .error err => some (err, prev)

section With

-- the raw append behind the gate
variable (inner : Bool → Dir → Writer → CanonEvent → WriteResult)

/-- The append at the end of the gate, and the obligation it leaves. -/
def persistWith (dir : Dir) (w : Writer) (event : CanonEvent) : WriteResult :=
  (inner false dir w event).andThen fun dir w =>
    -- An observation closes an obligation and never opens one.
    if event.kind = .loopObserved then .done dir { w with pending := none }
    else if event.kind.eventClass = .control then
      .done dir { w with pending := requiredSuccessor event }
    else .done dir w

/-- Effect events that do not discharge an obligation are written once. -/
def dedupAndPersistWith (env : Env) (dir : Dir) (w : Writer) (event : CanonEvent) :
    WriteResult :=
  if event.kind.eventClass ≠ .control then
    let inserted := w.dedup.insertIfNew (eventContentHash env event)
    if inserted.1 then persistWith inner dir { w with dedup := inserted.2 } event
    else .done dir w
  else persistWith inner dir w event

/-- `write_canon_event` in front of a raw append. -/
def writeCanonEventWith (env : Env) (sur : Surroundings) (dir : Dir) (w : Writer)
    (event : CanonEvent) : WriteResult :=
  match checkInvalidRetry env w event with
  | some err =>
    (recordRejectedEdgeWith inner env sur false dir w event err event.parentIds.head?).andThen
      fun dir w => .fail dir w err
  | none =>
    match validateEvent event with
    | .error err =>
      (recordRejectedEdgeWith inner env sur false dir w event err none).andThen
        fun dir w => .fail dir w err
    | .ok () =>
      match transitionError w event with
      | some (err, prev) =>
        -- The lock of the last-event slot is still held here.
        (recordRejectedEdgeWith inner env sur true dir w event err (some prev.id)).andThen
          fun dir w => .fail dir w err
      | none =>
        match checkPending w.pending event with
        | .violated req =>
          let err := missingSuccessorMessage req event
          (recordRejectedEdgeWith inner env sur false dir w event err (some req.parent)).andThen
            -- The obligation is dropped together with the event that violated it.
            fun dir w => .fail dir { w with pending := none } err
        | .discharged => persistWith inner dir { w with pending := none } event
        | .untouched => dedupAndPersistWith inner env dir w event

end With

/-! With files that do not fail, the raw append is `write_canon_event_inner`. -/

def recordRejectedEdge (env : Env) (sur : Surroundings) (held : Bool) (dir : Dir) (w : Writer)
    (event : CanonEvent) (message : String) (parent : Option String) : WriteResult :=
  recordRejectedEdgeWith (writeCanonEventInner env.serde) env sur held dir w event message parent

def persist (env : Env) (dir : Dir) (w : Writer) (event : CanonEvent) : WriteResult :=
  persistWith (writeCanonEventInner env.serde) dir w event

/-- `write_canon_event`. -/
def writeCanonEvent (env : Env) (sur : Surroundings) (dir : Dir) (w : Writer)
    (event : CanonEvent) : WriteResult :=
  writeCanonEventWith (writeCanonEventInner env.serde) env sur dir w event

end Canon.Tlog
