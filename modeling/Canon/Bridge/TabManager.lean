import Canon.Bridge.Server

/-! # Tabs and endpoint workers

    `tab_management.rs` and `endpoint_worker.rs`: a table says which tab each endpoint
    uses and whether a turn is in flight on it, and a request goes through the table in
    small calls that take its lock one by one.  A request of a stateful endpoint waits
    for the one worker of the endpoint; any other request has a worker of its own and
    starts at once.

    A request stands between two calls on the table; its phase is the call that comes
    next.  What the bridge answers and what the clock shows belong to the action, so
    every answer at every moment is covered.  Left out are the prompts, the response
    cache (a request that is answered from it takes no tab) and the router of responses.
-/

namespace Canon.Bridge

/-! ### The table -/

/-- What is known of a tab. -/
structure TabSlotMeta where
  lastSentMs : Option Nat := none
  lastResponseMs : Option Nat := none
  inFlight : Bool := false
  cooldownUntilMs : Option Nat := none

/-- The tabs, and which one an endpoint uses. -/
structure TabSlotTable where
  owner : FMap String TabId
  slots : FMap TabId TabSlotMeta
  endpointBackoffMs : FMap String Nat
  endpointCooldownUntilMs : FMap String Nat

def adaptiveMinCooldownMs : Nat := 1000
def adaptiveMaxCooldownMs : Nat := 8000
def adaptiveSuccessDecayMs : Nat := 250
def adaptiveFailureMultiplier : Nat := 2

/-- Addition of `u128`, which stays at the largest number. -/
def saturatingAdd (a b : Nat) : Nat := min (a + b) (2 ^ 128 - 1)

namespace TabSlotTable

variable (t : TabSlotTable) (endpointId : String) (id : TabId) (now : Nat)

def new : TabSlotTable where
  owner := FMap.empty
  slots := FMap.empty
  endpointBackoffMs := FMap.empty
  endpointCooldownUntilMs := FMap.empty

/-- The entry of a tab, which is there from now on. -/
def slot : TabSlotMeta := (t.slots id).getD {}

def updateSlot (update : TabSlotMeta → TabSlotMeta) :
    TabSlotTable :=
  { t with slots := t.slots.insert id (update (t.slot id)) }

/-- The endpoint uses the tab from now on. -/
def setTabId : TabSlotTable :=
  ({ t with owner := t.owner.insert endpointId id }).updateSlot id fun slot => slot

def markTabSent : TabSlotTable :=
  t.updateSlot id fun slot => { slot with lastSentMs := some now }

def markTabResponse : TabSlotTable :=
  t.updateSlot id fun slot => { slot with lastResponseMs := some now }

def markTabInFlight (inFlight : Bool) : TabSlotTable :=
  t.updateSlot id fun slot => { slot with inFlight := inFlight }

/-- The endpoint pauses for `next` from `now` on. -/
def setBackoff (next now : Nat) : TabSlotTable :=
  { t with
    endpointBackoffMs := t.endpointBackoffMs.insert endpointId next
    endpointCooldownUntilMs :=
      t.endpointCooldownUntilMs.insert endpointId (saturatingAdd now next) }

/-- A success shortens the pause. -/
def noteSuccess :
    TabSlotTable :=
  let current := (t.endpointBackoffMs endpointId).getD adaptiveMinCooldownMs
  let next := max (current - adaptiveSuccessDecayMs) adaptiveMinCooldownMs
  (t.setBackoff endpointId next now).updateSlot id fun slot =>
    { slot with cooldownUntilMs := some (saturatingAdd now next) }

/-- A failure doubles it. -/
def applyRateLimitPenalty : TabSlotTable :=
  let current := (t.endpointBackoffMs endpointId).getD adaptiveMinCooldownMs
  let grown := min (max current adaptiveMinCooldownMs * adaptiveFailureMultiplier) (2 ^ 64 - 1)
  t.setBackoff endpointId (min (max grown adaptiveMinCooldownMs) adaptiveMaxCooldownMs) now

/-- The tab is forgotten, and its endpoint has none if it used it. -/
def dropTab : TabSlotTable :=
  { t with
    owner := if t.owner endpointId = some id then t.owner.erase endpointId else t.owner
    slots := t.slots.erase id }

/-- What one turn of the loop in `tab_manager_get_owner_tab` comes to. -/
inductive OwnerTab where
  | none
  | coolingDown
  | tab (id : TabId)

def getOwnerTab : TabSlotTable × OwnerTab :=
  match t.owner endpointId with
  | .none => (t, .none)
  | .some id =>
    if now < (t.slot id).cooldownUntilMs.getD 0
      then (t.updateSlot id fun slot => slot, .coolingDown)
    -- The tab is taken whether a turn is in flight on it or not.
    else (t.markTabInFlight id true, .tab id)

def inFlight : Bool := (t.slot id).inFlight

end TabSlotTable

/-! ### Requests -/

def maxSendAttempts : Nat := 2

/-- The call on the table that a request makes next, or what it waits for. -/
inductive WorkPhase where
  | queued
  | waitEndpointCooldown (attempt : Nat)
  | getOwnerTab (attempt : Nat)
  | claimTab (attempt : Nat)
  | openTab (attempt : Nat)
  | setTabId (attempt : Nat) (id : TabId)
  | markInFlight (attempt : Nat) (id : TabId)
  | markSent (attempt : Nat) (id : TabId)
  | sendTurn (attempt : Nat) (id : TabId)
  | submitted (id : TabId)
  | sendError (attempt : Nat) (id : TabId) (error : WsBridgeError)
  | penalty (attempt : Nat) (id : TabId) (error : WsBridgeError)
  | dropTab (attempt : Nat) (id : TabId)
  | markResponse (attempt : Nat) (id : TabId) (raw : Text)
  | responded (attempt : Nat) (id : TabId) (raw : Text)
  | newChat (id : TabId)
  | newChatTimeout (id : TabId)
  | noteSuccess (id : TabId)
  | finished

/-- What the bridge says to a request. -/
structure BridgeReply where
  claimed : Option TabId := none
  /-- The time for claiming is over. -/
  expired : Bool := false
  opened : Option TabId := none
  sent : Except WsBridgeError Text := .error .timeout
  newChatDone : Bool := false

/-- A request on its way. -/
structure LlmWorkItem where
  endpointId : String
  stateful : Bool
  submitOnly : Bool
  selectedUrl : String
  phase : WorkPhase

/-- Every error is tried again. -/
def shouldRetrySendTurn : WsBridgeError → Bool
  | .timeout | .cancelled | .noTab | .notConnected => true

def isEmptyResponse (raw : Text) : Bool :=
  (Text.trim raw).isEmpty || Text.contains "LLM error: empty assistant response body".toList raw

namespace LlmWorkItem

/-- A non-stateful request asks for a new chat on the sites that have one. -/
def needsNewChat (req : LlmWorkItem) : Bool :=
  !req.stateful && (isGeminiUrl req.selectedUrl || isChatgptUrl req.selectedUrl)

/-- One call on the table, or one look at what the request waits for. -/
def advance (req : LlmWorkItem) (t : TabSlotTable) (now : Nat) (reply : BridgeReply) :
    TabSlotTable × WorkPhase :=
  match req.phase with
  | .queued => (t, .queued)
  | .waitEndpointCooldown attempt =>
    if now < (t.endpointCooldownUntilMs req.endpointId).getD 0 then
      (t, .waitEndpointCooldown attempt)
    else (t, .getOwnerTab attempt)
  | .getOwnerTab attempt =>
    match t.getOwnerTab req.endpointId now with
    | (t, .none) => (t, .claimTab attempt)
    | (t, .coolingDown) => (t, .getOwnerTab attempt)
    | (t, .tab id) => (t, .markSent attempt id)
  | .claimTab attempt =>
    match reply.claimed with
    | some id => (t, .setTabId attempt id)
    | none => (t, if reply.expired then .openTab attempt else .claimTab attempt)
  | .openTab attempt =>
    match reply.opened with
    | some id => (t, .setTabId attempt id)
    | none => (t, .finished)
  | .setTabId attempt id => (t.setTabId req.endpointId id, .markInFlight attempt id)
  | .markInFlight attempt id => (t.markTabInFlight id true, .markSent attempt id)
  | .markSent attempt id => (t.markTabSent id now, .sendTurn attempt id)
  | .sendTurn attempt id =>
    match req.submitOnly, reply.sent with
    | true, .ok _ => (t, .submitted id)
    -- Nothing is released when a submission fails.
    | true, .error _ => (t, .finished)
    | false, .ok raw => (t, .markResponse attempt id raw)
    | false, .error error => (t, .sendError attempt id error)
  | .submitted id => (t.markTabInFlight id false, .finished)
  | .sendError attempt id error => (t.markTabInFlight id false, .penalty attempt id error)
  | .penalty attempt id error =>
    (t.applyRateLimitPenalty req.endpointId now,
      if shouldRetrySendTurn error && attempt + 1 < maxSendAttempts then .dropTab attempt id
      else .finished)
  | .dropTab attempt id => (t.dropTab req.endpointId id, .waitEndpointCooldown (attempt + 1))
  | .markResponse attempt id raw => (t.markTabResponse id now, .responded attempt id raw)
  | .responded attempt id raw =>
    (t.markTabInFlight id false,
      if isEmptyResponse raw then
        if attempt + 1 < maxSendAttempts then .waitEndpointCooldown (attempt + 1) else .finished
      else if req.needsNewChat then .newChat id
      else .noteSuccess id)
  | .newChat id => (t, if reply.newChatDone then .noteSuccess id else .newChatTimeout id)
  | .newChatTimeout id => (t.markTabInFlight id true, .finished)
  | .noteSuccess id => (t.noteSuccess req.endpointId id now, .finished)
  | .finished => (t, .finished)

end LlmWorkItem

/-! ### Workers -/

/-- The worker of a stateful endpoint: it has the URLs it was made with, the requests
    in its channel, and the one it is working on. -/
structure LlmWorker where
  url : List String
  channel : List Nat
  current : Option Nat

def pickUrl (url : List String) (index : Nat) : String :=
  (url[index % url.length]?).getD ""

/-- What a step does to a tab. -/
inductive TabEffect where
  | keep
  | handOut (id : TabId)
  | release (id : TabId)
  | drop (id : TabId)
  /-- The request is over, and the tab is as it was. -/
  | abandon (id : TabId)
  /-- The request is over, and the tab is marked again. -/
  | block (id : TabId)
deriving DecidableEq

def LlmWorkItem.effect (req : LlmWorkItem) (t : TabSlotTable) (now : Nat) (reply : BridgeReply) :
    TabEffect :=
  match req.phase with
  | .getOwnerTab _ =>
    match (t.getOwnerTab req.endpointId now).2 with
    | .tab id => .handOut id
    | _ => .keep
  | .markInFlight _ id => .handOut id
  | .sendTurn _ id =>
    match req.submitOnly, reply.sent with
    | true, .error _ => .abandon id
    | _, _ => .keep
  | .submitted id | .sendError _ id _ | .responded _ id _ => .release id
  | .dropTab _ id => .drop id
  | .newChatTimeout id => .block id
  | _ => .keep

/-- The table with the workers and the requests. -/
structure TabPool where
  table : TabSlotTable
  nextReqId : Nat
  workers : FMap String LlmWorker
  requests : FMap Nat LlmWorkItem
  /-- The tab was left in flight by a request that is over, and was not released or
      dropped since. -/
  abandoned : TabId → Bool

inductive PoolAction where
  | sendRequest (endpointId : String) (urls : List String) (stateful submitOnly : Bool)
  /-- The worker of a stateful endpoint takes the next request. -/
  | recv (endpointId : String)
  | advance (reqId : Nat) (now : Nat) (reply : BridgeReply)

namespace TabPool

def new : TabPool where
  table := .new
  nextReqId := 1
  workers := FMap.empty
  requests := FMap.empty
  abandoned := fun _ => false

/-- A stateful request goes into the channel of its worker. -/
def sendRequest (s : TabPool) (endpointId : String) (urls : List String)
    (stateful submitOnly : Bool) : TabPool :=
  let worker := (s.workers endpointId).getD { url := urls, channel := [], current := none }
  let req : LlmWorkItem :=
    { endpointId, stateful, submitOnly
      selectedUrl := pickUrl (if stateful then worker.url else urls) s.nextReqId
      phase := if stateful then .queued else .waitEndpointCooldown 0 }
  { s with
    nextReqId := s.nextReqId + 1
    requests := s.requests.insert s.nextReqId req
    workers :=
      if stateful then
        s.workers.insert endpointId { worker with channel := worker.channel ++ [s.nextReqId] }
      else s.workers }

def start (req : LlmWorkItem) : LlmWorkItem :=
  match req.phase with
  | .queued => { req with phase := .waitEndpointCooldown 0 }
  | _ => req

/-- A free worker takes the first request of its channel. -/
def recv (s : TabPool) (endpointId : String) : TabPool :=
  match s.workers endpointId with
  | some { url, channel := reqId :: channel, current := none } =>
    { s with
      workers := s.workers.insert endpointId { url, channel, current := some reqId }
      requests := fun r => if r = reqId then (s.requests r).map start else s.requests r }
  | _ => s

/-- A worker whose request is over is free again. -/
def settle (workers : FMap String LlmWorker) (reqId : Nat) (endpointId : String) :
    WorkPhase → FMap String LlmWorker
  | .finished => fun e => (workers e).map fun worker =>
      if e = endpointId ∧ worker.current = some reqId then { worker with current := none }
      else worker
  | _ => workers

def abandonedAfter (abandoned : TabId → Bool) (t : TabSlotTable) : TabEffect → TabId → Bool
  | .release id | .drop id => Function.update abandoned id false
  | .abandon id => Function.update abandoned id (t.inFlight id)
  | .block id => Function.update abandoned id true
  | .keep | .handOut _ => abandoned

def advance (s : TabPool) (reqId : Nat) (now : Nat) (reply : BridgeReply) : TabPool :=
  match s.requests reqId with
  | none => s
  | some req =>
    let next := req.advance s.table now reply
    { s with
      table := next.1
      requests := s.requests.insert reqId { req with phase := next.2 }
      workers := settle s.workers reqId req.endpointId next.2
      abandoned := abandonedAfter s.abandoned s.table (req.effect s.table now reply) }

end TabPool

/-- The steps of all parties, in any order. -/
def tabPoolMachine : Machine TabPool PoolAction where
  step s
    | .sendRequest endpointId urls stateful submitOnly =>
      s.sendRequest endpointId urls stateful submitOnly
    | .recv endpointId => s.recv endpointId
    | .advance reqId now reply => s.advance reqId now reply

end Canon.Bridge
