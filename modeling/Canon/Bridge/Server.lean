import Canon.Lib.Machine
import Canon.Lib.Maps
import Canon.Bridge.Parsers

/-! # The bridge server

    `ws_server.rs`: one connection to the browser extension, tables of what callers
    are waiting for, and the calls themselves.  The tables are behind a lock, so
    every piece of code that holds it is one step; between the pieces anything may
    happen.  A call is a small state machine: it waits for the acknowledgement,
    then for the response, and takes a step of its own to clean up when it fails.

    A one-shot channel is known by the key of its sender.  Its receiver has a
    value when one was sent, an error when the sender is gone from its table, and
    otherwise waits.  The dumps of frames to disk are left out.
-/

namespace Canon.Bridge

variable (b : WsBridge) (st : ServerState) (tabId : TabId) (turnId : Nat)
   (parse : Text → Option Json) (url : String)

abbrev TabId := UInt32

inductive WsBridgeError where
  | notConnected
  | noTab
  | timeout
  | cancelled
deriving DecidableEq, Repr

/-! ### Server state -/

/-- Frames to the extension. -/
inductive OutFrame where
  | openTab (url : String) (reqId : Nat)
  | claimTab (tabId : TabId) (url : String)
  | turn (tabId : TabId) (text : Text) (turnId : Nat)
  | outboundSubmit (tabId : TabId) (payload : Json)
  | closeTab (tabId : TabId)
  | newChat (tabId : TabId)
  | tempChat (tabId : TabId)
deriving Repr

/-- The outbound channel of a connection: what is queued in it, and whether the
    task that empties it still runs. -/
structure Outbound where
  queue : List OutFrame
  alive : Bool

def outboundCapacity : Nat := 256

/-- A response that nobody was waiting for. -/
structure CompletedTurn where
  tabId : TabId
  turnId : Nat
  endpointId : Option String
  text : Text
deriving DecidableEq, Repr

structure ServerState where
  outTx : Option Outbound
  tabAssemblers : FMap TabId FrameAssembler
  pending : FMap (TabId × Nat) Unit
  pendingTurnId : FMap TabId Nat
  pendingSendAck : FMap (TabId × Nat) Unit
  pendingSubmit : FMap (TabId × Nat) Unit
  pendingOpen : FMap Nat Unit
  pendingNewChat : FMap TabId Unit
  pendingTempChat : FMap TabId Unit
  liveTabs : FMap TabId Unit
  tabUrls : FMap TabId String
  tabEndpointId : FMap TabId String
  preopenedTabsByUrl : FMap String (List TabId)
  turnReplayQueue : List OutFrame
  completedTurns : List CompletedTurn

namespace ServerState

def new : ServerState where
  outTx := none
  tabAssemblers := FMap.empty
  pending := FMap.empty
  pendingTurnId := FMap.empty
  pendingSendAck := FMap.empty
  pendingSubmit := FMap.empty
  pendingOpen := FMap.empty
  pendingNewChat := FMap.empty
  pendingTempChat := FMap.empty
  liveTabs := FMap.empty
  tabUrls := FMap.empty
  tabEndpointId := FMap.empty
  preopenedTabsByUrl := FMap.empty
  turnReplayQueue := []
  completedTurns := []

/-- Nothing when there is no connection, or its channel is full or closed. -/
def send (msg : OutFrame) : Option ServerState :=
  st.outTx.bind fun out =>
    -- `try_send` fails on a full channel as on a closed one.
    if out.alive && out.queue.length < outboundCapacity then
      some { st with outTx := some { out with queue := out.queue ++ [msg] } }
    else none

/-- A frame that cannot be sent now waits for the next connection. -/
def sendOrQueue (msg : OutFrame) : ServerState :=
  (st.send msg).getD { st with turnReplayQueue := st.turnReplayQueue ++ [msg] }

/-- An assembler for a new turn: the tab's own, emptied, or a fresh one. -/
def prepareAssembler (site : SiteType) : ServerState :=
  let asm := match st.tabAssemblers tabId with
    | some asm => asm.reset
    | none => .new site
  { st with tabAssemblers := st.tabAssemblers.insert tabId asm }

def setSite (site : SiteType) : ServerState :=
  let asm := match st.tabAssemblers tabId with
    | some asm => asm.setSite site
    | none => .new site
  { st with tabAssemblers := st.tabAssemblers.insert tabId asm }

/-- A tab that is ready under a URL, once in the queue of the URL. -/
def preopen (tabId : TabId) : ServerState :=
  let queue := (st.preopenedTabsByUrl url).getD []
  let queue := if queue.contains tabId then queue else queue ++ [tabId]
  { st with preopenedTabsByUrl := st.preopenedTabsByUrl.insert url queue }

end ServerState

/-! ### Messages of the extension -/

inductive InMsg where
  | ignored
  | tabOpened (tabId : TabId) (url : String)
  | tabClosed (tabId : TabId)
  | tabReady (tabId : TabId) (url : String) (originalUrl : Option String) (reqId : Option Nat)
  | tabClaimed (tabId : TabId)
  | submitAck (tabId : TabId) (turnId : Option Nat)
  | turnStarted (tabId : TabId) (turnId : Nat)
  | inboundMessage (tabId : TabId) (turnId : Option Nat) (chunk : Text)
  | newChatDone (tabId : TabId)
  | tempChatDone (tabId : TabId)
deriving DecidableEq, Repr

/-- The chunk of a payload and the turn it names: a JSON object may carry both, any
    other payload is the chunk itself. -/
def readPayload (payload : Text) : Option Nat × Text :=
  if (Text.trimStart payload).head? = some '{' then
    match parse payload with
    | some v => ((v.get "turn_id").bind Json.asU64, (textField "chunk" v).getD payload)
    | none => (none, payload)
  else (none, payload)

/-- A message without its tab, or without what its type needs, is ignored. -/
def decodeMessage (raw : Text) : InMsg :=
  match parse raw with
  | none => .ignored
  | some msg =>
    match ((msg.get "tabId").bind Json.asU64).map UInt32.ofNat with
    | none => .ignored
    | some tabId =>
      let url := (strField "url" msg).getD ""
      let turnId := (msg.get "turnId").bind Json.asU64
      match (strField "type" msg).getD "" with
      | "TAB_OPENED" => .tabOpened tabId url
      | "TAB_CLOSED" => .tabClosed tabId
      | "TAB_READY" =>
        .tabReady tabId url (strField "originalUrl" msg) ((msg.get "reqId").bind Json.asU64)
      | "TAB_CLAIMED" => .tabClaimed tabId
      | "SUBMIT_ACK" => .submitAck tabId turnId
      | "TURN_STARTED" => (turnId.map (.turnStarted tabId)).getD .ignored
      | "INBOUND_MESSAGE" =>
        ((textField "payload" msg).map fun payload =>
          let read := readPayload parse payload
          .inboundMessage tabId read.1 read.2).getD .ignored
      | "NEW_CHAT_DONE" => .newChatDone tabId
      | "TEMP_CHAT_DONE" => .tempChatDone tabId
      | _ => .ignored

/-- What a handler sends to waiting callers. -/
inductive Signal where
  | opened (reqId : Nat) (tabId : TabId)
  | ack (tabId : TabId) (turnId : Nat)
  | reply (tabId : TabId) (turnId : Nat) (text : Text)
  | newChatDone (tabId : TabId)
  | tempChatDone (tabId : TabId)
deriving DecidableEq, Repr

/-! ### Handlers -/

namespace ServerState

def handleTabClosed : ServerState :=
  let queues := match st.tabUrls tabId with
    | none => st.preopenedTabsByUrl
    | some url =>
      match st.preopenedTabsByUrl url with
      | none => st.preopenedTabsByUrl
      | some queue => st.preopenedTabsByUrl.insert url (queue.filter (· ≠ tabId))
  { st with
    liveTabs := st.liveTabs.erase tabId
    tabUrls := st.tabUrls.erase tabId
    preopenedTabsByUrl := queues
    tabEndpointId := st.tabEndpointId.erase tabId
    tabAssemblers := st.tabAssemblers.erase tabId
    pending := st.pending.retain (·.1 ≠ tabId)
    pendingTurnId := st.pendingTurnId.erase tabId
    pendingSendAck := st.pendingSendAck.retain (·.1 ≠ tabId)
    pendingSubmit := st.pendingSubmit.retain (·.1 ≠ tabId)
    pendingNewChat := st.pendingNewChat.erase tabId }

def handleTabReady (originalUrl : Option String) (reqId : Option Nat) : ServerState × List Signal :=
  let st := st.setSite tabId (.fromUrl url)
  let st := { st with tabUrls := st.tabUrls.insert tabId url }
  match reqId with
  | some rid =>
    match st.pendingOpen rid with
    | some _ => ({ st with pendingOpen := st.pendingOpen.erase rid }, [.opened rid tabId])
    | none => (st, [])
  | none =>
    let st := st.preopen url tabId
    match originalUrl with
    | some original => (st.preopen original tabId, [])
    | none => (st, [])

/-- An acknowledgement counts for the turn the tab is expected to be at. -/
def handleSubmitAck (ackTurnId : Option Nat) :
    ServerState × List Signal :=
  match ackTurnId with
  | none => (st, [])
  | some turnId =>
    -- Without an expected turn every acknowledgement is late.
    if st.pendingTurnId tabId ≠ some turnId then (st, [])
    else
      -- A call that waits for a response comes before one that only submits.
      match st.pendingSendAck (tabId, turnId) with
      | some _ =>
        ({ st with pendingSendAck := st.pendingSendAck.erase (tabId, turnId) },
          [.ack tabId turnId])
      | none =>
        match st.pendingSubmit (tabId, turnId) with
        | some _ =>
          ({ st with pendingSubmit := st.pendingSubmit.erase (tabId, turnId) },
            [.ack tabId turnId])
        | none => (st, [])

def handleTurnStarted : ServerState :=
  match st.pendingTurnId tabId with
  -- A turn that was registered by a call is not taken over.
  | some _ => st
  | none =>
    ({ st with pendingTurnId := st.pendingTurnId.insert tabId turnId }).prepareAssembler tabId
      .unknown

/-- The turn a chunk belongs to: the expected one, if the chunk names no other. -/
def effectiveTurnId (inboundTurnId : Option Nat) :
    Option Nat :=
  match st.pendingTurnId tabId with
  | none => none
  | some expected =>
    match inboundTurnId with
    | none => some expected
    | some turnId => if turnId = expected then some expected else none

/-- A complete response goes to its waiter, or to the list of completed turns.
    Either way the tab is not expected to be at any turn any more. -/
def deliver (text : Text) :
    ServerState × List Signal :=
  let st' := { st with pendingTurnId := st.pendingTurnId.erase tabId }
  match st.pending (tabId, turnId) with
  | some _ =>
    ({ st' with pending := st.pending.erase (tabId, turnId) }, [.reply tabId turnId text])
  | none =>
    ({ st' with
        completedTurns := st.completedTurns ++
          [{ tabId := tabId, turnId := turnId, endpointId := st.tabEndpointId tabId,
             text := text }] },
      [])

def handleInboundMessage (st : ServerState) (tabId : TabId) (inboundTurnId : Option Nat)
    (chunk : Text) : ServerState × List Signal :=
  match st.effectiveTurnId tabId inboundTurnId with
  | none => (st, [])
  | some turnId =>
    -- A tab that was never opened has an assembler that ignores every frame.
    let asm := (st.tabAssemblers tabId).getD (.new .unknown)
    let pushed := asm.push parse chunk
    let st := { st with tabAssemblers := st.tabAssemblers.insert tabId pushed.1 }
    match pushed.2 with
    | none => (st, [])
    | some text => st.deliver tabId turnId text

def handleInbound (st : ServerState) : InMsg → ServerState × List Signal
  | .ignored => (st, [])
  | .tabOpened tabId url =>
    let st := { st with
      liveTabs := st.liveTabs.insert tabId ()
      tabUrls := st.tabUrls.insert tabId url }
    (st.setSite tabId (.fromUrl url), [])
  | .tabClosed tabId => (st.handleTabClosed tabId, [])
  | .tabReady tabId url originalUrl reqId => st.handleTabReady tabId url originalUrl reqId
  | .tabClaimed tabId =>
    ({ st with preopenedTabsByUrl := fun url =>
        (st.preopenedTabsByUrl url).map fun queue => queue.filter (· ≠ tabId) }, [])
  | .submitAck tabId turnId => st.handleSubmitAck tabId turnId
  | .turnStarted tabId turnId => (st.handleTurnStarted tabId turnId, [])
  | .inboundMessage tabId turnId chunk => st.handleInboundMessage parse tabId turnId chunk
  | .newChatDone tabId =>
    match st.pendingNewChat tabId with
    | some _ =>
      ({ st with pendingNewChat := st.pendingNewChat.erase tabId }, [.newChatDone tabId])
    | none => (st, [])
  | .tempChatDone tabId =>
    match st.pendingTempChat tabId with
    | some _ =>
      ({ st with pendingTempChat := st.pendingTempChat.erase tabId }, [.tempChatDone tabId])
    | none => (st, [])

end ServerState

/-! ### Calls -/

inductive CallKind where
  | send
  | submit
deriving DecidableEq, Repr

/-- Where a call stands.  A failed call still has to take the lock and clean up;
    it remembers whether it failed before or after the acknowledgement. -/
inductive Phase where
  | awaitAck
  | awaitResponse
  | failed (acked : Bool) (error : WsBridgeError)
  | done (result : Except WsBridgeError (Option Text))

structure Call where
  kind : CallKind
  tabId : TabId
  phase : Phase
  acked : Bool
  reply : Option Text

/-- The server with the calls on it, by their turn. -/
structure WsBridge where
  server : ServerState
  nextReqId : Nat
  nextTurnId : Nat
  calls : FMap Nat Call

namespace WsBridge

def spawn : WsBridge where
  server := .new
  nextReqId := 1
  nextTurnId := 1
  calls := FMap.empty

/-- A call takes its number before it takes the lock, so calls can enter their
    turns in another order than that of their numbers. -/
def takeTurnId : WsBridge := { b with nextTurnId := b.nextTurnId + 1 }

/-- The number was given out, and its call has not entered the turn yet. -/
def Taken : Prop :=
  0 < turnId ∧ turnId < b.nextTurnId ∧ b.calls turnId = none

instance (b : WsBridge) (turnId : Nat) : Decidable (b.Taken turnId) :=
  inferInstanceAs (Decidable (_ ∧ _ ∧ _))

/-- The first part of `send_turn` and of `submit_turn` under the lock, up to the
    first wait. -/
def startTurn (kind : CallKind) (tabId : TabId) (url : String) (text : Text) : WsBridge :=
  let st := b.server
  let st := match kind with
    | .send => { st with
        pending := st.pending.insert (tabId, turnId) ()
        pendingTurnId := st.pendingTurnId.insert tabId turnId
        pendingSendAck := st.pendingSendAck.insert (tabId, turnId) () }
    | .submit => { st with
        pendingSubmit := st.pendingSubmit.insert (tabId, turnId) ()
        pendingTurnId := st.pendingTurnId.insert tabId turnId }
  let st := st.prepareAssembler tabId (.fromUrl url)
  { b with
    server := st.sendOrQueue (.turn tabId text turnId)
    calls := b.calls.insert turnId
      { kind := kind, tabId := tabId, phase := .awaitAck, acked := false, reply := none } }

/-- The sender of a call's acknowledgement is still there. -/
def ackSender (call : Call) : Bool :=
  match call.kind with
  | .send => (b.server.pendingSendAck (call.tabId, turnId)).isSome
  | .submit => (b.server.pendingSubmit (call.tabId, turnId)).isSome

/-- A waiting call looks at its channel, then at its timer. -/
def nextPhase (call : Call) (expired : Bool) : Phase :=
  match call.phase with
  | .awaitAck =>
    if call.acked then
      match call.kind with
      | .send => .awaitResponse
      | .submit => .done (.ok none)
    -- The sender was dropped with its table entry, and nothing was sent.
    else if ¬ b.ackSender turnId call then .failed false .cancelled
    else if expired then .failed false .timeout
    else .awaitAck
  | .awaitResponse =>
    match call.reply with
    | some text => .done (.ok (some text))
    | none =>
      if (b.server.pending (call.tabId, turnId)).isNone then .failed true .cancelled
      else if expired then .failed true .timeout
      else .awaitResponse
  | phase => phase

def wake (expired : Bool) : WsBridge :=
  match b.calls turnId with
  | none => b
  | some call =>
    { b with calls := b.calls.insert turnId { call with phase := b.nextPhase turnId call expired } }

/-- What a failed call takes out of the tables. -/
def cleanupTables (call : Call) (acked : Bool) : ServerState :=
  match acked, call.kind with
  | false, .send => { st with
      pending := st.pending.erase (call.tabId, turnId)
      -- Keyed by the tab alone, so this may be the entry of another turn.
      pendingTurnId := st.pendingTurnId.erase call.tabId
      pendingSendAck := st.pendingSendAck.erase (call.tabId, turnId) }
  | false, .submit => { st with
      pendingSubmit := st.pendingSubmit.erase (call.tabId, turnId)
      pendingTurnId := st.pendingTurnId.erase call.tabId }
  -- The tab's expected turn stays as it is here.
  | true, _ => { st with pending := st.pending.erase (call.tabId, turnId) }

def cleanup : WsBridge :=
  match b.calls turnId with
  | none => b
  | some call =>
    match call.phase with
    | .failed acked error =>
      { b with
        server := cleanupTables b.server turnId call acked
        calls := b.calls.insert turnId { call with phase := .done (.error error) } }
    | _ => b

/-- The call at the other end of the sender that was kept under `(tabId, turnId)`. -/
def atReceiver (calls : FMap Nat Call) (tabId : TabId) (turnId : Nat) (update : Call → Call) :
    FMap Nat Call := fun id =>
  (calls id).map fun call => if id = turnId ∧ call.tabId = tabId then update call else call

def receive (calls : FMap Nat Call) : Signal → FMap Nat Call
  | .ack tabId turnId => atReceiver calls tabId turnId fun call => { call with acked := true }
  | .reply tabId turnId text =>
    atReceiver calls tabId turnId fun call => { call with reply := some text }
  | _ => calls

/-- A text frame of the extension. -/
def inbound (b : WsBridge) (raw : Text) : WsBridge :=
  let handled := b.server.handleInbound parse (decodeMessage parse raw)
  { b with server := handled.1, calls := handled.2.foldl receive b.calls }

/-- A new connection takes over what was queued; what does not fit is lost. -/
def connect : WsBridge :=
  { b with server := { b.server with
      outTx := some { queue := b.server.turnReplayQueue.take outboundCapacity, alive := true }
      turnReplayQueue := [] } }

def claimTabForUrl : WsBridge × Option TabId :=
  match b.server.preopenedTabsByUrl url with
  | some (tabId :: queue) =>
    let st := { b.server with
      preopenedTabsByUrl := b.server.preopenedTabsByUrl.insert url queue }
    ({ b with server := (st.send (.claimTab tabId url)).getD st }, some tabId)
  | _ => (b, none)

def openFreshTab : WsBridge :=
  let st := { b.server with pendingOpen := b.server.pendingOpen.insert b.nextReqId () }
  { b with
    server := (st.send (.openTab url b.nextReqId)).getD st
    nextReqId := b.nextReqId + 1 }

/-- `outbound_submit`, `close_tab`, `new_chat` and `temp_chat` only send a frame. -/
def sendFrame (msg : OutFrame) : WsBridge :=
  { b with server := (b.server.send msg).getD b.server }

def outboundSubmit (payload : Json) : WsBridge :=
  b.sendFrame (.outboundSubmit tabId payload)

def closeTab : WsBridge := b.sendFrame (.closeTab tabId)

def newChat : WsBridge := b.sendFrame (.newChat tabId)

def tempChat : WsBridge := b.sendFrame (.tempChat tabId)

end WsBridge

/-! ### Runs -/

/-- Everything that changes the bridge, in the order in which the lock is taken. -/
inductive Action where
  | takeTurnId
  | startTurn (turnId : Nat) (kind : CallKind) (tabId : TabId) (url : String) (text : Text)
  | wake (turnId : Nat) (expired : Bool)
  | cleanup (turnId : Nat)
  | inbound (raw : Text)
  | connect
  | disconnect
  | sinkWrites
  | sinkFails
  | claimTabForUrl (url : String)
  | setTabEndpointId (tabId : TabId) (endpointId : String)
  | openFreshTab (url : String)
  | outboundSubmit (tabId : TabId) (payload : Json)
  | closeTab (tabId : TabId)
  | newChat (tabId : TabId)
  | tempChat (tabId : TabId)
  | waitNewChat (tabId : TabId)
  | waitTempChat (tabId : TabId)
  | takeCompletedTurns

def bridgeMachine : Machine WsBridge Action where
  step b
    | .takeTurnId => b.takeTurnId
    | .startTurn turnId kind tabId url text =>
      if b.Taken turnId then b.startTurn turnId kind tabId url text else b
    | .wake turnId expired => b.wake turnId expired
    | .cleanup turnId => b.cleanup turnId
    | .inbound raw => b.inbound parse raw
    | .connect => b.connect
    | .disconnect => { b with server := { b.server with outTx := none } }
    | .sinkWrites =>
      { b with server := { b.server with
          outTx := b.server.outTx.map fun out =>
            if out.alive then { out with queue := out.queue.tail } else out } }
    | .sinkFails =>
      { b with server := { b.server with
          outTx := b.server.outTx.map fun out => { out with alive := false } } }
    | .claimTabForUrl url => (b.claimTabForUrl url).1
    | .setTabEndpointId tabId endpointId =>
      { b with server := { b.server with
          tabEndpointId := b.server.tabEndpointId.insert tabId endpointId } }
    | .openFreshTab url => b.openFreshTab url
    | .outboundSubmit tabId payload => b.outboundSubmit tabId payload
    | .closeTab tabId => b.closeTab tabId
    | .newChat tabId => b.newChat tabId
    | .tempChat tabId => b.tempChat tabId
    | .waitNewChat tabId =>
      { b with server := { b.server with
          pendingNewChat := b.server.pendingNewChat.insert tabId () } }
    | .waitTempChat tabId =>
      { b with server := { b.server with
          pendingTempChat := b.server.pendingTempChat.insert tabId () } }
    | .takeCompletedTurns =>
      { b with server := { b.server with completedTurns := [] } }

end Canon.Bridge
