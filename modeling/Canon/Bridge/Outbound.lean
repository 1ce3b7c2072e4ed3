import Canon.Bridge.Turns
import Mathlib.Data.List.Perm.Basic

/-! # Frames on their way to the browser

    A TURN frame is put into the channel of the live connection or, without one,
    into the replay queue, which the next connection empties into its channel.  The
    sink task of the connection takes frames out of the channel one by one and writes
    them to the socket.

    The bridge alone does not say what became of a frame, so the machine here carries
    the frame the sink task is writing, what was written, and the turns that were
    entered.  Its law is a balance: what a step enters is added to the frames that are
    kept, and what it loses is taken away.  Frames are lost in three places.  A replay
    queue that is longer than the channel is cut off when a connection takes it over.
    A connection that ends takes its channel with it, and so does a sink task that
    fails.
-/

namespace Canon.Bridge

/-! ### Turns -/

/-- What a TURN frame carries. -/
structure SentTurn where
  tabId : TabId
  text : Text
  turnId : Nat
deriving DecidableEq, Repr

def OutFrame.turn? : OutFrame → Option SentTurn
  | .turn tabId text turnId => some ⟨tabId, text, turnId⟩
  | _ => none

/-- The TURN frames among frames. -/
def turnsIn (frames : List OutFrame) : List SentTurn := frames.filterMap OutFrame.turn?

@[simp] theorem turnsIn_nil : turnsIn [] = [] := rfl

@[simp] theorem turnsIn_append (as bs : List OutFrame) :
    turnsIn (as ++ bs) = turnsIn as ++ turnsIn bs :=
  List.filterMap_append

theorem turnsIn_cons (f : OutFrame) (fs : List OutFrame) :
    turnsIn (f :: fs) = f.turn?.toList ++ turnsIn fs := by
  cases h : f.turn? with
  | none => simp [turnsIn, h]
  | some t => simp [turnsIn, h]

/-- The call fails, or is going to as soon as it has cleaned up. -/
def Phase.isFailed : Phase → Bool
  | .failed .. | .done (.error _) => true
  | _ => false

/-- The turn was entered and its call has not failed. -/
def Unfailed (b : WsBridge) (turnId : Nat) : Prop :=
  ((b.calls turnId).map (·.phase.isFailed)) = some false

instance (b : WsBridge) (turnId : Nat) : Decidable (Unfailed b turnId) :=
  inferInstanceAs (Decidable (_ = _))

/-! ### The machine -/

/-- What waits in the channel of a live connection. -/
def ServerState.channel (st : ServerState) : List OutFrame :=
  match st.outTx with
  | none => []
  | some out => if out.alive then out.queue else []

structure Wire where
  bridge : WsBridge
  /-- The frame the sink task is writing. -/
  inHand : Option OutFrame
  written : List OutFrame
  /-- The turns that `send_turn` and `submit_turn` have entered. -/
  sent : List SentTurn

inductive WireAction where
  | act (a : Action)
  /-- The socket has taken the frame. -/
  | sinkWrote

namespace Wire

def spawn : Wire where
  bridge := .spawn
  inHand := none
  written := []
  sent := []

/-- The turn an action enters. -/
def entered (w : Wire) : WireAction → List SentTurn
  | .act (.startTurn turnId _ tabId _ text) =>
    if w.bridge.Taken turnId then [⟨tabId, text, turnId⟩] else []
  | _ => []

def step (parse : Text → Option Json) (w : Wire) (a : WireAction) : Wire :=
  match a with
  -- Here the frame leaves the channel; it is not written yet.
  | .act .sinkWrites =>
    match w.inHand, w.bridge.server.channel with
    | none, f :: _ =>
      { w with bridge := (bridgeMachine parse).step w.bridge .sinkWrites, inHand := some f }
    | _, _ => w
  | .act .sinkFails =>
    { w with bridge := (bridgeMachine parse).step w.bridge .sinkFails, inHand := none }
  | .act .disconnect =>
    { w with bridge := (bridgeMachine parse).step w.bridge .disconnect, inHand := none }
  -- Connections are served one after the other.
  | .act .connect =>
    if w.bridge.server.outTx.isNone then
      { w with bridge := (bridgeMachine parse).step w.bridge .connect, inHand := none }
    else w
  | .act a =>
    { w with
      bridge := (bridgeMachine parse).step w.bridge a
      sent := w.sent ++ w.entered (.act a) }
  | .sinkWrote =>
    match w.inHand with
    | none => w
    | some f => { w with inHand := none, written := w.written ++ [f] }

/-- Where a frame can be: the replay queue, the channel of the live connection with its
    sink task, and the socket. -/
def places (w : Wire) : List OutFrame :=
  w.bridge.server.turnReplayQueue ++ w.bridge.server.channel ++ w.inHand.toList ++ w.written

def kept (w : Wire) : List SentTurn := turnsIn w.places

/-- The turns whose frames an action throws away. -/
def lost (w : Wire) : WireAction → List SentTurn
  | .act .connect =>
    if w.bridge.server.outTx.isNone then
      turnsIn (w.bridge.server.turnReplayQueue.drop outboundCapacity)
    else []
  | .act .disconnect | .act .sinkFails => turnsIn (w.bridge.server.channel ++ w.inHand.toList)
  | _ => []

/-- Every turn that was entered and has not failed is kept. -/
def Conserved (w : Wire) : Prop := ∀ turn ∈ w.sent, Unfailed w.bridge turn.turnId → turn ∈ w.kept

/-- Only frames of failed turns are thrown away. -/
def LosesOnlyFailed (w : Wire) (a : WireAction) : Prop :=
  ∀ turn ∈ w.lost a, ¬ Unfailed w.bridge turn.turnId

instance (w : Wire) (a : WireAction) : Decidable (w.LosesOnlyFailed a) :=
  inferInstanceAs (Decidable (∀ _ ∈ _, _))

end Wire

def wireMachine (parse : Text → Option Json) : Machine Wire WireAction where
  step := Wire.step parse

/-! ### What the bridge does to its outbound side -/

/-- There is a connection, and its sink task runs. -/
def ServerState.live (st : ServerState) : Bool :=
  match st.outTx with
  | none => false
  | some out => out.alive

/-- The same queue, the same TURN frames in the channel, and the same connection. -/
structure SameOutbound (st st' : ServerState) : Prop where
  queue : st'.turnReplayQueue = st.turnReplayQueue
  channel : turnsIn st'.channel = turnsIn st.channel
  live : st'.live = st.live

section Outbound

variable {parse : Text → Option Json} {st st' : ServerState}

theorem SameOutbound.of_eq (htx : st'.outTx = st.outTx)
    (hqueue : st'.turnReplayQueue = st.turnReplayQueue) : SameOutbound st st' := by
  refine ⟨hqueue, ?_, ?_⟩
  · rw [ServerState.channel, htx, ServerState.channel]
  · rw [ServerState.live, htx, ServerState.live]

theorem channel_of_not_live (h : st.live = false) : st.channel = [] := by
  unfold ServerState.live at h
  unfold ServerState.channel
  split
  · rfl
  · rename_i out hout
    simp only [hout] at h
    simp [h]

/-- A frame that is sent goes to the end of the channel. -/
theorem send_eq_some {msg : OutFrame} (h : st.send msg = some st') :
    st'.turnReplayQueue = st.turnReplayQueue ∧ st'.channel = st.channel ++ [msg] ∧
      st'.live = st.live := by
  unfold ServerState.send at h
  obtain ⟨out, hout, h⟩ := Option.bind_eq_some_iff.mp h
  split at h
  · rename_i hroom
    obtain rfl := Option.some.inj h
    have halive : out.alive = true := by
      simp only [Bool.and_eq_true] at hroom
      exact hroom.1
    refine ⟨rfl, ?_, ?_⟩
    · simp [ServerState.channel, hout, halive]
    · simp [ServerState.live, hout]
  · cases h

/-- Frames other than TURN do not count. -/
theorem SameOutbound.send (st : ServerState) (msg : OutFrame)
    (hmsg : msg.turn? = none) :
    SameOutbound st ((st.send msg).getD st) := by
  cases h : st.send msg with
  | none => exact .of_eq rfl rfl
  | some st' =>
    obtain ⟨hqueue, hchannel, hlive⟩ := send_eq_some h
    refine ⟨hqueue, ?_, hlive⟩
    show turnsIn st'.channel = _
    rw [hchannel, turnsIn_append, turnsIn_cons, hmsg]
    simp

/-- Messages of the extension do not touch the outbound side. -/
theorem handleInbound_outbound (msg : InMsg) :
    (st.handleInbound parse msg).1.outTx = st.outTx ∧
      (st.handleInbound parse msg).1.turnReplayQueue = st.turnReplayQueue := by
  cases msg with
  | ignored | tabOpened | tabClosed | tabClaimed => exact ⟨rfl, rfl⟩
  | tabReady tabId url originalUrl reqId =>
    simp only [ServerState.handleInbound, ServerState.handleTabReady]
    split
    · split <;> exact ⟨rfl, rfl⟩
    · split <;> exact ⟨rfl, rfl⟩
  | submitAck tabId turnId =>
    simp only [ServerState.handleInbound, ServerState.handleSubmitAck]
    split
    · exact ⟨rfl, rfl⟩
    · split
      · exact ⟨rfl, rfl⟩
      · split
        · exact ⟨rfl, rfl⟩
        · split <;> exact ⟨rfl, rfl⟩
  | turnStarted tabId turnId =>
    simp only [ServerState.handleInbound, ServerState.handleTurnStarted]
    split <;> exact ⟨rfl, rfl⟩
  | inboundMessage tabId turnId chunk =>
    simp only [ServerState.handleInbound, ServerState.handleInboundMessage, ServerState.deliver]
    split
    · exact ⟨rfl, rfl⟩
    · split
      · exact ⟨rfl, rfl⟩
      · split <;> exact ⟨rfl, rfl⟩
  | newChatDone tabId =>
    simp only [ServerState.handleInbound]
    split <;> exact ⟨rfl, rfl⟩
  | tempChatDone tabId =>
    simp only [ServerState.handleInbound]
    split <;> exact ⟨rfl, rfl⟩

/-- The actions that move TURN frames. -/
def Action.MovesTurns : Action → Prop
  | .startTurn .. | .connect | .disconnect | .sinkWrites | .sinkFails => True
  | _ => False

theorem SameOutbound.step (parse : Text → Option Json) (b : WsBridge) {a : Action}
    (ha : ¬ a.MovesTurns) :
    SameOutbound b.server ((bridgeMachine parse).step b a).server := by
  cases a with
  | startTurn | connect | disconnect | sinkWrites | sinkFails => exact absurd trivial ha
  | takeTurnId | setTabEndpointId | waitNewChat | waitTempChat | takeCompletedTurns =>
    exact .of_eq rfl rfl
  | wake turnId expired =>
    show SameOutbound b.server (b.wake turnId expired).server
    unfold WsBridge.wake
    split <;> exact .of_eq rfl rfl
  | cleanup turnId =>
    show SameOutbound b.server (b.cleanup turnId).server
    unfold WsBridge.cleanup
    split
    · exact .of_eq rfl rfl
    · split
      · unfold WsBridge.cleanupTables
        split <;> exact .of_eq rfl rfl
      · exact .of_eq rfl rfl
  | inbound raw => exact .of_eq (handleInbound_outbound _).1 (handleInbound_outbound _).2
  | claimTabForUrl url =>
    show SameOutbound b.server (b.claimTabForUrl url).1.server
    unfold WsBridge.claimTabForUrl
    split
    · rename_i tabId queue _
      have hsend := SameOutbound.send { b.server with
        preopenedTabsByUrl := b.server.preopenedTabsByUrl.insert url queue }
        (.claimTab tabId url) rfl
      exact ⟨hsend.queue, hsend.channel, hsend.live⟩
    · exact .of_eq rfl rfl
  | openFreshTab url =>
    have hsend := SameOutbound.send { b.server with
      pendingOpen := b.server.pendingOpen.insert b.nextReqId () }
      (.openTab url b.nextReqId) rfl
    exact ⟨hsend.queue, hsend.channel, hsend.live⟩
  | outboundSubmit tabId payload => exact SameOutbound.send b.server _ rfl
  | closeTab tabId => exact SameOutbound.send b.server _ rfl
  | newChat tabId => exact SameOutbound.send b.server _ rfl
  | tempChat tabId => exact SameOutbound.send b.server _ rfl

end Outbound

end Canon.Bridge
