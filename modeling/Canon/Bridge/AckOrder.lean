import Canon.Bridge.Turns

/-! # Acknowledgement and response in any order

    A turn is alone on its tab, and the extension sends one acknowledgement and the
    frames of the response.  The call gets the response if and only if the
    acknowledgement is handled before the frame that completes the response: that
    frame takes the tab's expected turn away, and the acknowledgement is then
    taken for one of another turn.
-/

namespace Canon.Bridge

/-! ### The traffic of one turn -/

section Traffic

variable (parse : Text → Option Json) (tab : TabId) (t : Nat)

/-- The acknowledgement of turn `t`. -/
def Action.IsAck (a : Action) : Prop :=
  ∃ raw, a = .inbound raw ∧ decodeMessage parse raw = .submitAck tab (some t)

/-- The chunk of a frame of turn `t`.  A frame may leave its turn out. -/
def Action.chunk? : Action → Option Text
  | .inbound raw =>
    match decodeMessage parse raw with
    | .inboundMessage tabId turnId chunk =>
      if tabId = tab ∧ turnId.getD t = t then some chunk else none
    | _ => none
  | _ => none

/-- Besides the acknowledgement: frames of the turn, polls of its call while no
    timer has run out, and anything about other tabs and calls. -/
def Action.Traffic (a : Action) : Prop :=
  (a.chunk? parse tab t).isSome ∨ a = .wake t false ∨ a.Foreign parse tab t

def chunksOf (acts : List Action) : List Text := acts.filterMap (Action.chunk? parse tab t)

/-- Both timers of the call run out, and the call cleans up if it has to. -/
def timers : List Action := [.wake t true, .cleanup t, .wake t true, .cleanup t]

/-- The chunks complete a response, and only the last one does. -/
def Completes : FrameAssembler → List Text → Text → Prop
  | _, [], _ => False
  | asm, chunk :: chunks, text =>
    ((asm.push parse chunk).2 = some text ∧ chunks = []) ∨
      ((asm.push parse chunk).2 = none ∧ Completes (asm.push parse chunk).1 chunks text)

end Traffic

/-- What a call returned, once it is over. -/
def WsBridge.outcome (b : WsBridge) (t : Nat) : Option (Except WsBridgeError (Option Text)) :=
  (b.calls t).bind fun call =>
    match call.phase with
    | .done result => some result
    | _ => none

/-- The site whose frames a new turn on the tab expects. -/
def WsBridge.turnSite (b : WsBridge) (tab : TabId) (url : String) : SiteType :=
  ((b.server.tabAssemblers tab).map (·.site)).getD (.fromUrl url)

/-- No call on the tab is still running. -/
def NoOtherTurn (b : WsBridge) (tab : TabId) : Prop :=
  ∀ t call, b.calls t = some call → call.tabId = tab → ∃ result, call.phase = .done result

/-! ### Before and after the response -/

/-- The response is not complete yet. -/
structure Waiting (b : WsBridge) (tab : TabId) (t : Nat) (asm : FrameAssembler) (acked : Bool) :
    Prop where
  quiet : Quiet b tab t
  expected : b.server.pendingTurnId tab = some t
  waiter : b.server.pending (tab, t) = some ()
  sendAck : acked = false → b.server.pendingSendAck (tab, t) = some ()
  assembler : b.server.tabAssemblers tab = some asm
  call : ∃ phase, b.calls t =
      some { kind := .send, tabId := tab, phase := phase, acked := acked, reply := none } ∧
    (phase = .awaitAck ∨ acked = true ∧ phase = .awaitResponse)

/-- The response has been sent to the call. -/
structure Answered (b : WsBridge) (tab : TabId) (t : Nat) (text : Text) (acked : Bool) :
    Prop where
  quiet : Quiet b tab t
  expected : b.server.pendingTurnId tab = none
  sendAck : acked = false → b.server.pendingSendAck (tab, t) = some ()
  call : ∃ phase, b.calls t =
      some { kind := .send, tabId := tab, phase := phase, acked := acked, reply := some text } ∧
    (phase = .awaitAck ∨
      acked = true ∧ (phase = .awaitResponse ∨ phase = .done (.ok (some text))))

section Stages

variable {parse : Text → Option Json} {b b' : WsBridge} {tab : TabId} {t : Nat}
  {asm : FrameAssembler} {acked : Bool} {text : Text} {a : Action}

theorem Waiting.keeps (h : Waiting b tab t asm acked) (hk : Keeps b b' tab t) :
    Waiting b' tab t asm acked := by
  obtain ⟨hview, hcall, hquiet⟩ := hk
  obtain ⟨hexpected, hwaiter, hsendAck, -, hasm⟩ := view_eq_iff.mp hview
  refine ⟨hquiet, hexpected.trans h.expected, hwaiter.trans h.waiter, ?_,
    hasm.trans h.assembler, ?_⟩
  · intro hacked
    exact hsendAck.trans (h.sendAck hacked)
  · rw [hcall]
    exact h.call

theorem Answered.keeps (h : Answered b tab t text acked) (hk : Keeps b b' tab t) :
    Answered b' tab t text acked := by
  obtain ⟨hview, hcall, hquiet⟩ := hk
  obtain ⟨hexpected, -, hsendAck, -, -⟩ := view_eq_iff.mp hview
  refine ⟨hquiet, hexpected.trans h.expected, ?_, ?_⟩
  · intro hacked
    exact hsendAck.trans (h.sendAck hacked)
  · rw [hcall]
    exact h.call

/-- Only the phase of the turn's own call changes. -/
theorem Quiet.setPhase (hq : Quiet b tab t) (call : Call) :
    Quiet { b with calls := b.calls.insert t call } tab t := by
  intro t' c hne hc htab
  exact hq t' c hne ((FMap.insert_of_ne _ _ hne).symm.trans hc) htab

theorem wake_eq {call : Call} (hcall : b.calls t = some call) (expired : Bool) :
    b.wake t expired = { b with
      calls := b.calls.insert t { call with phase := b.nextPhase t call expired } } := by
  rw [WsBridge.wake, hcall]

theorem Waiting.poll (h : Waiting b tab t asm acked) :
    Waiting (b.wake t false) tab t asm acked := by
  obtain ⟨phase, hcall, hphase⟩ := h.call
  rw [wake_eq hcall]
  refine ⟨h.quiet.setPhase _, h.expected, h.waiter, h.sendAck, h.assembler, _, FMap.insert_self ..,
    ?_⟩
  rcases hphase with rfl | ⟨rfl, rfl⟩
  · cases acked with
    | true => exact .inr ⟨rfl, rfl⟩
    | false => exact .inl (by simp [WsBridge.nextPhase, WsBridge.ackSender, h.sendAck rfl])
  · exact .inr ⟨rfl, by simp [WsBridge.nextPhase, h.waiter]⟩

theorem Answered.poll (h : Answered b tab t text acked) :
    Answered (b.wake t false) tab t text acked := by
  obtain ⟨phase, hcall, hphase⟩ := h.call
  rw [wake_eq hcall]
  refine ⟨h.quiet.setPhase _, h.expected, h.sendAck, _, FMap.insert_self .., ?_⟩
  rcases hphase with rfl | ⟨rfl, rfl | rfl⟩
  · cases acked with
    | true => exact .inr ⟨rfl, .inl rfl⟩
    | false => exact .inl (by simp [WsBridge.nextPhase, WsBridge.ackSender, h.sendAck rfl])
  · exact .inr ⟨rfl, .inr rfl⟩
  · exact .inr ⟨rfl, .inr rfl⟩

/-- The acknowledgement reaches a call that has no response yet. -/
theorem Waiting.ack (h : Waiting b tab t asm false) (ha : a.IsAck parse tab t) :
    Waiting ((bridgeMachine parse).step b a) tab t asm true := by
  obtain ⟨raw, rfl, hraw⟩ := ha
  obtain ⟨phase, hcall, hphase⟩ := h.call
  show Waiting (b.inbound parse raw) tab t asm true
  -- The turn is still the expected one, so the handler finds its sender.
  have hhandled : b.server.handleSubmitAck tab (some t) =
      ({ b.server with pendingSendAck := b.server.pendingSendAck.erase (tab, t) },
        [.ack tab t]) := by
    simp [ServerState.handleSubmitAck, h.expected, h.sendAck rfl]
  rw [WsBridge.inbound, hraw]
  simp only [ServerState.handleInbound, hhandled]
  refine ⟨h.quiet.others_foldl _, h.expected, h.waiter, by simp,
    h.assembler, phase, ?_, .inl ?_⟩
  · simp [WsBridge.receive, WsBridge.atReceiver, hcall]
  · exact hphase.resolve_right fun hc => absurd hc.1 Bool.false_ne_true

/-- After the response an acknowledgement is dropped. -/
theorem Answered.ack (h : Answered b tab t text acked) (ha : a.IsAck parse tab t) :
    Answered ((bridgeMachine parse).step b a) tab t text acked := by
  obtain ⟨raw, rfl, hraw⟩ := ha
  -- The completing frame took the expected turn away.
  have hdropped : b.inbound parse raw = b := by
    rw [WsBridge.inbound, hraw]
    simp [ServerState.handleInbound, ServerState.handleSubmitAck, h.expected]
  show Answered (b.inbound parse raw) tab t text acked
  rw [hdropped]
  exact h

/-- The handler finds the turn of a frame. -/
theorem Waiting.effectiveTurnId (h : Waiting b tab t asm acked) {turnId : Option Nat}
    (hturn : turnId.getD t = t) : b.server.effectiveTurnId tab turnId = some t := by
  unfold ServerState.effectiveTurnId
  rw [h.expected]
  cases turnId with
  | none => rfl
  | some turnId =>
    obtain rfl : turnId = t := hturn
    simp

theorem chunk?_eq_some {chunk : Text} (h : a.chunk? parse tab t = some chunk) :
    ∃ raw turnId, a = .inbound raw ∧
      decodeMessage parse raw = .inboundMessage tab turnId chunk ∧ turnId.getD t = t := by
  cases a with
  | inbound raw =>
    simp only [Action.chunk?] at h
    split at h
    · rename_i tabId turnId chunk' hraw
      split at h
      · rename_i hown
        obtain ⟨rfl, hturn⟩ := hown
        obtain rfl := Option.some.inj h
        exact ⟨raw, turnId, rfl, hraw, hturn⟩
      · cases h
    · cases h
  | _ => cases h

/-- A frame that does not complete the response. -/
theorem Waiting.chunk (h : Waiting b tab t asm acked) {chunk : Text}
    (ha : a.chunk? parse tab t = some chunk) (hpush : (asm.push parse chunk).2 = none) :
    Waiting ((bridgeMachine parse).step b a) tab t (asm.push parse chunk).1 acked := by
  obtain ⟨raw, turnId, rfl, hraw, hturn⟩ := chunk?_eq_some ha
  show Waiting (b.inbound parse raw) tab t _ acked
  rw [WsBridge.inbound, hraw]
  simp only [ServerState.handleInbound, ServerState.handleInboundMessage,
    h.effectiveTurnId hturn, h.assembler, Option.getD_some, hpush, List.foldl_nil]
  exact ⟨h.quiet, h.expected, h.waiter, h.sendAck, FMap.insert_self ..,
    h.call⟩

/-- The frame that completes the response. -/
theorem Waiting.final (h : Waiting b tab t asm acked) {chunk : Text}
    (ha : a.chunk? parse tab t = some chunk) (hpush : (asm.push parse chunk).2 = some text) :
    Answered ((bridgeMachine parse).step b a) tab t text acked := by
  obtain ⟨raw, turnId, rfl, hraw, hturn⟩ := chunk?_eq_some ha
  obtain ⟨phase, hcall, hphase⟩ := h.call
  show Answered (b.inbound parse raw) tab t text acked
  rw [WsBridge.inbound, hraw]
  simp only [ServerState.handleInbound, ServerState.handleInboundMessage,
    h.effectiveTurnId hturn, h.assembler, Option.getD_some, hpush, ServerState.deliver, h.waiter]
  -- The sender of the acknowledgement stays behind in its table.
  refine ⟨h.quiet.others_foldl _, FMap.erase_self .., h.sendAck, phase, ?_, ?_⟩
  · simp [WsBridge.receive, WsBridge.atReceiver, hcall]
  · rcases hphase with rfl | ⟨rfl, rfl⟩
    · exact .inl rfl
    · exact .inr ⟨rfl, .inl rfl⟩

/-- Traffic that is not a frame of the turn. -/
theorem Waiting.other (h : Waiting b tab t asm acked) (ha : a.Traffic parse tab t)
    (hno : a.chunk? parse tab t = none) :
    Waiting ((bridgeMachine parse).step b a) tab t asm acked := by
  rcases ha with hchunk | rfl | hforeign
  · simp [hno] at hchunk
  · exact h.poll
  · obtain ⟨phase, hcall, -⟩ := h.call
    exact h.keeps (h.quiet.keeps_foreign hcall rfl hforeign)

theorem Answered.other (h : Answered b tab t text acked) (ha : a.Traffic parse tab t)
    (hno : a.chunk? parse tab t = none) :
    Answered ((bridgeMachine parse).step b a) tab t text acked := by
  rcases ha with hchunk | rfl | hforeign
  · simp [hno] at hchunk
  · exact h.poll
  · obtain ⟨phase, hcall, -⟩ := h.call
    exact h.keeps (h.quiet.keeps_foreign hcall rfl hforeign)

end Stages

/-! ### Runs -/

section Runs

variable {parse : Text → Option Json} {b : WsBridge} {tab : TabId} {t : Nat}
  {asm : FrameAssembler} {acked : Bool} {text : Text} {acts : List Action}

theorem chunksOf_cons_none {a : Action} (h : a.chunk? parse tab t = none) (acts : List Action) :
    chunksOf parse tab t (a :: acts) = chunksOf parse tab t acts := by
  simp [chunksOf, h]

theorem chunksOf_cons_some {a : Action} {chunk : Text} (h : a.chunk? parse tab t = some chunk)
    (acts : List Action) :
    chunksOf parse tab t (a :: acts) = chunk :: chunksOf parse tab t acts := by
  simp [chunksOf, h]

/-- The call goes on waiting while chunks are still to come. -/
theorem Waiting.run_part (h : Waiting b tab t asm acked)
    (htraffic : ∀ a ∈ acts, a.Traffic parse tab t) {rest : List Text} (hrest : rest ≠ [])
    (hcomplete : Completes parse asm (chunksOf parse tab t acts ++ rest) text) :
    ∃ asm', Waiting ((bridgeMachine parse).run b acts) tab t asm' acked ∧
      Completes parse asm' rest text := by
  induction acts generalizing b asm with
  | nil => exact ⟨asm, h, hcomplete⟩
  | cons a acts ih =>
    have hrest' : ∀ a' ∈ acts, a'.Traffic parse tab t := fun a' ha' => htraffic a' (by simp [ha'])
    cases hchunk : a.chunk? parse tab t with
    | none =>
      rw [chunksOf_cons_none hchunk] at hcomplete
      exact ih (h.other (htraffic a (by simp)) hchunk) hrest' hcomplete
    | some chunk =>
      rw [chunksOf_cons_some hchunk, List.cons_append] at hcomplete
      -- More chunks are to come, so this one does not complete the response.
      obtain ⟨-, hnil⟩ | ⟨hpush, hlater⟩ := hcomplete
      · exact absurd (List.append_eq_nil_iff.mp hnil).2 hrest
      · exact ih (h.chunk hchunk hpush) hrest' hlater

/-- Once the response is there, only the acknowledgement could matter. -/
theorem Answered.run (h : Answered b tab t text acked)
    (htraffic : ∀ a ∈ acts, a.Traffic parse tab t) (hno : chunksOf parse tab t acts = []) :
    Answered ((bridgeMachine parse).run b acts) tab t text acked := by
  induction acts generalizing b with
  | nil => exact h
  | cons a acts ih =>
    have hrest : ∀ a' ∈ acts, a'.Traffic parse tab t := fun a' ha' => htraffic a' (by simp [ha'])
    cases hchunk : a.chunk? parse tab t with
    | none =>
      rw [chunksOf_cons_none hchunk] at hno
      exact ih (h.other (htraffic a (by simp)) hchunk) hrest hno
    | some chunk =>
      rw [chunksOf_cons_some hchunk] at hno
      cases hno

theorem Waiting.run_final (h : Waiting b tab t asm acked)
    (htraffic : ∀ a ∈ acts, a.Traffic parse tab t)
    (hcomplete : Completes parse asm (chunksOf parse tab t acts) text) :
    Answered ((bridgeMachine parse).run b acts) tab t text acked := by
  induction acts generalizing b asm with
  | nil => exact hcomplete.elim
  | cons a acts ih =>
    have hrest : ∀ a' ∈ acts, a'.Traffic parse tab t := fun a' ha' => htraffic a' (by simp [ha'])
    cases hchunk : a.chunk? parse tab t with
    | none =>
      rw [chunksOf_cons_none hchunk] at hcomplete
      exact ih (h.other (htraffic a (by simp)) hchunk) hrest hcomplete
    | some chunk =>
      rw [chunksOf_cons_some hchunk] at hcomplete
      obtain ⟨hpush, hnil⟩ | ⟨hpush, hlater⟩ := hcomplete
      · exact (h.final hchunk hpush).run hrest hnil
      · exact ih (h.chunk hchunk hpush) hrest hlater

/-- The call of turn `t` stands at `phase`. -/
def AtPhase (b : WsBridge) (t : Nat) (phase : Phase) : Prop :=
  ∃ call, b.calls t = some call ∧ call.phase = phase

variable {result : Except WsBridgeError (Option Text)}

theorem AtPhase.wake_done (h : AtPhase b t (.done result)) (expired : Bool) :
    AtPhase (b.wake t expired) t (.done result) := by
  obtain ⟨call, hcall, hdone⟩ := h
  rw [wake_eq hcall]
  exact ⟨_, FMap.insert_self .., by simp [WsBridge.nextPhase, hdone]⟩

theorem AtPhase.cleanup_done (h : AtPhase b t (.done result)) :
    AtPhase (b.cleanup t) t (.done result) := by
  obtain ⟨call, hcall, hdone⟩ := h
  simp only [WsBridge.cleanup, hcall, hdone]
  exact ⟨call, hcall, hdone⟩

theorem AtPhase.cleanup_failed {error : WsBridgeError} (h : AtPhase b t (.failed acked error)) :
    AtPhase (b.cleanup t) t (.done (.error error)) := by
  obtain ⟨call, hcall, hfailed⟩ := h
  simp only [WsBridge.cleanup, hcall, hfailed]
  exact ⟨_, FMap.insert_self .., rfl⟩

theorem AtPhase.outcome (h : AtPhase b t (.done result)) : b.outcome t = some result := by
  obtain ⟨call, hcall, hdone⟩ := h
  simp [WsBridge.outcome, hcall, hdone]

/-- When the timers run out, the call has its response, or it has waited in vain
    for the acknowledgement. -/
theorem Answered.timers (h : Answered b tab t text acked) (parse : Text → Option Json) :
    ((bridgeMachine parse).run b (timers t)).outcome t =
      some (if acked then .ok (some text) else .error .timeout) := by
  obtain ⟨phase, hcall, hphase⟩ := h.call
  show ((((b.wake t true).cleanup t).wake t true).cleanup t).outcome t = _
  cases acked with
  | false =>
    -- The response is in its channel, but the call still looks at the other one.
    obtain rfl : phase = .awaitAck := hphase.resolve_right fun hc => nomatch hc.1
    have hfailed : AtPhase (b.wake t true) t (.failed false .timeout) := by
      rw [wake_eq hcall]
      exact ⟨_, FMap.insert_self .., by
        simp [WsBridge.nextPhase, WsBridge.ackSender, h.sendAck rfl]⟩
    exact (hfailed.cleanup_failed.wake_done true).cleanup_done.outcome
  | true =>
    rcases hphase with rfl | ⟨-, rfl | rfl⟩
    -- The first timer only finds the acknowledgement, the second one the response.
    · have hwake : b.wake t true = { b with
          calls := b.calls.insert t
            { kind := .send, tabId := tab, phase := .awaitResponse, acked := true,
              reply := some text } } := by
        rw [wake_eq hcall]
        rfl
      have hcleanup : (b.wake t true).cleanup t = b.wake t true := by
        simp [hwake, WsBridge.cleanup]
      have hdone : AtPhase ((b.wake t true).wake t true) t (.done (.ok (some text))) := by
        rw [hwake, wake_eq (FMap.insert_self ..)]
        exact ⟨_, FMap.insert_self .., rfl⟩
      rw [hcleanup]
      exact hdone.cleanup_done.outcome
    · have hdone : AtPhase (b.wake t true) t (.done (.ok (some text))) := by
        rw [wake_eq hcall]
        exact ⟨_, FMap.insert_self .., rfl⟩
      exact (hdone.cleanup_done.wake_done true).cleanup_done.outcome
    · have hdone : AtPhase b t (.done (.ok (some text))) := ⟨_, hcall, rfl⟩
      exact ((hdone.wake_done true).cleanup_done.wake_done true).cleanup_done.outcome

/-- A new turn on a tab without other turns. -/
theorem Waiting.start (hq : NoOtherTurn b tab) (htaken : b.Taken t) (url : String) (text : Text) :
    Waiting ((bridgeMachine parse).step b (.startTurn t .send tab url text)) tab t
      (.new (b.turnSite tab url)) false := by
  have hstep : (bridgeMachine parse).step b (.startTurn t .send tab url text) =
      b.startTurn t .send tab url text := if_pos htaken
  have hview : (b.startTurn t .send tab url text).server.view tab t =
      { expected := some t, waiter := some (), sendAck := some (),
        submit := b.server.pendingSubmit (tab, t),
        assembler := some (.new (b.turnSite tab url)) } := by
    unfold WsBridge.startTurn
    dsimp only
    rw [view_sendOrQueue]
    ext1
    · simp [ServerState.prepareAssembler]
    · simp [ServerState.prepareAssembler]
    · simp [ServerState.prepareAssembler]
    · rfl
    · cases hasm : b.server.tabAssemblers tab <;>
        simp [ServerState.prepareAssembler, WsBridge.turnSite, hasm]
  rw [hstep]
  refine ⟨?_, ?_, ?_, fun _ => ?_, ?_, .awaitAck, FMap.insert_self .., .inl rfl⟩
  · intro t' call hne hcall htab
    exact hq t' call ((FMap.insert_of_ne _ _ hne).symm.trans hcall) htab
  · exact congrArg TurnView.expected hview
  · exact congrArg TurnView.waiter hview
  · exact congrArg TurnView.sendAck hview
  · exact congrArg TurnView.assembler hview

/-- **When a turn gets its response.**  A turn is sent on a tab without other
    turns; its acknowledgement is handled somewhere among the frames of the
    response, with any other traffic in between, before the timers run out.  The
    call returns the response if and only if a frame of it is still to come when
    the acknowledgement is handled. -/
theorem send_turn_answers_iff (parse : Text → Option Json) (b : WsBridge) (tab : TabId)
    (t : Nat) (url : String) (message reply : Text) (before after : List Action) (ack : Action)
    (hquiet : NoOtherTurn b tab) (htaken : b.Taken t)
    (hbefore : ∀ a ∈ before, a.Traffic parse tab t)
    (hack : ack.IsAck parse tab t)
    (hafter : ∀ a ∈ after, a.Traffic parse tab t)
    (hreply : Completes parse (.new (b.turnSite tab url))
      (chunksOf parse tab t before ++ chunksOf parse tab t after) reply) :
    ((bridgeMachine parse).run b (.startTurn t .send tab url message ::
        (before ++ ack :: after ++ timers t))).outcome t
        = some (.ok (some reply)) ↔
      chunksOf parse tab t after ≠ [] := by
  have hstart : Waiting ((bridgeMachine parse).step b (.startTurn t .send tab url message)) tab
      t (.new (b.turnSite tab url)) false := Waiting.start hquiet htaken url message
  rw [Machine.run_cons, List.append_assoc, Machine.run_append, List.cons_append, Machine.run_cons,
    Machine.run_append]
  constructor
  · intro houtcome hno
    -- The response was complete before the acknowledgement came.
    rw [hno, List.append_nil] at hreply
    have hdropped := ((hstart.run_final hbefore hreply).ack hack).run hafter hno
    rw [hdropped.timers parse] at houtcome
    cases houtcome
  · intro hmore
    obtain ⟨asm, hwaiting, hlater⟩ := hstart.run_part hbefore hmore hreply
    exact ((hwaiting.ack hack).run_final hafter hlater).timers parse

end Runs

/-! ### A sample turn -/

def sampleUrl : String := "https://chatgpt.com/"

def ackText : String := "\x7b\"type\":\"SUBMIT_ACK\",\"tabId\":1,\"turnId\":1,\"ts\":0\x7d"

def deltaPayload : String := "\x7b\"v\":\"hi\"\x7d"

def deltaText : String :=
  "\x7b\"type\":\"INBOUND_MESSAGE\",\"tabId\":1,\"payload\":\"\x7b\\\"v\\\":\\\"hi\\\"\x7d\"\x7d"

def doneText : String :=
  "\x7b\"type\":\"INBOUND_MESSAGE\",\"tabId\":1,\"payload\":\"[DONE]\"\x7d"

/-- Texts with the values they stand for. -/
def sampleValues : List (String × Json) :=
  [(ackText,
    .obj [("type", .str "SUBMIT_ACK"), ("tabId", .nat 1), ("turnId", .nat 1), ("ts", .nat 0)]),
   (deltaText,
    .obj [("type", .str "INBOUND_MESSAGE"), ("tabId", .nat 1), ("payload", .str deltaPayload)]),
   (doneText,
    .obj [("type", .str "INBOUND_MESSAGE"), ("tabId", .nat 1), ("payload", .str "[DONE]")]),
   (deltaPayload, .obj [("v", .str "hi")])]

/-- The JSON parser as it behaves on these texts. -/
def sampleParse (text : Text) : Option Json :=
  (sampleValues.find? (·.1 == String.ofList text)).map (·.2)

def sampleAck : Action := .inbound ackText.toList

def sampleDelta : Action := .inbound deltaText.toList

def sampleDone : Action := .inbound doneText.toList

/-- A text that is known stands for its value. -/
theorem sampleParse_toList (s : String) :
    sampleParse s.toList = (sampleValues.find? (·.1 == s)).map (·.2) := by
  rw [sampleParse, String.ofList_toList]

theorem sampleParse_ack : sampleParse ackText.toList = some (.obj [("type", .str "SUBMIT_ACK"),
    ("tabId", .nat 1), ("turnId", .nat 1), ("ts", .nat 0)]) := by
  rw [sampleParse_toList]
  rfl

theorem sampleParse_delta : sampleParse deltaText.toList = some (.obj [("type",
    .str "INBOUND_MESSAGE"), ("tabId", .nat 1), ("payload", .str deltaPayload)]) := by
  rw [sampleParse_toList]
  rfl

theorem sampleParse_done : sampleParse doneText.toList = some (.obj [("type",
    .str "INBOUND_MESSAGE"), ("tabId", .nat 1), ("payload", .str "[DONE]")]) := by
  rw [sampleParse_toList]
  rfl

theorem sampleAck_isAck : sampleAck.IsAck sampleParse 1 1 := by
  refine ⟨ackText.toList, rfl, ?_⟩
  rw [decodeMessage, sampleParse_ack]
  rfl

theorem sampleParse_payload :
    sampleParse deltaPayload.toList = some (.obj [("v", .str "hi")]) := by
  rw [sampleParse_toList]
  rfl

theorem readPayload_delta :
    readPayload sampleParse deltaPayload.toList = (none, deltaPayload.toList) := by
  have hbrace : (Text.trimStart deltaPayload.toList).head? = some '{' := rfl
  rw [readPayload, if_pos hbrace, sampleParse_payload]
  rfl

theorem readPayload_done : readPayload sampleParse "[DONE]".toList = (none, "[DONE]".toList) := by
  have hbrace : ¬ (Text.trimStart "[DONE]".toList).head? = some '{' := by decide +kernel
  rw [readPayload, if_neg hbrace]

theorem sampleDelta_chunk : sampleDelta.chunk? sampleParse 1 1 = some deltaPayload.toList := by
  have hmessage : decodeMessage sampleParse deltaText.toList =
      let read := readPayload sampleParse deltaPayload.toList
      .inboundMessage 1 read.1 read.2 := by
    rw [decodeMessage, sampleParse_delta]
    rfl
  rw [sampleDelta, Action.chunk?, hmessage, readPayload_delta]
  rfl

theorem sampleDone_chunk : sampleDone.chunk? sampleParse 1 1 = some "[DONE]".toList := by
  have hmessage : decodeMessage sampleParse doneText.toList =
      let read := readPayload sampleParse "[DONE]".toList
      .inboundMessage 1 read.1 read.2 := by
    rw [decodeMessage, sampleParse_done]
    rfl
  rw [sampleDone, Action.chunk?, hmessage, readPayload_done]
  rfl

/-- The bridge when the call has its number. -/
def sampleBridge : WsBridge := WsBridge.spawn.takeTurnId

/-- The delta goes into the buffer, and the end of the stream gives it back. -/
theorem sample_pushes :
    ((FrameAssembler.new (sampleBridge.turnSite 1 sampleUrl)).push sampleParse
        deltaPayload.toList).2 = none ∧
      (((FrameAssembler.new (sampleBridge.turnSite 1 sampleUrl)).push sampleParse
        deltaPayload.toList).1.push sampleParse "[DONE]".toList).2 = some "hi".toList := by
  have hsite : sampleBridge.turnSite 1 sampleUrl = .chatGptPrivate := by decide +kernel
  have hdelta : classifyFrame sampleParse .chatGptPrivate deltaPayload.toList =
      .executionDelta "hi".toList := by
    have hdata : frameData deltaPayload.toList = deltaPayload.toList := rfl
    rw [classifyFrame, classifyChatgptPrivate, hdata, sampleParse_payload]
    rfl
  have hdone : classifyFrame sampleParse .chatGptPrivate "[DONE]".toList = .done := rfl
  have hfirst : (FrameAssembler.new .chatGptPrivate).push sampleParse deltaPayload.toList =
      ({ site := .chatGptPrivate, deltas := ["hi".toList], raw := [] }, none) := by
    simp only [FrameAssembler.push, FrameAssembler.new, hdelta, List.nil_append]
  have hlast : (FrameAssembler.push sampleParse
      { site := .chatGptPrivate, deltas := ["hi".toList], raw := [] } "[DONE]".toList).2 =
        some "hi".toList := by
    simp only [FrameAssembler.push, hdone]
    rfl
  rw [hsite, hfirst]
  exact ⟨rfl, hlast⟩

theorem sample_completes :
    Completes sampleParse (.new (sampleBridge.turnSite 1 sampleUrl))
      [deltaPayload.toList, "[DONE]".toList] "hi".toList :=
  .inr ⟨sample_pushes.1, .inl ⟨sample_pushes.2, rfl⟩⟩

/-- The acknowledgement comes between the two frames. -/
theorem send_turn_answers_sample :
    ((bridgeMachine sampleParse).run sampleBridge (.startTurn 1 .send 1 sampleUrl "hello".toList ::
        ([sampleDelta] ++ sampleAck :: [sampleDone] ++ timers 1))).outcome 1
      = some (.ok (some "hi".toList)) := by
  have hdelta : chunksOf sampleParse 1 1 [sampleDelta] = [deltaPayload.toList] :=
    chunksOf_cons_some sampleDelta_chunk []
  have hdone : chunksOf sampleParse 1 1 [sampleDone] = ["[DONE]".toList] :=
    chunksOf_cons_some sampleDone_chunk []
  refine (send_turn_answers_iff sampleParse sampleBridge 1 1 sampleUrl "hello".toList "hi".toList
    [sampleDelta] [sampleDone] sampleAck ?_ (by decide) ?_ sampleAck_isAck ?_ ?_).mpr ?_
  · intro t call hcall
    cases hcall
  · intro a ha
    rw [List.mem_singleton.mp ha]
    exact .inl (by rw [sampleDelta_chunk]; rfl)
  · intro a ha
    rw [List.mem_singleton.mp ha]
    exact .inl (by rw [sampleDone_chunk]; rfl)
  · rw [hdelta, hdone]
    exact sample_completes
  · rw [hdone]
    exact List.cons_ne_nil _ _

/-- The acknowledgement comes after both frames: the call times out although the
    response has been sent to it. -/
theorem late_ack_times_out :
    chunksOf sampleParse 1 1 [sampleDelta, sampleDone] = [deltaPayload.toList, "[DONE]".toList] ∧
      Completes sampleParse (.new (sampleBridge.turnSite 1 sampleUrl))
        [deltaPayload.toList, "[DONE]".toList] "hi".toList ∧
      sampleAck.IsAck sampleParse 1 1 ∧
      ((bridgeMachine sampleParse).run sampleBridge
        (.startTurn 1 .send 1 sampleUrl "hello".toList ::
        ([sampleDelta, sampleDone] ++ sampleAck :: [] ++ timers 1))).outcome 1
        = some (.error .timeout) := by
  refine ⟨?_, sample_completes, sampleAck_isAck, ?_⟩
  · rw [chunksOf_cons_some sampleDelta_chunk, chunksOf_cons_some sampleDone_chunk]
    rfl
  · have hstart : Waiting ((bridgeMachine sampleParse).step sampleBridge
        (.startTurn 1 .send 1 sampleUrl "hello".toList)) 1 1
        (.new (sampleBridge.turnSite 1 sampleUrl)) false := by
      apply Waiting.start _ (by decide)
      intro t call hcall
      cases hcall
    have hfinal :=
      (hstart.chunk sampleDelta_chunk sample_pushes.1).final sampleDone_chunk sample_pushes.2
    have htimeout := (hfinal.ack sampleAck_isAck).timers sampleParse
    simp only [List.cons_append, List.nil_append, Machine.run_cons]
    exact htimeout

end Canon.Bridge
