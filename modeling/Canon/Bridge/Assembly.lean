import Canon.Bridge.Isolation

/-! # What a waiter gets

    Assemblers are kept by tab, waiters by tab and turn, and the expected turn by tab
    again.  Still the text a waiter gets is put together from the frames of its own
    turn: frames of other turns are turned away as long as the turn is expected, and
    once it is not, it never is again.

    The tape of a turn is what arrives for it after its call has entered: its frames
    and the changes of the tab's site, under which frames are read.  A message
    TURN_STARTED carries a number the page made up, never that of a call.
-/

namespace Canon.Bridge

/-! ### Tapes -/

inductive TapeEvent where
  | site (site : SiteType)
  | frame (chunk : Text)
deriving DecidableEq, Repr

variable (parse : Text → Option Json)

/-- What an action puts on the tape of turn `t` on `tab`. -/
def tapeEvent (tab : TabId) (t : Nat) : Action → Option TapeEvent
  | .inbound raw =>
    match decodeMessage parse raw with
    | .tabOpened tabId url => if tabId = tab then some (.site (.fromUrl url)) else none
    | .tabReady tabId url _ _ => if tabId = tab then some (.site (.fromUrl url)) else none
    | .inboundMessage tabId (some turnId) chunk =>
      if tabId = tab ∧ turnId = t then some (.frame chunk) else none
    | _ => none
  | _ => none

def tape (tab : TabId) (t : Nat) (acts : List Action) :
    List TapeEvent :=
  acts.filterMap (tapeEvent parse tab t)

/-- Either more frames are needed, or the response is there. -/
inductive Assembly where
  | running (asm : FrameAssembler)
  | complete (text : Text)
deriving DecidableEq, Repr

/-- Frames pushed one after the other until the response is complete. -/
def assemblyMachine : Machine Assembly TapeEvent where
  step
    | .complete text, _ => .complete text
    | .running asm, .site site => .running (asm.setSite site)
    | .running asm, .frame chunk =>
      match asm.push parse chunk with
      | (asm, none) => .running asm
      | (_, some text) => .complete text

/-- The assembly of a tape. -/
def assemble (asm : FrameAssembler) (events : List TapeEvent) :
    Assembly :=
  (assemblyMachine parse).run (.running asm) events

section Tape

variable {parse : Text → Option Json} {tab : TabId} {t : Nat} {asm : FrameAssembler}

theorem assemble_snoc (parse : Text → Option Json) (asm : FrameAssembler)
    (events : List TapeEvent) (event : TapeEvent) :
    assemble parse asm (events ++ [event]) =
      (assemblyMachine parse).step (assemble parse asm events) event :=
  Machine.run_snoc _ _ _ _

/-- A complete response stays as it is. -/
theorem assemble_append_of_complete {events : List TapeEvent} {text : Text}
    (h : assemble parse asm events = .complete text) (more : List TapeEvent) :
    assemble parse asm (events ++ more) = .complete text := by
  induction more using List.reverseRecOn with
  | nil => simpa using h
  | append_singleton more event ih =>
    rw [← List.append_assoc, assemble_snoc, ih]
    rfl

theorem tape_snoc (parse : Text → Option Json) (tab : TabId) (t : Nat) (acts : List Action)
    (a : Action) :
    tape parse tab t (acts ++ [a]) = tape parse tab t acts ++ (tapeEvent parse tab t a).toList := by
  unfold tape
  rw [List.filterMap_append]
  cases h : tapeEvent parse tab t a with
  | none => simp [h]
  | some event => simp [h]

/-- Messages about other tabs are not on the tape. -/
theorem tapeEvent_of_ne {raw : Text} (h : (decodeMessage parse raw).tabId? ≠ some tab) :
    tapeEvent parse tab t (.inbound raw) = none := by
  cases hmsg : decodeMessage parse raw with
  | tabOpened tabId url =>
    have hne : tabId ≠ tab := by
      rintro rfl
      exact h (by rw [hmsg]; rfl)
    simp [tapeEvent, hmsg, hne]
  | tabReady tabId url originalUrl reqId =>
    have hne : tabId ≠ tab := by
      rintro rfl
      exact h (by rw [hmsg]; rfl)
    simp [tapeEvent, hmsg, hne]
  | inboundMessage tabId turnId chunk =>
    have hne : tabId ≠ tab := by
      rintro rfl
      exact h (by rw [hmsg]; rfl)
    cases turnId <;> simp [tapeEvent, hmsg, hne]
  | _ => simp [tapeEvent, hmsg]

/-- A frame is on the tape of one turn only. -/
theorem tapeEvent_frame_unique {tab' : TabId} {t' : Nat} {a : Action} {chunk chunk' : Text}
    (h : tapeEvent parse tab t a = some (.frame chunk))
    (h' : tapeEvent parse tab' t' a = some (.frame chunk')) : tab = tab' ∧ t = t' := by
  have hframe : ∀ {tab t chunk}, tapeEvent parse tab t a = some (.frame chunk) →
      ∃ raw, a = .inbound raw ∧ decodeMessage parse raw = .inboundMessage tab (some t) chunk := by
    intro tab t chunk h
    cases a with
    | inbound raw =>
      refine ⟨raw, rfl, ?_⟩
      cases hmsg : decodeMessage parse raw with
      | inboundMessage tabId turnId chunk' =>
        cases turnId with
        | none => simp [tapeEvent, hmsg] at h
        | some turnId =>
          simp only [tapeEvent, hmsg] at h
          split at h
          · rename_i heq
            obtain ⟨rfl, rfl⟩ := heq
            cases h
            rfl
          · cases h
      | tabOpened tabId url => simp [tapeEvent, hmsg] at h
      | tabReady tabId url originalUrl reqId => simp [tapeEvent, hmsg] at h
      | _ => simp [tapeEvent, hmsg] at h
    | _ => cases h
  obtain ⟨raw, rfl, hraw⟩ := hframe h
  obtain ⟨raw', heq, hraw'⟩ := hframe h'
  obtain rfl := Action.inbound.inj heq
  rw [hraw] at hraw'
  simp only [InMsg.inboundMessage.injEq, Option.some.injEq] at hraw'
  exact ⟨hraw'.1, hraw'.2.1⟩

end Tape

/-! ### Following a turn -/

/-- The turn is expected, and the tab's assembler has read its tape. -/
def Reading (parse : Text → Option Json) (st : ServerState) (tab : TabId) (t : Nat)
    (asm : FrameAssembler) (events : List TapeEvent) : Prop :=
  st.pendingTurnId tab = some t ∧
    ∃ asm', st.tabAssemblers tab = some asm' ∧ assemble parse asm events = .running asm'

/-- Either the turn is expected and its response is still to come; or it is not
    expected any more, and if there is a response it is the assembly of the tape. -/
def Follows (parse : Text → Option Json) (b : WsBridge) (tab : TabId) (t : Nat)
    (asm : FrameAssembler) (events : List TapeEvent) : Prop :=
  ∃ call, b.calls t = some call ∧ call.tabId = tab ∧
    (Reading parse b.server tab t asm events ∧ call.reply = none ∨
      b.server.pendingTurnId tab ≠ some t ∧
        ∀ text, call.reply = some text → assemble parse asm events = .complete text)

/-- The frames of the run carry their turns, and no TURN_STARTED names this one. -/
def Orderly (parse : Text → Option Json) (tab : TabId) (t : Nat) : Action → Prop
  | .inbound raw =>
    (∀ tabId chunk, decodeMessage parse raw ≠ .inboundMessage tabId none chunk) ∧
      decodeMessage parse raw ≠ .turnStarted tab t
  | _ => True

section Follows

/-- The call of the turn has the tab and the reply it had. -/
def CallKept (t : Nat) (calls calls' : FMap Nat Call) : Prop :=
  ∀ call, calls t = some call →
    ∃ call', calls' t = some call' ∧ call'.tabId = call.tabId ∧ call'.reply = call.reply

variable {parse : Text → Option Json} {b b' : WsBridge} {tab : TabId} {t : Nat}
  {asm : FrameAssembler} {events : List TapeEvent}

theorem Reading.congr {st st' : ServerState} (h : Reading parse st tab t asm events)
    (hexpected : st'.pendingTurnId tab = st.pendingTurnId tab)
    (hasm : st'.tabAssemblers tab = st.tabAssemblers tab) :
    Reading parse st' tab t asm events := by
  obtain ⟨hturn, asm', hasm', hread⟩ := h
  exact ⟨hexpected.trans hturn, asm', hasm.trans hasm', hread⟩

/-- A step that leaves the tab's entries and the call's reply alone. -/
theorem Follows.congr (h : Follows parse b tab t asm events)
    (hcall : CallKept t b.calls b'.calls)
    (hexpected : b'.server.pendingTurnId tab = b.server.pendingTurnId tab)
    (hasm : b'.server.tabAssemblers tab = b.server.tabAssemblers tab) :
    Follows parse b' tab t asm events := by
  obtain ⟨call, hcall₀, htab, hstate⟩ := h
  obtain ⟨call', hcall', htab', hreply⟩ := hcall call hcall₀
  refine ⟨call', hcall', htab'.trans htab, ?_⟩
  rw [hreply]
  rcases hstate with ⟨hread, hnone⟩ | ⟨hother, htext⟩
  · exact .inl ⟨hread.congr hexpected hasm, hnone⟩
  · refine .inr ⟨?_, htext⟩
    rw [hexpected]
    exact hother

/-- A step after which the turn is not expected any more.  The tape may have grown. -/
theorem Follows.dropped (h : Follows parse b tab t asm events) (b' : WsBridge)
    (more : List TapeEvent)
    (hcall : CallKept t b.calls b'.calls)
    (hexpected : b'.server.pendingTurnId tab ≠ some t) :
    Follows parse b' tab t asm (events ++ more) := by
  obtain ⟨call, hcall₀, htab, hstate⟩ := h
  obtain ⟨call', hcall', htab', hreply⟩ := hcall call hcall₀
  refine ⟨call', hcall', htab'.trans htab, .inr ⟨hexpected, ?_⟩⟩
  intro text htext
  rw [hreply] at htext
  rcases hstate with ⟨-, hnone⟩ | ⟨-, hcomplete⟩
  · rw [hnone] at htext
    cases htext
  · exact assemble_append_of_complete (hcomplete text htext) more

theorem callKept_of_eq (h : b'.calls t = b.calls t) : CallKept t b.calls b'.calls :=
  fun call hcall => ⟨call, h.trans hcall, rfl, rfl⟩

/-- Signals other than a reply to the turn leave its reply alone. -/
theorem receive_reply {calls : FMap Nat Call} {sig : Signal}
    (hsig : ∀ tabId text, sig ≠ .reply tabId t text) :
    CallKept t calls (WsBridge.receive calls sig) := by
  intro call h
  cases sig with
  | ack tabId turnId =>
    simp only [WsBridge.receive, WsBridge.atReceiver, h, Option.map_some]
    split
    · exact ⟨_, rfl, rfl, rfl⟩
    · exact ⟨_, rfl, rfl, rfl⟩
  | reply tabId turnId text =>
    have hne : t ≠ turnId := by
      rintro rfl
      exact hsig tabId text rfl
    simp only [WsBridge.receive, WsBridge.atReceiver, h, Option.map_some]
    rw [if_neg fun hc => hne hc.1]
    exact ⟨_, rfl, rfl, rfl⟩
  | _ => exact ⟨call, h, rfl, rfl⟩

theorem foldl_receive_reply {calls : FMap Nat Call} {sigs : List Signal}
    (hsigs : ∀ sig ∈ sigs, ∀ tabId text, sig ≠ .reply tabId t text) :
    CallKept t calls (sigs.foldl WsBridge.receive calls) := by
  induction sigs generalizing calls with
  | nil => exact fun call h => ⟨call, h, rfl, rfl⟩
  | cons sig sigs ih =>
    intro call h
    obtain ⟨call₁, h₁, htab, hreply⟩ := receive_reply (hsigs sig (by simp)) call h
    obtain ⟨call₂, h₂, htab', hreply'⟩ := ih (fun s hs => hsigs s (by simp [hs])) call₁ h₁
    exact ⟨call₂, h₂, htab'.trans htab, hreply'.trans hreply⟩

/-! ### Frames -/

theorem handleInboundMessage_expected (st : ServerState) (tab : TabId) (turnId : Option Nat)
    (chunk : Text) :
    (st.handleInboundMessage parse tab turnId chunk).1.pendingTurnId tab = st.pendingTurnId tab ∨
      (st.handleInboundMessage parse tab turnId chunk).1.pendingTurnId tab = none := by
  unfold ServerState.handleInboundMessage
  split
  · exact .inl rfl
  · dsimp only
    split
    · exact .inl rfl
    · right
      unfold ServerState.deliver
      dsimp only
      split <;> simp

/-- A reply goes to the expected turn. -/
theorem handleInboundMessage_signal {st : ServerState} {turnId : Option Nat} {chunk : Text}
    {sig : Signal} (h : sig ∈ (st.handleInboundMessage parse tab turnId chunk).2) :
    ∃ expected text, st.pendingTurnId tab = some expected ∧ sig = .reply tab expected text := by
  unfold ServerState.handleInboundMessage at h
  split at h
  · cases h
  · rename_i expected heff
    have hexpected : st.pendingTurnId tab = some expected := by
      unfold ServerState.effectiveTurnId at heff
      split at heff
      · cases heff
      · rename_i e he
        split at heff
        · rw [he, heff]
        · split at heff
          · rw [he, heff]
          · cases heff
    dsimp only at h
    split at h
    · cases h
    · rename_i text _
      unfold ServerState.deliver at h
      dsimp only at h
      split at h
      · exact ⟨expected, text, hexpected, List.mem_singleton.mp h⟩
      · cases h

/-- A frame of the turn while it is expected. -/
theorem Follows.frame (h : Reading parse b.server tab t asm events) {call : Call}
    (hcall : b.calls t = some call) (htab : call.tabId = tab) (hnone : call.reply = none)
    {raw : Text} {chunk : Text}
    (hraw : decodeMessage parse raw = .inboundMessage tab (some t) chunk) :
    Follows parse (b.inbound parse raw) tab t asm (events ++ [.frame chunk]) := by
  obtain ⟨hturn, asm', hasm', hread⟩ := h
  have heff : b.server.effectiveTurnId tab (some t) = some t := by
    simp [ServerState.effectiveTurnId, hturn]
  have hmsg : b.server.handleInbound parse (decodeMessage parse raw) =
      b.server.handleInboundMessage parse tab (some t) chunk := by
    rw [hraw]
    rfl
  have hpush : assemble parse asm (events ++ [.frame chunk]) =
      match asm'.push parse chunk with
      | (asm, none) => .running asm
      | (_, some text) => .complete text := by
    rw [assemble_snoc, hread]
    rfl
  unfold WsBridge.inbound
  rw [hmsg]
  unfold ServerState.handleInboundMessage
  rw [heff]
  simp only [hasm', Option.getD_some]
  cases hpushed : asm'.push parse chunk with
  | mk asm'' out =>
    rw [hpushed] at hpush
    cases out with
    | none =>
      -- More frames are needed.
      refine ⟨call, hcall, htab, .inl ⟨⟨hturn, asm'', ?_, hpush⟩, hnone⟩⟩
      simp
    | some text =>
      -- The response is complete; it goes to the waiter, if there is one.
      simp only [ServerState.deliver]
      cases hwaiter : b.server.pending (tab, t) with
      | none =>
        refine ⟨call, hcall, htab, .inr ⟨by simp, ?_⟩⟩
        intro text' htext'
        rw [hnone] at htext'
        cases htext'
      | some _ =>
        refine ⟨{ call with reply := some text }, ?_, htab, .inr ⟨by simp, ?_⟩⟩
        · simp [WsBridge.receive, WsBridge.atReceiver, hcall, htab]
        · intro text' htext'
          rw [hpush, Option.some.inj htext']

/-- The tab's site changes; frames are read under the new one from now on. -/
theorem Follows.site (h : Follows parse b tab t asm events) (site : SiteType)
    (hcall : CallKept t b.calls b'.calls)
    (hexpected : b'.server.pendingTurnId tab = b.server.pendingTurnId tab)
    (hasm : b'.server.tabAssemblers tab = (b.server.setSite tab site).tabAssemblers tab) :
    Follows parse b' tab t asm (events ++ [.site site]) := by
  obtain ⟨call, hcall₀, htab, hstate⟩ := h
  obtain ⟨call', hcall', htab', hreply⟩ := hcall call hcall₀
  refine ⟨call', hcall', htab'.trans htab, ?_⟩
  rw [hreply]
  rcases hstate with ⟨⟨hturn, asm', hasm', hread⟩, hnone⟩ | ⟨hother, htext⟩
  · refine .inl ⟨⟨hexpected.trans hturn, asm'.setSite site, ?_, ?_⟩, hnone⟩
    · rw [hasm]
      simp [ServerState.setSite, hasm']
    · rw [assemble_snoc, hread]
      rfl
  · refine .inr ⟨hexpected ▸ hother, ?_⟩
    intro text hreply
    exact assemble_append_of_complete (htext text hreply) _

/-- The signals of a message that is no frame are no replies. -/
theorem handleInbound_no_reply {st : ServerState} {msg : InMsg}
    (hmsg : ∀ tabId turnId chunk, msg ≠ .inboundMessage tabId turnId chunk) :
    ∀ sig ∈ (st.handleInbound parse msg).2, ∀ tabId text, sig ≠ .reply tabId t text := by
  intro sig hsig tabId text hreply
  subst hreply
  cases msg with
  | ignored | tabOpened | tabClosed | tabClaimed | turnStarted => cases hsig
  | tabReady tabId url originalUrl reqId =>
    simp only [ServerState.handleInbound, ServerState.handleTabReady] at hsig
    split at hsig
    · split at hsig <;> simp at hsig
    · split at hsig <;> simp at hsig
  | submitAck tabId turnId =>
    simp only [ServerState.handleInbound, ServerState.handleSubmitAck] at hsig
    split at hsig
    · simp at hsig
    · split at hsig
      · simp at hsig
      · split at hsig
        · simp at hsig
        · split at hsig <;> simp at hsig
  | inboundMessage tabId turnId chunk => exact hmsg _ _ _ rfl
  | newChatDone tabId =>
    simp only [ServerState.handleInbound] at hsig
    split at hsig <;> simp at hsig
  | tempChatDone tabId =>
    simp only [ServerState.handleInbound] at hsig
    split at hsig <;> simp at hsig

/-- A frame on the tab of the turn, of this turn or of another one. -/
theorem Follows.inbound_frame (h : Follows parse b tab t asm events) {raw : Text}
    {turnId : Nat} {chunk : Text}
    (hmsg : decodeMessage parse raw = .inboundMessage tab (some turnId) chunk) :
    Follows parse (b.inbound parse raw) tab t asm
      (events ++ (tapeEvent parse tab t (.inbound raw)).toList) := by
  obtain ⟨call, hcall, htab, hstate⟩ := h
  rcases hstate with ⟨hread, hnone⟩ | ⟨hother, htext⟩
  · by_cases ht : turnId = t
    · subst ht
      have hevent : tapeEvent parse tab turnId (.inbound raw) = some (.frame chunk) := by
        simp [tapeEvent, hmsg]
      rw [hevent]
      exact Follows.frame hread hcall htab hnone hmsg
    -- A frame of another turn is turned away.
    · have hevent : tapeEvent parse tab t (.inbound raw) = none := by
        simp [tapeEvent, hmsg, ht]
      have heff : b.server.effectiveTurnId tab (some turnId) = none := by
        simp [ServerState.effectiveTurnId, hread.1, ht]
      have hsame : b.inbound parse raw = b := by
        simp [WsBridge.inbound, hmsg, ServerState.handleInbound,
          ServerState.handleInboundMessage, heff]
      rw [hevent, hsame, Option.toList_none, List.append_nil]
      exact ⟨call, hcall, htab, .inl ⟨hread, hnone⟩⟩
  · apply Follows.dropped (b := b) ⟨call, hcall, htab, .inr ⟨hother, htext⟩⟩ (b.inbound parse raw)
    · apply foldl_receive_reply
      intro sig hsig tabId' text hreply
      rw [hmsg] at hsig
      obtain ⟨expected, text', hexpected, rfl⟩ := handleInboundMessage_signal hsig
      cases hreply
      exact hother hexpected
    · show (b.server.handleInbound parse (decodeMessage parse raw)).1.pendingTurnId tab ≠ _
      rw [hmsg]
      rcases handleInboundMessage_expected b.server tab (some turnId) chunk with he | he
      · exact fun hc => hother (he.symm.trans hc)
      · intro hc
        cases he.symm.trans hc

theorem handleTabReady_entries (st : ServerState) (tab : TabId) (url : String)
    (originalUrl : Option String) (reqId : Option Nat) :
    (st.handleTabReady tab url originalUrl reqId).1.pendingTurnId = st.pendingTurnId ∧
      (st.handleTabReady tab url originalUrl reqId).1.tabAssemblers =
        (st.setSite tab (.fromUrl url)).tabAssemblers := by
  unfold ServerState.handleTabReady
  dsimp only
  split
  · split <;> exact ⟨rfl, rfl⟩
  · split <;> exact ⟨rfl, rfl⟩

theorem handleSubmitAck_entries (st : ServerState) (tab : TabId) (turnId : Option Nat) :
    (st.handleSubmitAck tab turnId).1.pendingTurnId = st.pendingTurnId ∧
      (st.handleSubmitAck tab turnId).1.tabAssemblers = st.tabAssemblers := by
  unfold ServerState.handleSubmitAck
  split
  · exact ⟨rfl, rfl⟩
  · split
    · exact ⟨rfl, rfl⟩
    · split
      · exact ⟨rfl, rfl⟩
      · split <;> exact ⟨rfl, rfl⟩

/-- Another turn starts on the tab: it takes the assembler, unless a turn is expected. -/
theorem Follows.turnStarted (h : Follows parse b tab t asm events)
    (hcalls : CallKept t b.calls b'.calls) {turnId : Nat} (hne : turnId ≠ t)
    (hserver : b'.server = b.server.handleTurnStarted tab turnId) :
    Follows parse b' tab t asm events := by
  unfold ServerState.handleTurnStarted at hserver
  split at hserver
  · exact h.congr hcalls (by rw [hserver]) (by rw [hserver])
  · have hdropped := h.dropped b' [] hcalls ?_
    · rwa [List.append_nil] at hdropped
    · rw [hserver]
      simp [ServerState.prepareAssembler, hne]

/-- A message about the tab of the turn. -/
theorem Follows.inbound_same (h : Follows parse b tab t asm events) {raw : Text}
    (horderly : Orderly parse tab t (.inbound raw))
    (htabId : (decodeMessage parse raw).tabId? = some tab) :
    Follows parse (b.inbound parse raw) tab t asm
      (events ++ (tapeEvent parse tab t (.inbound raw)).toList) := by
  obtain ⟨hnamed, hstarted⟩ := horderly
  by_cases hframe :
    ∃ tabId turnId chunk, decodeMessage parse raw = .inboundMessage tabId turnId chunk
  · obtain ⟨tabId, turnId, chunk, hmsg⟩ := hframe
    obtain rfl : tabId = tab := by
      rw [hmsg] at htabId
      exact Option.some.inj htabId
    cases turnId with
    | none => exact absurd hmsg (hnamed _ _)
    | some turnId => exact h.inbound_frame hmsg
  -- Anything but a frame answers no waiter.
  have hcalls : CallKept t b.calls (b.inbound parse raw).calls := by
    refine foldl_receive_reply (handleInbound_no_reply ?_)
    intro tabId turnId chunk hmsg
    exact hframe ⟨tabId, turnId, chunk, hmsg⟩
  have hserver : (b.inbound parse raw).server =
      (b.server.handleInbound parse (decodeMessage parse raw)).1 := rfl
  generalize hevent : tapeEvent parse tab t (.inbound raw) = event
  simp only [tapeEvent] at hevent
  generalize decodeMessage parse raw = msg at *
  cases msg with
  | ignored => cases htabId
  | inboundMessage tabId turnId chunk => exact absurd ⟨tabId, turnId, chunk, rfl⟩ hframe
  | tabOpened tabId url =>
    obtain rfl : tabId = tab := Option.some.inj htabId
    obtain rfl : some (.site (.fromUrl url)) = event := by simpa using hevent
    apply h.site _ hcalls
    · rw [hserver]
      rfl
    · rw [hserver]
      rfl
  | tabReady tabId url originalUrl reqId =>
    obtain rfl : tabId = tab := Option.some.inj htabId
    obtain rfl : some (.site (.fromUrl url)) = event := by simpa using hevent
    obtain ⟨hexpected, hasm⟩ := handleTabReady_entries b.server tabId url originalUrl reqId
    apply h.site _ hcalls
    · rw [hserver]
      exact congrFun hexpected _
    · rw [hserver]
      exact congrFun hasm _
  | tabClosed tabId =>
    obtain rfl : tabId = tab := Option.some.inj htabId
    apply h.dropped (b.inbound parse raw) _ hcalls
    rw [hserver]
    simp [ServerState.handleInbound, ServerState.handleTabClosed]
  | turnStarted tabId turnId =>
    obtain rfl : tabId = tab := Option.some.inj htabId
    have hne : turnId ≠ t := by
      rintro rfl
      exact hstarted rfl
    obtain rfl : none = event := hevent
    rw [Option.toList_none, List.append_nil]
    exact h.turnStarted hcalls hne hserver
  | tabClaimed tabId =>
    obtain rfl : none = event := hevent
    rw [Option.toList_none, List.append_nil]
    exact h.congr hcalls (by rw [hserver]; rfl) (by rw [hserver]; rfl)
  | submitAck tabId turnId =>
    obtain rfl : none = event := hevent
    rw [Option.toList_none, List.append_nil]
    obtain ⟨hexpected, hasm⟩ := handleSubmitAck_entries b.server tabId turnId
    exact h.congr hcalls (by rw [hserver]; exact congrFun hexpected _)
      (by rw [hserver]; exact congrFun hasm _)
  | newChatDone tabId =>
    obtain rfl : none = event := hevent
    rw [Option.toList_none, List.append_nil]
    apply h.congr hcalls
    · rw [hserver]
      simp only [ServerState.handleInbound]
      split <;> rfl
    · rw [hserver]
      simp only [ServerState.handleInbound]
      split <;> rfl
  | tempChatDone tabId =>
    obtain rfl : none = event := hevent
    rw [Option.toList_none, List.append_nil]
    apply h.congr hcalls
    · rw [hserver]
      simp only [ServerState.handleInbound]
      split <;> rfl
    · rw [hserver]
      simp only [ServerState.handleInbound]
      split <;> rfl

/-- A message about another tab. -/
theorem Follows.inbound_other (h : Follows parse b tab t asm events) {raw : Text}
    (htabId : (decodeMessage parse raw).tabId? ≠ some tab) :
    Follows parse (b.inbound parse raw) tab t asm events := by
  obtain ⟨call, hcall, htab, hstate⟩ := h
  have hview : (b.server.handleInbound parse (decodeMessage parse raw)).1.view tab t =
      b.server.view tab t := view_handleInbound htabId
  obtain ⟨hexpected, -, -, -, hasm⟩ := view_eq_iff.mp hview
  apply Follows.congr (b := b) ⟨call, hcall, htab, hstate⟩ ?_ hexpected hasm
  intro call₀ hcall₀
  obtain rfl := Option.some.inj (hcall.symm.trans hcall₀)
  refine ⟨call, ?_, rfl, rfl⟩
  apply foldl_receive_of_ne hcall
  intro sig hsig heq
  apply htabId
  rw [handleInbound_signals hsig, heq, htab]

/-! ### Other actions -/

/-- The server changes, but not what it keeps for the turn. -/
theorem Follows.server (h : Follows parse b tab t asm events) {st : ServerState}
    (hview : st.view tab t = b.server.view tab t) :
    Follows parse { b with server := st } tab t asm events := by
  obtain ⟨hexpected, -, -, -, hasm⟩ := view_eq_iff.mp hview
  exact h.congr (fun call hcall => ⟨call, hcall, rfl, rfl⟩) hexpected hasm

/-- Another call enters its turn; on the same tab it takes over. -/
theorem Follows.startTurn (h : Follows parse b tab t asm events) {t' : Nat} (htaken : b.Taken t')
    (kind : CallKind) (tab' : TabId) (url : String) (text : Text) :
    Follows parse (b.startTurn t' kind tab' url text) tab t asm events := by
  have hne : t ≠ t' := by
    rintro rfl
    obtain ⟨call, hcall, -⟩ := h
    cases htaken.2.2.symm.trans hcall
  have hcalls : (b.startTurn t' kind tab' url text).calls t = b.calls t :=
    FMap.insert_of_ne _ _ hne
  by_cases htab : tab = tab'
  · subst htab
    have hexpected : ((b.startTurn t' kind tab url text).server.view tab t).expected = some t' := by
      unfold WsBridge.startTurn
      dsimp only
      rw [view_sendOrQueue]
      cases kind <;> simp [ServerState.prepareAssembler]
    have hdropped := h.dropped (b.startTurn t' kind tab url text) []
      (callKept_of_eq hcalls) ?_
    · rwa [List.append_nil] at hdropped
    · intro hc
      exact hne (Option.some.inj (hc.symm.trans hexpected))
  · have hview : (b.startTurn t' kind tab' url text).server.view tab t = b.server.view tab t :=
      view_startTurn htab t' kind url text
    obtain ⟨hexpected, -, -, -, hasm⟩ := view_eq_iff.mp hview
    exact h.congr (callKept_of_eq hcalls) hexpected hasm

/-- Some call gets another phase. -/
theorem setPhase_reply {call' : Call} {t' : Nat} (hcall' : b.calls t' = some call')
    (phase : Phase) : CallKept t b.calls (b.calls.insert t' { call' with phase := phase }) := by
  intro call hcall
  by_cases ht : t = t'
  · subst ht
    obtain rfl := Option.some.inj (hcall.symm.trans hcall')
    exact ⟨_, FMap.insert_self _ _ _, rfl, rfl⟩
  · exact ⟨call, (FMap.insert_of_ne _ _ ht).trans hcall, rfl, rfl⟩

theorem Follows.wake (h : Follows parse b tab t asm events) (t' : Nat) (expired : Bool) :
    Follows parse (b.wake t' expired) tab t asm events := by
  unfold WsBridge.wake
  split
  · exact h
  · rename_i call' hcall'
    exact h.congr (setPhase_reply hcall' _) rfl rfl

/-- A cleanup may take the expected turn of the tab away, but sets none. -/
theorem Follows.cleanup (h : Follows parse b tab t asm events) (t' : Nat) :
    Follows parse (b.cleanup t') tab t asm events := by
  unfold WsBridge.cleanup
  split
  · exact h
  · rename_i call' hcall'
    split
    · rename_i acked error hphase
      have hcalls := setPhase_reply (b := b) (t := t) hcall' (.done (.error error))
      have hasm : (WsBridge.cleanupTables b.server t' call' acked).tabAssemblers =
          b.server.tabAssemblers := by
        unfold WsBridge.cleanupTables
        split <;> rfl
      have hexpected : (WsBridge.cleanupTables b.server t' call' acked).pendingTurnId tab =
            b.server.pendingTurnId tab ∨
          (WsBridge.cleanupTables b.server t' call' acked).pendingTurnId tab = none := by
        by_cases htab : tab = call'.tabId
        · rw [htab, cleanupTables_expected]
          cases acked
          · exact .inr rfl
          · exact .inl rfl
        · exact .inl (view_eq_iff.mp (view_cleanupTables (t := t) htab acked)).1
      rcases hexpected with hkept | hgone
      · exact h.congr hcalls hkept (congrFun hasm tab)
      · have hdropped := h.dropped
          { b with
            server := WsBridge.cleanupTables b.server t' call' acked
            calls := b.calls.insert t' { call' with phase := .done (.error error) } } [] hcalls ?_
        · rwa [List.append_nil] at hdropped
        · intro hc
          cases hgone.symm.trans hc
    · exact h

/-- **One step.**  Whatever happens on the bridge, the turn is followed. -/
theorem Follows.step (h : Follows parse b tab t asm events) {a : Action}
    (horderly : Orderly parse tab t a) :
    Follows parse ((bridgeMachine parse).step b a) tab t asm
      (events ++ (tapeEvent parse tab t a).toList) := by
  by_cases hinbound : ∃ raw, a = .inbound raw
  · obtain ⟨raw, rfl⟩ := hinbound
    by_cases htabId : (decodeMessage parse raw).tabId? = some tab
    · exact h.inbound_same horderly htabId
    · rw [tapeEvent_of_ne htabId, Option.toList_none, List.append_nil]
      exact h.inbound_other htabId
  have hevent : tapeEvent parse tab t a = none := by
    cases a with
    | inbound raw => exact absurd ⟨raw, rfl⟩ hinbound
    | _ => rfl
  rw [hevent, Option.toList_none, List.append_nil]
  cases a with
  | inbound raw => exact absurd ⟨raw, rfl⟩ hinbound
  | startTurn t' kind tab' url text =>
    show Follows parse (if b.Taken t' then b.startTurn t' kind tab' url text else b) tab t asm
      events
    split
    · rename_i htaken
      exact h.startTurn htaken kind tab' url text
    · exact h
  | wake t' expired => exact h.wake t' expired
  | cleanup t' => exact h.cleanup t'
  | claimTabForUrl url =>
    show Follows parse (b.claimTabForUrl url).1 tab t asm events
    unfold WsBridge.claimTabForUrl
    split
    · exact h.server (view_send_getD _)
    · exact h
  | openFreshTab url =>
    have hview : (b.openFreshTab url).server.view tab t = b.server.view tab t := view_send_getD _
    obtain ⟨hexpected, -, -, -, hasm⟩ := view_eq_iff.mp hview
    exact h.congr (fun call hcall => ⟨call, hcall, rfl, rfl⟩) hexpected hasm
  | outboundSubmit | closeTab | newChat | tempChat => exact h.server (view_send_getD _)
  | takeTurnId => exact h.congr (fun call hcall => ⟨call, hcall, rfl, rfl⟩) rfl rfl
  | connect | disconnect | sinkWrites | sinkFails | setTabEndpointId | waitNewChat | waitTempChat
  | takeCompletedTurns => exact h.server rfl

/-- The call enters its turn: its tape is empty. -/
theorem Follows.start (b : WsBridge) (t : Nat) (kind : CallKind) (tab : TabId) (url : String)
    (text : Text) :
    Follows parse (b.startTurn t kind tab url text) tab t (.new (b.turnSite tab url)) [] := by
  have hview : (b.startTurn t kind tab url text).server.view tab t =
      { (b.startTurn t kind tab url text).server.view tab t with
        expected := some t, assembler := some (.new (b.turnSite tab url)) } := by
    unfold WsBridge.startTurn
    dsimp only
    rw [view_sendOrQueue]
    cases hasm : b.server.tabAssemblers tab with
    | none =>
      cases kind <;> ext1 <;> simp [ServerState.prepareAssembler, WsBridge.turnSite, hasm]
    | some asm =>
      cases kind <;> ext1 <;> simp [ServerState.prepareAssembler, WsBridge.turnSite, hasm]
  have hexpected := congrArg TurnView.expected hview
  have hasm := congrArg TurnView.assembler hview
  exact ⟨_, FMap.insert_self _ _ _, rfl, .inl ⟨⟨hexpected, _, hasm, rfl⟩, rfl⟩⟩

theorem Follows.run (h : Follows parse b tab t asm events) {acts : List Action}
    (horderly : ∀ a ∈ acts, Orderly parse tab t a) :
    Follows parse ((bridgeMachine parse).run b acts) tab t asm
      (events ++ tape parse tab t acts) := by
  induction acts using List.reverseRecOn with
  | nil => simpa [tape] using h
  | append_singleton acts a ih =>
    rw [Machine.run_snoc, tape_snoc, ← List.append_assoc]
    apply (ih fun a' ha' => horderly a' (by simp [ha'])).step
    exact horderly a (by simp)

end Follows

/-! ### Delivery -/

/-- What the waiter of a turn has got. -/
def WsBridge.replyOf (b : WsBridge) (t : Nat) : Option Text := (b.calls t).bind (·.reply)

section Delivery

variable {parse : Text → Option Json} {b : WsBridge} {t : Nat}

theorem foldl_receive_none {calls : FMap Nat Call} (h : calls t = none) (sigs : List Signal) :
    sigs.foldl WsBridge.receive calls t = none := by
  induction sigs generalizing calls with
  | nil => exact h
  | cons sig sigs ih =>
    apply ih
    cases sig with
    | ack tabId turnId => simp [WsBridge.receive, WsBridge.atReceiver, h]
    | reply tabId turnId text => simp [WsBridge.receive, WsBridge.atReceiver, h]
    | _ => exact h

theorem replyOf_inbound_eq {raw : Text}
    (h : ∀ sig ∈ (b.server.handleInbound parse (decodeMessage parse raw)).2, ∀ tabId text,
      sig ≠ .reply tabId t text) :
    (b.inbound parse raw).replyOf t = b.replyOf t := by
  have hcalls : (b.inbound parse raw).calls =
      (b.server.handleInbound parse (decodeMessage parse raw)).2.foldl WsBridge.receive b.calls :=
        rfl
  cases hcall : b.calls t with
  | none => rw [WsBridge.replyOf, WsBridge.replyOf, hcalls, foldl_receive_none hcall, hcall]
  | some call =>
    obtain ⟨call', hcall', -, hreply⟩ := foldl_receive_reply h call hcall
    rw [WsBridge.replyOf, WsBridge.replyOf, hcalls, hcall', hcall]
    exact hreply

/-- A message answers the waiter of the expected turn, or none. -/
theorem inbound_answers_expected {raw : Text}
    (h : (b.inbound parse raw).replyOf t ≠ b.replyOf t) :
    ∃ tab turnId chunk, decodeMessage parse raw = .inboundMessage tab turnId chunk ∧
      b.server.pendingTurnId tab = some t := by
  by_contra hnot
  apply h
  apply replyOf_inbound_eq
  intro sig hsig tabId text hreply
  by_cases hframe : ∃ tab turnId chunk, decodeMessage parse raw = .inboundMessage tab turnId chunk
  · obtain ⟨tab, turnId, chunk, hmsg⟩ := hframe
    rw [hmsg] at hsig
    obtain ⟨expected, text', hexpected, rfl⟩ := handleInboundMessage_signal hsig
    obtain ⟨-, rfl, -⟩ := Signal.reply.inj hreply
    exact hnot ⟨tab, turnId, chunk, hmsg, hexpected⟩
  · refine handleInbound_no_reply ?_ sig hsig tabId text hreply
    intro tab turnId chunk hmsg
    exact hframe ⟨tab, turnId, chunk, hmsg⟩

theorem inbound_answers_one {raw : Text} {t₁ t₂ : Nat}
    (h₁ : (b.inbound parse raw).replyOf t₁ ≠ b.replyOf t₁)
    (h₂ : (b.inbound parse raw).replyOf t₂ ≠ b.replyOf t₂) : t₁ = t₂ := by
  obtain ⟨tab, turnId, chunk, hmsg, hexpected⟩ := inbound_answers_expected h₁
  obtain ⟨tab', turnId', chunk', hmsg', hexpected'⟩ := inbound_answers_expected h₂
  rw [hmsg] at hmsg'
  obtain ⟨rfl, -, -⟩ := InMsg.inboundMessage.inj hmsg'
  exact Option.some.inj (hexpected.symm.trans hexpected')

end Delivery

/-- **No contamination between turns.**  Let a call enter turn `t` on `tab` at any point of
    a run in which every frame carries its turn, and let no TURN_STARTED name this turn.
    If the waiter of the turn has got a text, then it is the assembly of the frames of
    this turn that came after, in the order in which they came.  Each of these frames is
    a frame of no other turn, and a message answers at most one waiter. -/
theorem waiter_gets_own_frames (parse : Text → Option Json) (before after : List Action)
    (t : Nat) (kind : CallKind) (tab : TabId) (url : String) (text : Text)
    (htaken : ((bridgeMachine parse).run .spawn before).Taken t)
    (hframes : ∀ raw tabId chunk, Action.inbound raw ∈ before ++ after →
      decodeMessage parse raw ≠ .inboundMessage tabId none chunk)
    (hstarted : ∀ raw, Action.inbound raw ∈ after → decodeMessage parse raw ≠ .turnStarted tab t) :
    (∀ reply,
        ((bridgeMachine parse).run .spawn
          (before ++ .startTurn t kind tab url text :: after)).replyOf t = some reply →
        assemble parse (.new (((bridgeMachine parse).run .spawn before).turnSite tab url))
          (tape parse tab t after) = .complete reply) ∧
      (∀ a ∈ after, ∀ tab' t' chunk chunk', tapeEvent parse tab t a = some (.frame chunk) →
        tapeEvent parse tab' t' a = some (.frame chunk') → tab = tab' ∧ t = t') ∧
      (∀ acts raw t₁ t₂,
        (((bridgeMachine parse).run .spawn acts).inbound parse raw).replyOf t₁ ≠
          ((bridgeMachine parse).run .spawn acts).replyOf t₁ →
        (((bridgeMachine parse).run .spawn acts).inbound parse raw).replyOf t₂ ≠
          ((bridgeMachine parse).run .spawn acts).replyOf t₂ → t₁ = t₂) := by
  refine ⟨?_, fun a _ tab' t' chunk chunk' h h' => tapeEvent_frame_unique h h',
    fun acts raw t₁ t₂ h₁ h₂ => inbound_answers_one h₁ h₂⟩
  intro reply hreply
  rw [Machine.run_append, Machine.run_cons] at hreply
  generalize (bridgeMachine parse).run .spawn before = b at *
  have hstart : (bridgeMachine parse).step b (.startTurn t kind tab url text) =
      b.startTurn t kind tab url text := if_pos htaken
  rw [hstart] at hreply
  have horderly : ∀ a ∈ after, Orderly parse tab t a := by
    intro a ha
    cases a with
    | inbound raw =>
      exact ⟨fun tabId chunk => hframes raw tabId chunk (by simp [ha]), hstarted raw ha⟩
    | _ => trivial
  obtain ⟨call, hcall, -, hstate⟩ := (Follows.start b t kind tab url text).run horderly
  rw [WsBridge.replyOf, hcall, Option.bind_some] at hreply
  rcases hstate with ⟨-, hnone⟩ | ⟨-, hcomplete⟩
  · rw [hnone] at hreply
    cases hreply
  · exact hcomplete reply hreply

/-! ### Frames of two turns on one tab -/

def ownDeltaPayload : String :=
  "\x7b\"turn_id\":1,\"chunk\":\"\x7b\\\"v\\\":\\\"hi\\\"\x7d\"\x7d"

def ownDelta : String :=
  "\x7b\"type\":\"INBOUND_MESSAGE\",\"tabId\":1,\"payload\":\"\x7b\\\"turn_id\\\":1,\\\"chunk\\\":\\\"\x7b\\\\\\\"v\\\\\\\":\\\\\\\"hi\\\\\\\"\x7d\\\"\x7d\"\x7d"

def ownDonePayload : String :=
  "\x7b\"turn_id\":1,\"chunk\":\"[DONE]\"\x7d"

def ownDone : String :=
  "\x7b\"type\":\"INBOUND_MESSAGE\",\"tabId\":1,\"payload\":\"\x7b\\\"turn_id\\\":1,\\\"chunk\\\":\\\"[DONE]\\\"\x7d\"\x7d"

def strayDonePayload : String :=
  "\x7b\"turn_id\":7,\"chunk\":\"[DONE]\"\x7d"

def strayDone : String :=
  "\x7b\"type\":\"INBOUND_MESSAGE\",\"tabId\":1,\"payload\":\"\x7b\\\"turn_id\\\":7,\\\"chunk\\\":\\\"[DONE]\\\"\x7d\"\x7d"

/-- Texts with the values they stand for. -/
def frameValues : List (String × Json) :=
  [(ownDelta,
    .obj [("type", .str "INBOUND_MESSAGE"), ("tabId", .nat 1), ("payload", .str ownDeltaPayload)]),
   (ownDeltaPayload, .obj [("turn_id", .nat 1), ("chunk", .str deltaPayload)]),
   (deltaPayload, .obj [("v", .str "hi")]),
   (ownDone,
    .obj [("type", .str "INBOUND_MESSAGE"), ("tabId", .nat 1), ("payload", .str ownDonePayload)]),
   (ownDonePayload, .obj [("turn_id", .nat 1), ("chunk", .str "[DONE]")]),
   (strayDone,
    .obj [("type", .str "INBOUND_MESSAGE"), ("tabId", .nat 1), ("payload", .str strayDonePayload)]),
   (strayDonePayload, .obj [("turn_id", .nat 7), ("chunk", .str "[DONE]")])]

/-- The JSON parser as it behaves on these texts. -/
def frameParse (text : Text) : Option Json :=
  (frameValues.find? (·.1 == String.ofList text)).map (·.2)

/-- Between the two frames of turn 1 a frame of turn 7 arrives. -/
def interleavedFrames : List Action :=
  [.inbound ownDelta.toList, .inbound strayDone.toList, .inbound ownDone.toList]

/-- The texts are different, so each is read as its own value. -/
theorem frameValues_nodup : (frameValues.map (·.1.toList)).Nodup := by
  simp only [frameValues, List.map_cons, List.map_nil]
  unfold ownDelta ownDeltaPayload deltaPayload ownDone ownDonePayload strayDone strayDonePayload
  rw [String.toList_ofList, String.toList_ofList, String.toList_ofList, String.toList_ofList,
    String.toList_ofList, String.toList_ofList, String.toList_ofList]
  decide +kernel

theorem frameParse_of_mem {entry : String × Json} (h : entry ∈ frameValues) :
    frameParse entry.1.toList = some entry.2 := by
  obtain ⟨before, after, hsplit⟩ := List.append_of_mem h
  have hnodup := frameValues_nodup
  rw [hsplit, List.map_append, List.nodup_append] at hnodup
  have hfind : frameValues.find? (·.1 == entry.1) = some entry := by
    rw [hsplit, List.find?_eq_some_iff_append]
    refine ⟨beq_self_eq_true _, before, after, rfl, ?_⟩
    intro a ha
    have hne := hnodup.2.2 _ (List.mem_map_of_mem ha) entry.1.toList (by simp)
    simp only [Bool.not_eq_true', beq_eq_false_iff_ne]
    intro heq
    exact hne (congrArg String.toList heq)
  rw [frameParse, String.ofList_toList, hfind, Option.map_some]

/-- A frame whose payload names its turn. -/
theorem decodeMessage_frame {parse : Text → Option Json} {raw rest : Text} {payload chunk : String}
    {turn : Nat}
    (hraw : parse raw = some (.obj
      [("type", .str "INBOUND_MESSAGE"), ("tabId", .nat 1), ("payload", .str payload)]))
    (hbrace : payload.toList = '\x7b' :: rest)
    (hpayload : parse payload.toList =
      some (.obj [("turn_id", .nat turn), ("chunk", .str chunk)])) :
    decodeMessage parse raw = .inboundMessage 1 (some turn) chunk.toList := by
  have hread : readPayload parse payload.toList = (some turn, chunk.toList) := by
    have hhead : (Text.trimStart payload.toList).head? = some '\x7b' := by
      rw [hbrace, Text.trimStart_cons (by decide)]
      rfl
    rw [readPayload, if_pos hhead, hpayload]
    rfl
  unfold decodeMessage
  rw [hraw]
  show InMsg.inboundMessage 1 (readPayload parse payload.toList).1
    (readPayload parse payload.toList).2 = _
  rw [hread]

theorem decode_ownDelta : decodeMessage frameParse ownDelta.toList =
    .inboundMessage 1 (some 1) deltaPayload.toList := by
  have hbrace : ∃ rest, ownDeltaPayload.toList = '\x7b' :: rest := by
    unfold ownDeltaPayload
    rw [String.toList_ofList]
    exact ⟨_, rfl⟩
  obtain ⟨rest, hbrace⟩ := hbrace
  have hraw := @frameParse_of_mem (ownDelta, _) (.head _)
  have hpayload := @frameParse_of_mem (ownDeltaPayload, _) (.tail _ (.head _))
  exact decodeMessage_frame hraw hbrace hpayload

theorem decode_ownDone : decodeMessage frameParse ownDone.toList =
    .inboundMessage 1 (some 1) "[DONE]".toList := by
  have hbrace : ∃ rest, ownDonePayload.toList = '\x7b' :: rest := by
    unfold ownDonePayload
    rw [String.toList_ofList]
    exact ⟨_, rfl⟩
  obtain ⟨rest, hbrace⟩ := hbrace
  have hraw := @frameParse_of_mem (ownDone, _) (.tail _ (.tail _ (.tail _ (.head _))))
  have hpayload := @frameParse_of_mem (ownDonePayload, _)
    (.tail _ (.tail _ (.tail _ (.tail _ (.head _)))))
  exact decodeMessage_frame hraw hbrace hpayload

theorem decode_strayDone : decodeMessage frameParse strayDone.toList =
    .inboundMessage 1 (some 7) "[DONE]".toList := by
  have hbrace : ∃ rest, strayDonePayload.toList = '\x7b' :: rest := by
    unfold strayDonePayload
    rw [String.toList_ofList]
    exact ⟨_, rfl⟩
  obtain ⟨rest, hbrace⟩ := hbrace
  have hraw := @frameParse_of_mem (strayDone, _)
    (.tail _ (.tail _ (.tail _ (.tail _ (.tail _ (.head _))))))
  have hpayload := @frameParse_of_mem (strayDonePayload, _)
    (.tail _ (.tail _ (.tail _ (.tail _ (.tail _ (.tail _ (.head _)))))))
  exact decodeMessage_frame hraw hbrace hpayload

theorem interleavedFrames_named {raw : Text} (h : Action.inbound raw ∈ interleavedFrames) :
    ∃ turnId chunk, decodeMessage frameParse raw = .inboundMessage 1 (some turnId) chunk := by
  simp only [interleavedFrames, List.mem_cons, Action.inbound.injEq, List.not_mem_nil,
    or_false] at h
  rcases h with h | h | h
  · rw [h]
    exact ⟨1, _, decode_ownDelta⟩
  · rw [h]
    exact ⟨7, _, decode_strayDone⟩
  · rw [h]
    exact ⟨1, _, decode_ownDone⟩

/-- The bridge behind a frame that has been read. -/
def afterFrame (b : WsBridge) (turnId : Nat) (chunk : Text) : WsBridge :=
  let handled := b.server.handleInbound frameParse (.inboundMessage 1 (some turnId) chunk)
  { b with server := handled.1, calls := handled.2.foldl WsBridge.receive b.calls }

theorem step_inbound_frame (b : WsBridge) {raw chunk : Text} {turnId : Nat}
    (h : decodeMessage frameParse raw = .inboundMessage 1 (some turnId) chunk) :
    (bridgeMachine frameParse).step b (.inbound raw) = afterFrame b turnId chunk := by
  show b.inbound frameParse raw = _
  rw [WsBridge.inbound, h]
  rfl

theorem interleavedFrames_reply :
    ((bridgeMachine frameParse).run .spawn ([.takeTurnId] ++
      .startTurn 1 .send 1 sampleUrl "hello".toList :: interleavedFrames)).replyOf 1 =
        some "hi".toList := by
  rw [interleavedFrames, List.singleton_append, Machine.run_cons, Machine.run_cons,
    Machine.run_cons, Machine.run_cons, Machine.run_cons, Machine.run_nil,
    step_inbound_frame _ decode_ownDelta, step_inbound_frame _ decode_strayDone,
    step_inbound_frame _ decode_ownDone]
  decide +kernel

/-- The waiter of turn 1 gets its own text. -/
theorem waiter_gets_own_frames_interleaved :
    assemble frameParse (.new (((bridgeMachine frameParse).run .spawn [.takeTurnId]).turnSite 1
        sampleUrl)) (tape frameParse 1 1 interleavedFrames) = .complete "hi".toList := by
  refine (waiter_gets_own_frames frameParse [.takeTurnId] interleavedFrames 1 .send 1 sampleUrl
    "hello".toList (by decide) ?_ ?_).1 _ interleavedFrames_reply
  · intro raw tabId chunk hraw hmsg
    have hraw' : Action.inbound raw ∈ interleavedFrames := by simpa using hraw
    obtain ⟨turnId, chunk', hnamed⟩ := interleavedFrames_named hraw'
    cases hmsg.symm.trans hnamed
  · intro raw hraw hmsg
    obtain ⟨turnId, chunk', hnamed⟩ := interleavedFrames_named hraw
    cases hmsg.symm.trans hnamed

end Canon.Bridge
