import Canon.Bridge.Server

/-! # One turn among others

    What the server keeps for a turn, what a call keeps of it, and which actions
    leave both alone: everything about other tabs, and everything about calls that
    are over.
-/

namespace Canon.Bridge

/-! ### The entries of a turn -/

/-- The entries of turn `t` on `tab`, and those of the tab itself. -/
@[ext] structure TurnView where
  expected : Option Nat
  waiter : Option Unit
  sendAck : Option Unit
  submit : Option Unit
  assembler : Option FrameAssembler

def ServerState.view (st : ServerState) (tab : TabId) (t : Nat) : TurnView where
  expected := st.pendingTurnId tab
  waiter := st.pending (tab, t)
  sendAck := st.pendingSendAck (tab, t)
  submit := st.pendingSubmit (tab, t)
  assembler := st.tabAssemblers tab

section View

variable {st : ServerState} {tab : TabId} {t : Nat}

@[simp] theorem view_expected : (st.view tab t).expected = st.pendingTurnId tab := rfl

@[simp] theorem view_waiter : (st.view tab t).waiter = st.pending (tab, t) := rfl

@[simp] theorem view_sendAck : (st.view tab t).sendAck = st.pendingSendAck (tab, t) := rfl

@[simp] theorem view_submit : (st.view tab t).submit = st.pendingSubmit (tab, t) := rfl

@[simp] theorem view_assembler : (st.view tab t).assembler = st.tabAssemblers tab := rfl

/-- Two servers keep the same for a turn. -/
theorem view_eq_iff {st' : ServerState} : st'.view tab t = st.view tab t ↔
    st'.pendingTurnId tab = st.pendingTurnId tab ∧ st'.pending (tab, t) = st.pending (tab, t) ∧
      st'.pendingSendAck (tab, t) = st.pendingSendAck (tab, t) ∧
      st'.pendingSubmit (tab, t) = st.pendingSubmit (tab, t) ∧
      st'.tabAssemblers tab = st.tabAssemblers tab :=
  TurnView.ext_iff

theorem view_send {msg : OutFrame} {st' : ServerState} (h : st.send msg = some st') :
    st'.view tab t = st.view tab t := by
  unfold ServerState.send at h
  obtain ⟨out, -, h⟩ := Option.bind_eq_some_iff.mp h
  split at h
  · obtain rfl := Option.some.inj h
    rfl
  · cases h

theorem view_send_getD (msg : OutFrame) : ((st.send msg).getD st).view tab t = st.view tab t := by
  cases h : st.send msg with
  | none => rfl
  | some st' => exact view_send h

theorem view_sendOrQueue (msg : OutFrame) : (st.sendOrQueue msg).view tab t = st.view tab t := by
  unfold ServerState.sendOrQueue
  cases h : st.send msg with
  | none => rfl
  | some st' => exact view_send h

theorem view_prepareAssembler {tab' : TabId} (site : SiteType) (h : tab ≠ tab') :
    (st.prepareAssembler tab' site).view tab t = st.view tab t := by
  ext <;> simp [ServerState.prepareAssembler, h]

theorem view_setSite {tab' : TabId} (site : SiteType) (h : tab ≠ tab') :
    (st.setSite tab' site).view tab t = st.view tab t := by
  ext <;> simp [ServerState.setSite, h]

end View

/-! ### Messages about other tabs -/

def InMsg.tabId? : InMsg → Option TabId
  | .ignored => none
  | .tabOpened tabId _ | .tabClosed tabId | .tabReady tabId .. | .tabClaimed tabId
  | .submitAck tabId _ | .turnStarted tabId _ | .inboundMessage tabId .. | .newChatDone tabId
  | .tempChatDone tabId => some tabId

def Signal.tabId : Signal → TabId
  | .opened _ tabId | .ack tabId _ | .reply tabId .. | .newChatDone tabId
  | .tempChatDone tabId => tabId

section Foreign

variable {parse : Text → Option Json} {st : ServerState} {tab tab' : TabId} {t : Nat}

theorem view_handleTabClosed (h : tab ≠ tab') :
    (st.handleTabClosed tab').view tab t = st.view tab t := by
  ext <;> simp [ServerState.handleTabClosed, FMap.retain, h]

theorem view_handleTabReady (h : tab ≠ tab') (url : String) (originalUrl : Option String)
    (reqId : Option Nat) :
    (st.handleTabReady tab' url originalUrl reqId).1.view tab t = st.view tab t := by
  refine Eq.trans ?_ (view_setSite (.fromUrl url) h)
  unfold ServerState.handleTabReady
  dsimp only
  split
  · split <;> rfl
  · split <;> rfl

theorem view_handleSubmitAck (h : tab ≠ tab') (turnId : Option Nat) :
    (st.handleSubmitAck tab' turnId).1.view tab t = st.view tab t := by
  unfold ServerState.handleSubmitAck
  split
  · rfl
  · split
    · rfl
    · split
      · ext <;> simp [h]
      · split
        · ext <;> simp [h]
        · rfl

theorem view_handleTurnStarted (h : tab ≠ tab') (turnId : Nat) :
    (st.handleTurnStarted tab' turnId).view tab t = st.view tab t := by
  unfold ServerState.handleTurnStarted
  split
  · rfl
  · rw [view_prepareAssembler _ h]
    ext <;> simp [h]

theorem view_deliver (h : tab ≠ tab') (turnId : Nat) (text : Text) :
    (st.deliver tab' turnId text).1.view tab t = st.view tab t := by
  unfold ServerState.deliver
  dsimp only
  split
  · ext <;> simp [h]
  · ext <;> simp [h]

theorem view_handleInboundMessage (h : tab ≠ tab') (turnId : Option Nat) (chunk : Text) :
    (st.handleInboundMessage parse tab' turnId chunk).1.view tab t = st.view tab t := by
  unfold ServerState.handleInboundMessage
  split
  · rfl
  · dsimp only
    split
    · ext <;> simp [h]
    · rw [view_deliver h]
      ext <;> simp [h]

/-- A message about another tab does not touch the entries of a turn. -/
theorem view_handleInbound {msg : InMsg} (h : msg.tabId? ≠ some tab) :
    (st.handleInbound parse msg).1.view tab t = st.view tab t := by
  have hne : ∀ tabId, msg.tabId? = some tabId → tab ≠ tabId := by
    rintro tabId hmsg rfl
    exact h hmsg
  cases msg with
  | ignored => rfl
  | tabOpened tabId url => exact view_setSite _ (hne tabId rfl)
  | tabClosed tabId => exact view_handleTabClosed (hne tabId rfl)
  | tabReady tabId url originalUrl reqId => exact view_handleTabReady (hne tabId rfl) _ _ _
  | tabClaimed tabId => rfl
  | submitAck tabId turnId => exact view_handleSubmitAck (hne tabId rfl) _
  | turnStarted tabId turnId => exact view_handleTurnStarted (hne tabId rfl) _
  | inboundMessage tabId turnId chunk => exact view_handleInboundMessage (hne tabId rfl) _ _
  | newChatDone tabId =>
    simp only [ServerState.handleInbound]
    split <;> rfl
  | tempChatDone tabId =>
    simp only [ServerState.handleInbound]
    split <;> rfl

/-- Signals only go to callers on the tab of the message. -/
theorem handleInbound_signals {msg : InMsg} {sig : Signal}
    (h : sig ∈ (st.handleInbound parse msg).2) : msg.tabId? = some sig.tabId := by
  cases msg with
  | ignored | tabOpened | tabClosed | tabClaimed | turnStarted =>
    simp [ServerState.handleInbound] at h
  | tabReady tabId url originalUrl reqId =>
    simp only [ServerState.handleInbound, ServerState.handleTabReady] at h
    split at h
    · split at h <;> simp_all [Signal.tabId, InMsg.tabId?]
    · split at h <;> simp at h
  | submitAck tabId turnId =>
    simp only [ServerState.handleInbound, ServerState.handleSubmitAck] at h
    split at h
    · simp at h
    · split at h
      · simp at h
      · split at h
        · simp_all [Signal.tabId, InMsg.tabId?]
        · split at h <;> simp_all [Signal.tabId, InMsg.tabId?]
  | inboundMessage tabId turnId chunk =>
    simp only [ServerState.handleInbound, ServerState.handleInboundMessage] at h
    split at h
    · simp at h
    · split at h
      · simp at h
      · unfold ServerState.deliver at h
        dsimp only at h
        split at h <;> simp_all [Signal.tabId, InMsg.tabId?]
  | newChatDone tabId =>
    simp only [ServerState.handleInbound] at h
    split at h <;> simp_all [Signal.tabId, InMsg.tabId?]
  | tempChatDone tabId =>
    simp only [ServerState.handleInbound] at h
    split at h <;> simp_all [Signal.tabId, InMsg.tabId?]

end Foreign

/-! ### Calls -/

section Calls

variable {calls : FMap Nat Call} {tab : TabId} {t : Nat}

/-- A signal to another tab does not reach a call. -/
theorem receive_of_ne {call : Call} (hcall : calls t = some call) {sig : Signal}
    (h : sig.tabId ≠ call.tabId) : WsBridge.receive calls sig t = some call := by
  have hkeep : ∀ tabId turnId update, tabId ≠ call.tabId →
      WsBridge.atReceiver calls tabId turnId update t = some call := by
    intro tabId turnId update hne
    rw [WsBridge.atReceiver, hcall, Option.map_some, if_neg fun hc => hne hc.2.symm]
  cases sig with
  | ack tabId turnId => exact hkeep tabId turnId _ h
  | reply tabId turnId text => exact hkeep tabId turnId _ h
  | _ => exact hcall

theorem foldl_receive_of_ne {call : Call} (hcall : calls t = some call) {sigs : List Signal}
    (h : ∀ sig ∈ sigs, sig.tabId ≠ call.tabId) :
      sigs.foldl WsBridge.receive calls t = some call := by
  induction sigs generalizing calls with
  | nil => exact hcall
  | cons sig sigs ih =>
    exact ih (receive_of_ne hcall (h sig (by simp))) (fun s hs => h s (by simp [hs]))

/-- Signals leave alone where a call stands. -/
theorem receive_phase {sig : Signal} {c : Call} (h : WsBridge.receive calls sig t = some c) :
    ∃ c', calls t = some c' ∧ c'.tabId = c.tabId ∧ c'.phase = c.phase := by
  have hsame : ∀ tabId turnId (update : Call → Call),
      WsBridge.atReceiver calls tabId turnId update t = some c →
      (∀ call, (update call).tabId = call.tabId ∧ (update call).phase = call.phase) →
      ∃ c', calls t = some c' ∧ c'.tabId = c.tabId ∧ c'.phase = c.phase := by
    intro tabId turnId update hc hupdate
    obtain ⟨c', hc', rfl⟩ := Option.map_eq_some_iff.mp hc
    refine ⟨c', hc', ?_⟩
    split
    · exact ⟨(hupdate c').1.symm, (hupdate c').2.symm⟩
    · exact ⟨rfl, rfl⟩
  cases sig with
  | ack tabId turnId => exact hsame tabId turnId _ h fun _ => ⟨rfl, rfl⟩
  | reply tabId turnId text => exact hsame tabId turnId _ h fun _ => ⟨rfl, rfl⟩
  | _ => exact ⟨c, h, rfl, rfl⟩

theorem foldl_receive_phase {sigs : List Signal} {c : Call}
    (h : sigs.foldl WsBridge.receive calls t = some c) :
    ∃ c', calls t = some c' ∧ c'.tabId = c.tabId ∧ c'.phase = c.phase := by
  induction sigs generalizing calls with
  | nil => exact ⟨c, h, rfl, rfl⟩
  | cons sig sigs ih =>
    obtain ⟨c₁, h₁, htab, hphase⟩ := ih h
    obtain ⟨c₂, h₂, htab', hphase'⟩ := receive_phase h₁
    exact ⟨c₂, h₂, htab'.trans htab, hphase'.trans hphase⟩

end Calls

/-! ### Actions about other tabs -/

/-- The action is neither about the tab nor about the call of turn `t`. -/
def Action.Foreign (parse : Text → Option Json) (tab : TabId) (t : Nat) : Action → Prop
  | .startTurn _ _ tabId _ _ => tabId ≠ tab
  | .wake turnId _ | .cleanup turnId => turnId ≠ t
  | .inbound raw => (decodeMessage parse raw).tabId? ≠ some tab
  | _ => True

/-- Every call on the tab but that of turn `t` is over. -/
def Quiet (b : WsBridge) (tab : TabId) (t : Nat) : Prop :=
  ∀ t' call, t' ≠ t → b.calls t' = some call → call.tabId = tab →
    ∃ result, call.phase = .done result

section Quiet

variable {parse : Text → Option Json} {b : WsBridge} {tab : TabId} {t : Nat} {call : Call}

theorem view_startTurn {tab' : TabId} (h : tab ≠ tab') (t' : Nat) (kind : CallKind)
    (url : String) (text : Text) :
    (b.startTurn t' kind tab' url text).server.view tab t = b.server.view tab t := by
  unfold WsBridge.startTurn
  dsimp only
  rw [view_sendOrQueue, view_prepareAssembler _ h]
  cases kind with
  | send => ext <;> simp [h]
  | submit => ext <;> simp [h]

theorem view_cleanupTables {t' : Nat} (h : tab ≠ call.tabId) (acked : Bool) :
    (WsBridge.cleanupTables b.server t' call acked).view tab t = b.server.view tab t := by
  unfold WsBridge.cleanupTables
  split <;> ext <;> simp [h]

/-- The entries of the turn and its call stay as they are, and so does quietness. -/
def Keeps (b b' : WsBridge) (tab : TabId) (t : Nat) : Prop :=
  b'.server.view tab t = b.server.view tab t ∧ b'.calls t = b.calls t ∧ Quiet b' tab t

theorem Quiet.keeps_server (hq : Quiet b tab t) {st : ServerState}
    (h : st.view tab t = b.server.view tab t) : Keeps b { b with server := st } tab t :=
  ⟨h, rfl, hq⟩

theorem Quiet.keeps_startTurn (hq : Quiet b tab t) {tab' : TabId} (h : tab' ≠ tab) {t' : Nat}
    (ht' : t' ≠ t) (kind : CallKind) (url : String) (text : Text) :
    Keeps b (b.startTurn t' kind tab' url text) tab t := by
  refine ⟨view_startTurn (Ne.symm h) t' kind url text, FMap.insert_of_ne _ _ (Ne.symm ht'), ?_⟩
  intro t'' call hne hcall htab
  by_cases ht : t'' = t'
  -- The new call is on another tab.
  · subst ht
    obtain rfl := Option.some.inj ((FMap.insert_self _ _ _).symm.trans hcall)
    exact absurd htab h
  · exact hq t'' call hne ((FMap.insert_of_ne _ _ ht).symm.trans hcall) htab

theorem Quiet.keeps_wake (hq : Quiet b tab t) {t' : Nat} (h : t' ≠ t) (expired : Bool) :
    Keeps b (b.wake t' expired) tab t := by
  unfold WsBridge.wake
  split
  · exact ⟨rfl, rfl, hq⟩
  · rename_i call hcall
    refine ⟨rfl, FMap.insert_of_ne _ _ (Ne.symm h), ?_⟩
    intro t'' c hne hc htab
    by_cases ht : t'' = t'
    · subst ht
      obtain rfl := Option.some.inj ((FMap.insert_self _ _ _).symm.trans hc)
      obtain ⟨result, hdone⟩ := hq t'' call hne hcall htab
      exact ⟨result, by simp [WsBridge.nextPhase, hdone]⟩
    · exact hq t'' c hne ((FMap.insert_of_ne _ _ ht).symm.trans hc) htab

theorem Quiet.keeps_cleanup (hq : Quiet b tab t) {t' : Nat} (h : t' ≠ t) :
    Keeps b (b.cleanup t') tab t := by
  unfold WsBridge.cleanup
  split
  · exact ⟨rfl, rfl, hq⟩
  · rename_i call hcall
    split
    · rename_i acked error hphase
      -- A failed call cannot be on this tab.
      have htab : tab ≠ call.tabId := by
        intro htab
        obtain ⟨result, hdone⟩ := hq t' call h hcall htab.symm
        rw [hdone] at hphase
        cases hphase
      -- Its cleanup touches another tab only, and after it the call is over.
      refine ⟨view_cleanupTables htab acked, FMap.insert_of_ne _ _ (Ne.symm h), ?_⟩
      intro t'' c hne hc hc'
      by_cases ht : t'' = t'
      · subst ht
        obtain rfl := Option.some.inj ((FMap.insert_self _ _ _).symm.trans hc)
        exact ⟨_, rfl⟩
      · exact hq t'' c hne ((FMap.insert_of_ne _ _ ht).symm.trans hc) hc'
    · exact ⟨rfl, rfl, hq⟩

theorem Quiet.others_foldl (hq : Quiet b tab t) (sigs : List Signal) :
    ∀ t' c, t' ≠ t → sigs.foldl WsBridge.receive b.calls t' = some c → c.tabId = tab →
      ∃ result, c.phase = .done result := by
  intro t' c hne hc htab
  -- A call that is over stays so, whatever it receives.
  obtain ⟨c', hc', htab', hphase⟩ := foldl_receive_phase hc
  rw [← hphase]
  exact hq t' c' hne hc' (htab'.trans htab)

theorem Quiet.keeps_inbound (hq : Quiet b tab t) (hcall : b.calls t = some call)
    (htab : call.tabId = tab) {raw : Text} (h : (decodeMessage parse raw).tabId? ≠ some tab) :
    Keeps b (b.inbound parse raw) tab t := by
  refine ⟨view_handleInbound h, ?_, hq.others_foldl _⟩
  rw [hcall]
  apply foldl_receive_of_ne hcall
  intro sig hsig heq
  rw [htab] at heq
  exact h (heq ▸ handleInbound_signals hsig)

/-- **Actions about other tabs leave a turn alone.** -/
theorem Quiet.keeps_foreign (hq : Quiet b tab t) (hcall : b.calls t = some call)
    (htab : call.tabId = tab) {a : Action} (h : a.Foreign parse tab t) :
    Keeps b ((bridgeMachine parse).step b a) tab t := by
  cases a with
  | takeTurnId => exact ⟨rfl, rfl, hq⟩
  | startTurn t' kind tab' url text =>
    show Keeps b (if b.Taken t' then b.startTurn t' kind tab' url text else b) tab t
    split
    -- The turn's own number is in use.
    · rename_i htaken
      have ht' : t' ≠ t := by
        rintro rfl
        cases htaken.2.2.symm.trans hcall
      exact hq.keeps_startTurn h ht' kind url text
    · exact ⟨rfl, rfl, hq⟩
  | wake t' expired => exact hq.keeps_wake h expired
  | cleanup t' => exact hq.keeps_cleanup h
  | inbound raw => exact hq.keeps_inbound hcall htab h
  | claimTabForUrl url =>
    show Keeps b (b.claimTabForUrl url).1 tab t
    unfold WsBridge.claimTabForUrl
    split
    · exact hq.keeps_server (view_send_getD _)
    · exact ⟨rfl, rfl, hq⟩
  | openFreshTab url =>
    exact ⟨view_send_getD _, rfl, hq⟩
  | outboundSubmit | closeTab | newChat | tempChat => exact hq.keeps_server (view_send_getD _)
  | connect | disconnect | sinkWrites | sinkFails | setTabEndpointId | waitNewChat | waitTempChat
  | takeCompletedTurns => exact hq.keeps_server rfl

end Quiet

end Canon.Bridge
