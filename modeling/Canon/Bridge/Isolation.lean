import Canon.Bridge.AckOrder

/-! # Two turns on one tab

    A call that fails cleans up after itself.  Before the acknowledgement it also
    takes away which turn the tab is expected to be at, whether or not that is its
    own turn.  So the entries of another turn on the tab stay as they are if and
    only if that turn is not the expected one, or the failed call had been
    acknowledged.
-/

namespace Canon.Bridge

section Isolation

variable {parse : Text → Option Json} {b b' : WsBridge} {tab : TabId} {t : Nat}

/-! ### Frames of the other turn -/

/-- A message of turn `t`: its acknowledgement, or a chunk that names it. -/
def OfTurn (parse : Text → Option Json) (tab : TabId) (t : Nat) (raw : Text) : Prop :=
  decodeMessage parse raw = .submitAck tab (some t) ∨
    ∃ chunk, decodeMessage parse raw = .inboundMessage tab (some t) chunk

/-- As far as turn `t` is concerned the two states agree: its own entries, its call
    and the tab's assembler are the same, and it is expected in both or in neither. -/
structure AgreeOn (b b' : WsBridge) (tab : TabId) (t : Nat) : Prop where
  expected : b'.server.pendingTurnId tab = some t ↔ b.server.pendingTurnId tab = some t
  waiter : b'.server.pending (tab, t) = b.server.pending (tab, t)
  sendAck : b'.server.pendingSendAck (tab, t) = b.server.pendingSendAck (tab, t)
  submit : b'.server.pendingSubmit (tab, t) = b.server.pendingSubmit (tab, t)
  assembler : b'.server.tabAssemblers tab = b.server.tabAssemblers tab
  call : b'.calls t = b.calls t

theorem inbound_of_not_expected {raw : Text} (h : OfTurn parse tab t raw)
    (hne : b.server.pendingTurnId tab ≠ some t) : b.inbound parse raw = b := by
  obtain hraw | ⟨chunk, hraw⟩ := h
  · simp [WsBridge.inbound, hraw, ServerState.handleInbound, ServerState.handleSubmitAck, hne]
  -- A chunk that names a turn is only taken at that turn.
  · have heff : b.server.effectiveTurnId tab (some t) = none := by
      unfold ServerState.effectiveTurnId
      split
      · rfl
      · rename_i expected hexpected
        have : t ≠ expected := by
          rintro rfl
          exact hne hexpected
        simp [this]
    simp [WsBridge.inbound, hraw, ServerState.handleInbound, ServerState.handleInboundMessage, heff]

/-- Signals to a call only depend on the call. -/
theorem receive_congr {calls calls' : FMap Nat Call} (h : calls' t = calls t) (sig : Signal) :
    WsBridge.receive calls' sig t = WsBridge.receive calls sig t := by
  cases sig with
  | ack | reply => simp [WsBridge.receive, WsBridge.atReceiver, h]
  | _ => exact h

theorem foldl_receive_congr {calls calls' : FMap Nat Call} (h : calls' t = calls t)
    (sigs : List Signal) :
    sigs.foldl WsBridge.receive calls' t = sigs.foldl WsBridge.receive calls t := by
  induction sigs generalizing calls calls' with
  | nil => exact h
  | cons sig sigs ih => exact ih (receive_congr h sig)

section Congr

variable {st st' : ServerState}

theorem handleSubmitAck_congr (h : st'.view tab t = st.view tab t) :
    (st'.handleSubmitAck tab (some t)).1.view tab t =
    (st.handleSubmitAck tab (some t)).1.view tab t ∧
      (st'.handleSubmitAck tab (some t)).2 = (st.handleSubmitAck tab (some t)).2 := by
  obtain ⟨hexpected, hwaiter, hsendAck, hsubmit, hasm⟩ := view_eq_iff.mp h
  simp only [ServerState.handleSubmitAck, hexpected, hsendAck, hsubmit]
  split
  · exact ⟨h, rfl⟩
  · split
    · exact ⟨by ext1 <;> simp [hexpected, hwaiter, hsubmit, hasm], rfl⟩
    · split
      · exact ⟨by ext1 <;> simp [hexpected, hwaiter, hsendAck, hasm], rfl⟩
      · exact ⟨h, rfl⟩

theorem handleInboundMessage_congr (h : st'.view tab t = st.view tab t) (chunk : Text) :
    (st'.handleInboundMessage parse tab (some t) chunk).1.view tab t =
        (st.handleInboundMessage parse tab (some t) chunk).1.view tab t ∧
      (st'.handleInboundMessage parse tab (some t) chunk).2 =
        (st.handleInboundMessage parse tab (some t) chunk).2 := by
  obtain ⟨hexpected, hwaiter, hsendAck, hsubmit, hasm⟩ := view_eq_iff.mp h
  have heff : st'.effectiveTurnId tab (some t) = st.effectiveTurnId tab (some t) := by
    simp only [ServerState.effectiveTurnId, hexpected]
  simp only [ServerState.handleInboundMessage, heff, hasm]
  split
  · exact ⟨h, rfl⟩
  · rename_i turnId hturn
    -- The message names `t`, so no other turn is meant.
    obtain rfl : turnId = t := by
      unfold ServerState.effectiveTurnId at hturn
      split at hturn
      · cases hturn
      · dsimp only at hturn
        split at hturn
        · rename_i heq
          rw [heq]
          exact (Option.some.inj hturn).symm
        · cases hturn
    split
    · exact ⟨by ext1 <;> simp [hexpected, hwaiter, hsendAck, hsubmit], rfl⟩
    · simp only [ServerState.deliver, hwaiter]
      split
      · exact ⟨by ext1 <;> simp [hsendAck, hsubmit], rfl⟩
      · exact ⟨by ext1 <;> simp [hwaiter, hsendAck, hsubmit], rfl⟩

end Congr

/-- A message of the turn finds the same entries in both states. -/
theorem AgreeOn.inbound (h : AgreeOn b b' tab t) {raw : Text} (hraw : OfTurn parse tab t raw) :
    AgreeOn (b.inbound parse raw) (b'.inbound parse raw) tab t := by
  by_cases hexp : b.server.pendingTurnId tab = some t
  · have hview : b'.server.view tab t = b.server.view tab t :=
      view_eq_iff.mpr ⟨(h.expected.mpr hexp).trans hexp.symm, h.waiter, h.sendAck, h.submit,
        h.assembler⟩
    have hhandled : (b'.server.handleInbound parse (decodeMessage parse raw)).1.view tab t =
          (b.server.handleInbound parse (decodeMessage parse raw)).1.view tab t ∧
        (b'.server.handleInbound parse (decodeMessage parse raw)).2 =
          (b.server.handleInbound parse (decodeMessage parse raw)).2 := by
      obtain hraw | ⟨chunk, hraw⟩ := hraw
      · rw [hraw]
        exact handleSubmitAck_congr hview
      · rw [hraw]
        exact handleInboundMessage_congr hview chunk
    obtain ⟨hview', hsignals⟩ := hhandled
    obtain ⟨hexpected, hwaiter, hsendAck, hsubmit, hasm⟩ := view_eq_iff.mp hview'
    refine ⟨⟨hexpected.symm.trans, hexpected.trans⟩, hwaiter, hsendAck, hsubmit, hasm, ?_⟩
    show (b'.server.handleInbound parse (decodeMessage parse raw)).2.foldl _ b'.calls t = _
    rw [hsignals]
    exact foldl_receive_congr h.call _
  -- Not expected on either side: the message changes nothing.
  · rw [inbound_of_not_expected hraw hexp, inbound_of_not_expected hraw (mt h.expected.mp hexp)]
    exact h

theorem AgreeOn.run_inbound (h : AgreeOn b b' tab t) {raws : List Text}
    (hraws : ∀ raw ∈ raws, OfTurn parse tab t raw) :
    AgreeOn ((bridgeMachine parse).run b (raws.map .inbound))
      ((bridgeMachine parse).run b' (raws.map .inbound)) tab t := by
  induction raws generalizing b b' with
  | nil => exact h
  | cons raw raws ih =>
    exact ih (h.inbound (hraws raw (by simp))) (fun raw' h' => hraws raw' (by simp [h']))

/-! ### Cleaning up -/

/-- The cleanup of `t₁` leaves turn `t₂` on the tab alone: its entries are as they
    were, and the messages of `t₂` that follow do to its call what they would have
    done without the cleanup. -/
def Isolated (parse : Text → Option Json) (b : WsBridge) (tab : TabId) (t₁ t₂ : Nat) : Prop :=
  AgreeOn b (b.cleanup t₁) tab t₂ ∧
    ∀ raws : List Text, (∀ raw ∈ raws, OfTurn parse tab t₂ raw) →
      ((bridgeMachine parse).run (b.cleanup t₁) (raws.map .inbound)).calls t₂ =
        ((bridgeMachine parse).run b (raws.map .inbound)).calls t₂

/-- A failed call keeps its hands off the waiters of other turns. -/
theorem cleanupTables_other (st : ServerState) (call : Call) (tab : TabId) {t₁ : Nat}
    (hne : t ≠ t₁) (acked : Bool) :
    (WsBridge.cleanupTables st t₁ call acked).pending (tab, t) = st.pending (tab, t) ∧
      (WsBridge.cleanupTables st t₁ call acked).pendingSendAck (tab, t) =
        st.pendingSendAck (tab, t) ∧
      (WsBridge.cleanupTables st t₁ call acked).pendingSubmit (tab, t) =
        st.pendingSubmit (tab, t) ∧
      (WsBridge.cleanupTables st t₁ call acked).tabAssemblers tab = st.tabAssemblers tab := by
  unfold WsBridge.cleanupTables
  split <;> simp [hne]

/-- Before the acknowledgement it takes the expected turn of the tab away. -/
theorem cleanupTables_expected {st : ServerState} {call : Call} {t₁ : Nat} (acked : Bool) :
    (WsBridge.cleanupTables st t₁ call acked).pendingTurnId call.tabId =
      if acked then st.pendingTurnId call.tabId else none := by
  unfold WsBridge.cleanupTables
  split <;> simp

/-- **Turn isolation.**  Whatever has happened on the bridge, let the call of turn
    `t₁` be about to clean up, and let `t₂` be another turn on its tab.  Then `t₂` is
    left alone if and only if `t₁` had been acknowledged or `t₂` is not the turn the
    tab is expected to be at. -/
theorem cleanup_isolates_iff (parse : Text → Option Json) (acts : List Action) (t₁ t₂ : Nat)
    (call : Call) (acked : Bool) (error : WsBridgeError) (hne : t₁ ≠ t₂)
    (hcall : ((bridgeMachine parse).run .spawn acts).calls t₁ = some call)
    (hfailed : call.phase = .failed acked error) :
    Isolated parse ((bridgeMachine parse).run .spawn acts) call.tabId t₁ t₂ ↔
      acked = true ∨
        ((bridgeMachine parse).run .spawn acts).server.pendingTurnId call.tabId ≠ some t₂ := by
  generalize (bridgeMachine parse).run .spawn acts = b at *
  have hcleanup : b.cleanup t₁ =
      { b with
        server := WsBridge.cleanupTables b.server t₁ call acked
        calls := b.calls.insert t₁ { call with phase := .done (.error error) } } := by
    simp only [WsBridge.cleanup, hcall, hfailed]
  have hexpected : (b.cleanup t₁).server.pendingTurnId call.tabId =
      if acked then b.server.pendingTurnId call.tabId else none := by
    rw [hcleanup]
    exact cleanupTables_expected acked
  constructor
  · rintro ⟨hagree, -⟩
    rcases acked with _ | _
    -- What was taken away is not what `t₂` had.
    · refine .inr fun hexp => ?_
      have hkept := hagree.expected.mpr hexp
      rw [hexpected] at hkept
      cases hkept
    · exact .inl rfl
  · intro hcond
    obtain ⟨hwaiter, hsendAck, hsubmit, hasm⟩ :=
      cleanupTables_other b.server call call.tabId hne.symm acked
    have hagree : AgreeOn b (b.cleanup t₁) call.tabId t₂ := by
      refine ⟨?_, ?_, ?_, ?_, ?_, ?_⟩
      · rw [hexpected]
        rcases hcond with rfl | hother
        · rfl
        · split
          · rfl
          · constructor
            · intro h
              cases h
            · intro h
              exact absurd h hother
      all_goals rw [hcleanup]
      · exact hwaiter
      · exact hsendAck
      · exact hsubmit
      · exact hasm
      · exact FMap.insert_of_ne _ _ hne.symm
    exact ⟨hagree, fun raws hraws => (hagree.run_inbound hraws).call⟩

end Isolation

/-! ### Two turns, one timeout -/

/-- Two turns on tab 1, and the acknowledgement of turn `t` does not come in time. -/
def twoTurns (t : Nat) : List Action :=
  [.takeTurnId, .takeTurnId, .startTurn 1 .send 1 "https://chatgpt.com/" "a".toList,
    .startTurn 2 .send 1 "https://chatgpt.com/" "b".toList, .wake t true]

/-- A call on tab 1 that nobody has answered yet. -/
def unanswered (phase : Phase) : Call where
  kind := .send
  tabId := 1
  phase := phase
  acked := false
  reply := none

/-- The later turn fails; the earlier one is not expected any more. -/
theorem cleanup_isolates_earlier :
    Isolated sampleParse ((bridgeMachine sampleParse).run .spawn (twoTurns 2)) 1 2 1 :=
  (cleanup_isolates_iff sampleParse (twoTurns 2) 2 1 (unanswered (.failed false .timeout)) false
    .timeout (by decide) rfl rfl).mpr (.inr (by decide))

/-- The earlier turn fails; its cleanup takes the later turn's expectation away. -/
theorem cleanup_breaks_later :
    ((bridgeMachine sampleParse).run .spawn (twoTurns 1)).calls 1 =
        some (unanswered (.failed false .timeout)) ∧
      ((bridgeMachine sampleParse).run .spawn (twoTurns 1)).calls 2 =
        some (unanswered .awaitAck) ∧
      ¬ Isolated sampleParse ((bridgeMachine sampleParse).run .spawn (twoTurns 1)) 1 1 2 := by
  refine ⟨rfl, rfl, ?_⟩
  rintro ⟨hagree, -⟩
  have hkept := hagree.expected.mpr rfl
  cases hkept

end Canon.Bridge
