import Canon.Bridge.Outbound

/-! # No turn is lost

    The balance of a step, the calls that fail for good, and from both the exact
    condition under which every turn that has not failed is still on its way or
    written.
-/

namespace Canon.Bridge

section Calls

variable {parse : Text → Option Json} {b : WsBridge} {t : Nat}

/-! ### Failed calls -/

theorem nextPhase_isFailed {call : Call} (h : call.phase.isFailed = true) (expired : Bool) :
    (b.nextPhase t call expired).isFailed = true := by
  unfold WsBridge.nextPhase
  split
  · rename_i hphase
    rw [hphase] at h
    cases h
  · rename_i hphase
    rw [hphase] at h
    cases h
  · exact h

theorem receive_calls (calls : FMap Nat Call) (sig : Signal) (t : Nat) :
    (WsBridge.receive calls sig t).map (·.phase.isFailed) = (calls t).map (·.phase.isFailed) := by
  have hsame : ∀ tabId turnId (update : Call → Call), (∀ call, (update call).phase = call.phase) →
      (WsBridge.atReceiver calls tabId turnId update t).map (·.phase.isFailed) =
        (calls t).map (·.phase.isFailed) := by
    intro tabId turnId update hupdate
    unfold WsBridge.atReceiver
    rw [Option.map_map]
    congr 1
    funext call
    simp only [Function.comp_apply]
    split
    · rw [hupdate]
    · rfl
  cases sig with
  | ack tabId turnId => exact hsame tabId turnId _ fun _ => rfl
  | reply tabId turnId text => exact hsame tabId turnId _ fun _ => rfl
  | _ => rfl

theorem foldl_receive_calls (calls : FMap Nat Call) (sigs : List Signal) (t : Nat) :
    (sigs.foldl WsBridge.receive calls t).map (·.phase.isFailed) =
      (calls t).map (·.phase.isFailed) := by
  induction sigs generalizing calls with
  | nil => rfl
  | cons sig sigs ih => exact (ih _).trans (receive_calls calls sig t)

/-- Whether a turn was entered, and then whether its call has failed. -/
def status (b : WsBridge) (t : Nat) : Option Bool := (b.calls t).map (·.phase.isFailed)

/-- A step does not forget a call and does not take a failure back. -/
theorem status_step {failed : Bool} (h : status b t = some failed) (a : Action) :
    ∃ failed', status ((bridgeMachine parse).step b a) t = some failed' ∧
      (failed = true → failed' = true) := by
  have hsame : ∀ b' : WsBridge, b'.calls = b.calls → ∃ failed', status b' t = some failed' ∧
      (failed = true → failed' = true) := by
    intro b' hcalls
    refine ⟨failed, ?_, id⟩
    rw [status, hcalls]
    exact h
  -- One call gets another phase.
  have hinsert : ∀ (b' : WsBridge) (t' : Nat) (call call' : Call), b.calls t' = some call →
      b'.calls = b.calls.insert t' call' →
      (call.phase.isFailed = true → call'.phase.isFailed = true) →
      ∃ failed', status b' t = some failed' ∧ (failed = true → failed' = true) := by
    intro b' t' call call' hcall hcalls hkeeps
    by_cases ht : t = t'
    · subst ht
      rw [status, hcall] at h
      have hfailed : call.phase.isFailed = failed := Option.some.inj h
      refine ⟨call'.phase.isFailed, ?_, ?_⟩
      · rw [status, hcalls, FMap.insert_self]
        rfl
      · intro hf
        exact hkeeps (hfailed.trans hf)
    · refine ⟨failed, ?_, id⟩
      rw [status, hcalls, FMap.insert_of_ne _ _ ht]
      exact h
  cases a with
  | startTurn t' kind tabId url text =>
    show ∃ failed', status (if b.Taken t' then b.startTurn t' kind tabId url text else b) t =
      some failed' ∧ _
    split
    -- A turn that is entered now has no call yet.
    · rename_i htaken
      have hne : t ≠ t' := by
        rintro rfl
        rw [status, htaken.2.2] at h
        cases h
      refine ⟨failed, ?_, id⟩
      exact (congrArg _ (FMap.insert_of_ne _ _ hne)).trans h
    · exact hsame b rfl
  | wake t' expired =>
    show ∃ failed', status (b.wake t' expired) t = some failed' ∧ _
    unfold WsBridge.wake
    split
    · exact hsame b rfl
    · rename_i call hcall
      exact hinsert _ t' call _ hcall rfl fun hf => nextPhase_isFailed hf expired
  | cleanup t' =>
    show ∃ failed', status (b.cleanup t') t = some failed' ∧ _
    unfold WsBridge.cleanup
    split
    · exact hsame b rfl
    · rename_i call hcall
      split
      · exact hinsert _ t' call _ hcall rfl fun _ => rfl
      · exact hsame b rfl
  | inbound raw => exact ⟨failed, (foldl_receive_calls _ _ t).trans h, id⟩
  | claimTabForUrl url =>
    apply hsame
    show (b.claimTabForUrl url).1.calls = b.calls
    unfold WsBridge.claimTabForUrl
    split <;> rfl
  | _ => exact hsame _ rfl

theorem unfailed_of_step (h : status b t ≠ none) {a : Action}
    (hstep : Unfailed ((bridgeMachine parse).step b a) t) : Unfailed b t := by
  obtain ⟨failed, hfailed⟩ := Option.ne_none_iff_exists'.mp h
  obtain ⟨failed', hfailed', hkeeps⟩ := status_step hfailed a
  have hfalse : some failed' = some false := hfailed'.symm.trans hstep
  cases failed with
  | false => exact hfailed
  | true =>
    rw [hkeeps rfl] at hfalse
    cases hfalse

theorem status_step_ne_none (h : status b t ≠ none) (a : Action) :
    status ((bridgeMachine parse).step b a) t ≠ none := by
  obtain ⟨failed, hfailed⟩ := Option.ne_none_iff_exists'.mp h
  obtain ⟨failed', hfailed', -⟩ := status_step hfailed a
  rw [hfailed']
  exact Option.some_ne_none _

end Calls

/-! ### The balance -/

section Balance

variable {parse : Text → Option Json} {w : Wire}

attribute [local simp] Wire.step

/-- A frame is in hand only while its connection is there. -/
def Wire.Held (w : Wire) : Prop := w.inHand ≠ none → w.bridge.server.live = true

theorem channel_eq_cons {st : ServerState} {f : OutFrame} {rest : List OutFrame}
    (h : st.channel = f :: rest) :
    st.outTx = some { queue := f :: rest, alive := true } := by
  unfold ServerState.channel at h
  split at h
  · cases h
  · rename_i out hout
    split at h
    · rename_i halive
      rw [hout, ← h, ← halive]
    · cases h

theorem kept_eq (w : Wire) :
    w.kept = turnsIn w.bridge.server.turnReplayQueue ++ turnsIn w.bridge.server.channel ++
      turnsIn w.inHand.toList ++ turnsIn w.written := by
  simp [Wire.kept, Wire.places]

/-- The new frame goes into the channel or into the replay queue. -/
theorem startTurn_outbound (b : WsBridge) (t : Nat) (kind : CallKind) (tabId : TabId)
    (url : String) (text : Text) :
    ((b.startTurn t kind tabId url text).server.live = b.server.live) ∧
      (((b.startTurn t kind tabId url text).server.turnReplayQueue = b.server.turnReplayQueue ∧
          (b.startTurn t kind tabId url text).server.channel =
            b.server.channel ++ [.turn tabId text t]) ∨
        ((b.startTurn t kind tabId url text).server.turnReplayQueue =
            b.server.turnReplayQueue ++ [.turn tabId text t] ∧
          (b.startTurn t kind tabId url text).server.channel = b.server.channel)) := by
  -- Before the frame is sent only tables and assemblers change.
  obtain ⟨st, hserver, htx, hqueue⟩ : ∃ st : ServerState,
      (b.startTurn t kind tabId url text).server = st.sendOrQueue (.turn tabId text t) ∧
        st.outTx = b.server.outTx ∧ st.turnReplayQueue = b.server.turnReplayQueue := by
    cases kind with
    | send => exact ⟨_, rfl, rfl, rfl⟩
    | submit => exact ⟨_, rfl, rfl, rfl⟩
  have hchannel : st.channel = b.server.channel := by
    rw [ServerState.channel, htx, ServerState.channel]
  have hlive : st.live = b.server.live := by
    rw [ServerState.live, htx, ServerState.live]
  rw [hserver, ServerState.sendOrQueue, ← hchannel, ← hlive, ← hqueue]
  cases hsend : st.send (.turn tabId text t) with
  | none => exact ⟨rfl, .inr ⟨rfl, rfl⟩⟩
  | some st' =>
    obtain ⟨hq, hc, hl⟩ := send_eq_some hsend
    exact ⟨hl, .inl ⟨hq, hc⟩⟩

theorem step_act (parse : Text → Option Json) (w : Wire) {a : Action} (ha : ¬ a.MovesTurns) :
    w.step parse (.act a) = { w with bridge := (bridgeMachine parse).step w.bridge a } ∧
      w.entered (.act a) = [] ∧ w.lost (.act a) = [] := by
  cases a with
  | startTurn | connect | disconnect | sinkWrites | sinkFails => exact absurd trivial ha
  | _ =>
    refine ⟨?_, rfl, rfl⟩
    simp [Wire.step, Wire.entered]

/-- The balance of a step: turns that are entered come in, turns that are lost go out,
    all others stay. -/
def Balanced (parse : Text → Option Json) (w : Wire) (a : WireAction) : Prop :=
  ((w.step parse a).kept ++ w.lost a).Perm (w.kept ++ w.entered a)

theorem balanced_of_unchanged {a : WireAction} (hstep : w.step parse a = w)
    (hlost : w.lost a = []) (hentered : w.entered a = []) : Balanced parse w a := by
  rw [Balanced, hstep, hlost, hentered]

theorem balanced_sinkWrote : Balanced parse w .sinkWrote := by
  cases hhand : w.inHand with
  | none => exact balanced_of_unchanged (by simp [Wire.step, hhand]) rfl rfl
  | some f =>
    have hstep : w.step parse .sinkWrote =
        { w with inHand := none, written := w.written ++ [f] } := by simp [Wire.step, hhand]
    rw [Balanced, hstep, kept_eq, kept_eq, hhand, List.perm_iff_count]
    intro turn
    simp [Wire.lost, Wire.entered, List.count_append]
    omega

theorem balanced_startTurn (t : Nat) (kind : CallKind) (tabId : TabId) (url : String)
    (text : Text) : Balanced parse w (.act (.startTurn t kind tabId url text)) := by
  by_cases htaken : w.bridge.Taken t
  · have hstep : w.step parse (.act (.startTurn t kind tabId url text)) =
        { w with
          bridge := w.bridge.startTurn t kind tabId url text
          sent := w.sent ++ [⟨tabId, text, t⟩] } := by
      simp [Wire.step, Wire.entered, bridgeMachine, htaken]
    have hentered : w.entered (.act (.startTurn t kind tabId url text)) = [⟨tabId, text, t⟩] :=
      if_pos htaken
    have hturn : turnsIn [.turn tabId text t] = [⟨tabId, text, t⟩] := rfl
    rw [Balanced, hstep, kept_eq, kept_eq, hentered, List.perm_iff_count]
    intro turn
    rcases (startTurn_outbound w.bridge t kind tabId url text).2 with ⟨hq, hc⟩ | ⟨hq, hc⟩
    · simp only [hq, hc, turnsIn_append, hturn, Wire.lost, List.append_nil, List.count_append]
      omega
    · simp only [hq, hc, turnsIn_append, hturn, Wire.lost, List.append_nil, List.count_append]
      omega
  · refine balanced_of_unchanged ?_ rfl (if_neg htaken)
    simp [Wire.step, Wire.entered, bridgeMachine, htaken]

theorem balanced_connect (hheld : w.Held) : Balanced parse w (.act .connect) := by
  by_cases hnone : w.bridge.server.outTx = none
  -- Without a connection the channel is empty and nothing is in hand.
  · have hlive : w.bridge.server.live = false := by simp [ServerState.live, hnone]
    have hhand : w.inHand = none := by
      by_contra hsome
      exact absurd (hheld hsome) (by simp [hlive])
    have hstep : (w.step parse (.act .connect)).kept =
        turnsIn (w.bridge.server.turnReplayQueue.take outboundCapacity) ++ turnsIn w.written := by
      simp [Wire.step, hnone, kept_eq, bridgeMachine, WsBridge.connect, ServerState.channel]
    have hlost : w.lost (.act .connect) =
        turnsIn (w.bridge.server.turnReplayQueue.drop outboundCapacity) := by
      simp [Wire.lost, hnone]
    have hsplit : turnsIn w.bridge.server.turnReplayQueue =
        turnsIn (w.bridge.server.turnReplayQueue.take outboundCapacity) ++
          turnsIn (w.bridge.server.turnReplayQueue.drop outboundCapacity) := by
      rw [← turnsIn_append, List.take_append_drop]
    rw [Balanced, hstep, hlost, kept_eq, hsplit, channel_of_not_live hlive, hhand,
      List.perm_iff_count]
    intro turn
    simp [Wire.entered, List.count_append]
    omega
  · exact balanced_of_unchanged (by simp [Wire.step, hnone]) (by simp [Wire.lost, hnone]) rfl

/-- The connection is gone: what is left is the replay queue and what was written. -/
theorem balanced_of_closed {a : WireAction} (hentered : w.entered a = [])
    (hlost : w.lost a = turnsIn (w.bridge.server.channel ++ w.inHand.toList))
    (hstep : (w.step parse a).kept =
      turnsIn w.bridge.server.turnReplayQueue ++ turnsIn w.written) : Balanced parse w a := by
  rw [Balanced, hstep, hlost, hentered, kept_eq, List.perm_iff_count]
  intro turn
  simp only [turnsIn_append, List.append_nil, List.count_append]
  omega

theorem balanced_disconnect : Balanced parse w (.act .disconnect) := by
  apply balanced_of_closed rfl rfl
  simp [Wire.step, kept_eq, bridgeMachine, ServerState.channel]

theorem balanced_sinkFails : Balanced parse w (.act .sinkFails) := by
  have hchannel : ((bridgeMachine parse).step w.bridge .sinkFails).server.channel = [] := by
    apply channel_of_not_live
    cases htx : w.bridge.server.outTx <;> simp [bridgeMachine, ServerState.live, htx]
  apply balanced_of_closed rfl rfl
  simp only [Wire.step, kept_eq, hchannel]
  simp [bridgeMachine]

theorem balanced_sinkWrites : Balanced parse w (.act .sinkWrites) := by
  cases hhand : w.inHand with
  | some f => exact balanced_of_unchanged (by simp [Wire.step, hhand]) rfl rfl
  | none =>
    cases hchannel : w.bridge.server.channel with
    | nil => exact balanced_of_unchanged (by simp [Wire.step, hhand, hchannel]) rfl rfl
    | cons f rest =>
      -- The head of the channel goes into the hand of the sink task.
      have htx := channel_eq_cons hchannel
      have hstep : (w.step parse (.act .sinkWrites)).kept =
          turnsIn w.bridge.server.turnReplayQueue ++ turnsIn rest ++ turnsIn [f] ++
            turnsIn w.written := by
        simp [Wire.step, hhand, kept_eq, bridgeMachine, htx, ServerState.channel]
      rw [Balanced, hstep, kept_eq, hhand, hchannel, List.perm_iff_count]
      intro turn
      simp [Wire.lost, Wire.entered, List.count_append, turnsIn_cons]
      omega

theorem balanced_step (hheld : w.Held) (a : WireAction) : Balanced parse w a := by
  cases a with
  | sinkWrote => exact balanced_sinkWrote
  | act a =>
    by_cases ha : a.MovesTurns
    · cases a with
      | startTurn t kind tabId url text => exact balanced_startTurn t kind tabId url text
      | connect => exact balanced_connect hheld
      | disconnect => exact balanced_disconnect
      | sinkFails => exact balanced_sinkFails
      | sinkWrites => exact balanced_sinkWrites
      | _ => exact absurd ha id
    · obtain ⟨hstep, hentered, hlost⟩ := step_act parse w ha
      have hsame := SameOutbound.step parse w.bridge ha
      rw [Balanced, hstep, hentered, hlost, kept_eq, kept_eq, hsame.queue, hsame.channel]

end Balance

/-! ### The invariant -/

/-- Frames are in one place only, and come from turns that were entered. -/
structure Wire.Inv (w : Wire) : Prop where
  held : w.Held
  known : ∀ turn ∈ w.sent, status w.bridge turn.turnId ≠ none
  ofSent : ∀ turn ∈ w.kept, turn ∈ w.sent
  once : (w.kept.map (·.turnId)).Nodup

section Invariant

variable {parse : Text → Option Json} {w : Wire}

theorem sent_step (parse : Text → Option Json) (w : Wire) (a : WireAction) :
    (w.step parse a).sent = w.sent ++ w.entered a := by
  cases a with
  | sinkWrote =>
    simp only [Wire.step]
    split <;> simp [Wire.entered]
  | act a =>
    cases a with
    | sinkWrites =>
      simp only [Wire.step]
      split <;> simp [Wire.entered]
    | connect =>
      simp only [Wire.step]
      split <;> simp [Wire.entered]
    | disconnect | sinkFails => simp [Wire.step, Wire.entered]
    | _ => rfl

theorem bridge_step_act (parse : Text → Option Json) (w : Wire) (a : Action) :
    (w.step parse (.act a)).bridge = w.bridge ∨
      (w.step parse (.act a)).bridge = (bridgeMachine parse).step w.bridge a := by
  cases a with
  | sinkWrites =>
    simp only [Wire.step]
    split
    · exact .inr rfl
    · exact .inl rfl
  | connect =>
    simp only [Wire.step]
    split
    · exact .inr rfl
    · exact .inl rfl
  | _ => exact .inr rfl

/-- The bridge of a wire takes a step of its own, or none. -/
theorem bridge_step (parse : Text → Option Json) (w : Wire) (a : WireAction) :
    (w.step parse a).bridge = w.bridge ∨
      ∃ a', (w.step parse a).bridge = (bridgeMachine parse).step w.bridge a' := by
  cases a with
  | sinkWrote =>
    left
    simp only [Wire.step]
    split <;> rfl
  | act a => exact (bridge_step_act parse w a).imp_right fun h => ⟨a, h⟩

theorem status_wire_step {t : Nat} (h : status w.bridge t ≠ none) (a : WireAction) :
    status (w.step parse a).bridge t ≠ none := by
  rcases bridge_step parse w a with hb | ⟨a', hb⟩
  · rw [hb]
    exact h
  · rw [hb]
    exact status_step_ne_none h a'

theorem unfailed_of_wire_step {t : Nat} (h : status w.bridge t ≠ none) {a : WireAction}
    (hstep : Unfailed (w.step parse a).bridge t) : Unfailed w.bridge t := by
  rcases bridge_step parse w a with hb | ⟨a', hb⟩
  · rw [← hb]
    exact hstep
  · rw [hb] at hstep
    exact unfailed_of_step h hstep

theorem held_step (h : w.Held) (a : WireAction) : (w.step parse a).Held := by
  intro hhand
  cases a with
  | sinkWrote =>
    simp only [Wire.step] at hhand ⊢
    split at hhand
    · exact h hhand
    · exact absurd rfl hhand
  | act a =>
    by_cases ha : a.MovesTurns
    · cases a with
      | startTurn t kind tabId url text =>
        show (if w.bridge.Taken t then _ else _ : WsBridge).server.live = true
        split
        · rw [(startTurn_outbound w.bridge t kind tabId url text).1]
          exact h hhand
        · exact h hhand
      | connect =>
        simp only [Wire.step] at hhand ⊢
        split at hhand
        · exact absurd rfl hhand
        · rename_i hsome
          rw [if_neg hsome]
          exact h hhand
      | disconnect | sinkFails => exact absurd rfl hhand
      | sinkWrites =>
        simp only [Wire.step] at hhand ⊢
        split at hhand
        · rename_i f rest hnone hchannel
          have htx := channel_eq_cons hchannel
          simp [bridgeMachine, ServerState.live, htx]
        · exact h hhand
      | _ => exact absurd ha id
    · obtain ⟨hstep, -, -⟩ := step_act parse w ha
      rw [hstep] at hhand ⊢
      exact (SameOutbound.step parse w.bridge ha).live.trans (h hhand)

/-- A turn is entered once: before, its number has no call, and afterwards it has. -/
theorem entered_fresh (parse : Text → Option Json) {a : WireAction} {turn : SentTurn}
    (h : turn ∈ w.entered a) :
    status w.bridge turn.turnId = none ∧ status (w.step parse a).bridge turn.turnId ≠ none ∧
      w.entered a = [turn] ∧ w.lost a = [] := by
  cases a with
  | sinkWrote => cases h
  | act a =>
    cases a with
    | startTurn t kind tabId url text =>
      by_cases htaken : w.bridge.Taken t
      · have hentered : w.entered (.act (.startTurn t kind tabId url text)) =
            [⟨tabId, text, t⟩] := if_pos htaken
        rw [hentered] at h ⊢
        obtain rfl := List.mem_singleton.mp h
        refine ⟨?_, ?_, rfl, rfl⟩
        · rw [status, htaken.2.2]
          rfl
        · simp [Wire.step, bridgeMachine, htaken, status, WsBridge.startTurn]
      · have hentered : w.entered (.act (.startTurn t kind tabId url text)) = [] :=
          if_neg htaken
        rw [hentered] at h
        cases h
    | _ => cases h

theorem Wire.Inv.step (h : w.Inv) (a : WireAction) : (w.step parse a).Inv := by
  have hbalance : Balanced parse w a := balanced_step h.held a
  have hkept : ∀ turn ∈ (w.step parse a).kept, turn ∈ w.kept ++ w.entered a := by
    intro turn hturn
    exact hbalance.mem_iff.mp (List.mem_append_left _ hturn)
  refine ⟨held_step h.held a, ?_, ?_, ?_⟩
  · intro turn hturn
    rw [sent_step] at hturn
    rcases List.mem_append.mp hturn with hturn | hturn
    · exact status_wire_step (h.known turn hturn) a
    · exact (entered_fresh parse hturn).2.1
  · intro turn hturn
    rw [sent_step]
    rcases List.mem_append.mp (hkept turn hturn) with hturn | hturn
    · exact List.mem_append_left _ (h.ofSent turn hturn)
    · exact List.mem_append_right _ hturn
  -- The numbers of the turns that were there, and of the one that is entered.
  · have hnodup : ((w.kept ++ w.entered a).map (·.turnId)).Nodup := by
      by_cases hentered : w.entered a = []
      · rw [hentered, List.append_nil]
        exact h.once
      · obtain ⟨turn, hturn⟩ := List.exists_mem_of_ne_nil _ hentered
        obtain ⟨hnew, -, heq, -⟩ := entered_fresh parse hturn
        rw [heq, List.map_append, List.nodup_append]
        refine ⟨h.once, by simp, ?_⟩
        intro t ht t' ht' htt'
        obtain ⟨old, hold, rfl⟩ := List.mem_map.mp ht
        have hsame : old.turnId = turn.turnId := htt'.trans (by simpa using ht')
        exact h.known old (h.ofSent old hold) (hsame ▸ hnew)
    have hall : (((w.step parse a).kept ++ w.lost a).map (·.turnId)).Nodup :=
      (hbalance.map _).nodup_iff.mpr hnodup
    rw [List.map_append] at hall
    exact (List.nodup_append.mp hall).1

theorem inv_spawn : Wire.spawn.Inv := by
  refine ⟨?_, ?_, ?_, List.nodup_nil⟩
  · intro h
    exact absurd rfl h
  · intro turn hturn
    cases hturn
  · intro turn hturn
    cases hturn

end Invariant

/-! ### Conservation -/

section Conservation

variable {parse : Text → Option Json} {w : Wire}

/-- The actions that lose frames leave the calls alone. -/
theorem calls_of_lost {a : WireAction} (h : w.lost a ≠ []) :
    (w.step parse a).bridge.calls = w.bridge.calls := by
  cases a with
  | sinkWrote => exact absurd rfl h
  | act a =>
    cases a with
    | connect =>
      simp only [Wire.step]
      split <;> rfl
    | disconnect | sinkFails => rfl
    | _ => exact absurd rfl h

/-- One step from a state in which nothing is missing. -/
theorem conserved_step_iff (hinv : w.Inv) (hw : w.Conserved) (a : WireAction) :
    (w.step parse a).Conserved ↔ w.LosesOnlyFailed a := by
  have hbalance : Balanced parse w a := balanced_step hinv.held a
  constructor
  -- A lost frame was nowhere else, so it is missing afterwards.
  · intro hstep turn hlost hunfailed
    have hentered : w.entered a = [] := by
      by_contra hentered
      obtain ⟨new, hnew⟩ := List.exists_mem_of_ne_nil _ hentered
      rw [(entered_fresh parse hnew).2.2.2] at hlost
      cases hlost
    have hkept : turn ∈ w.kept := by
      have hmem := hbalance.mem_iff.mp (List.mem_append_right _ hlost)
      rw [hentered, List.append_nil] at hmem
      exact hmem
    have hcalls : (w.step parse a).bridge.calls = w.bridge.calls :=
      calls_of_lost (List.ne_nil_of_mem hlost)
    have hafter : turn ∈ (w.step parse a).kept := by
      apply hstep turn
      · rw [sent_step]
        exact List.mem_append_left _ (hinv.ofSent turn hkept)
      · rw [Unfailed, hcalls]
        exact hunfailed
    have hnodup : (((w.step parse a).kept ++ w.lost a).map (·.turnId)).Nodup := by
      rw [(hbalance.map _).nodup_iff, hentered, List.append_nil]
      exact hinv.once
    rw [List.map_append, List.nodup_append] at hnodup
    exact hnodup.2.2 _ (List.mem_map_of_mem hafter) _ (List.mem_map_of_mem hlost) rfl
  · intro hguard turn hsent hunfailed
    rw [sent_step] at hsent
    rcases List.mem_append.mp hsent with hold | hnew
    · have hbefore : Unfailed w.bridge turn.turnId :=
        unfailed_of_wire_step (hinv.known turn hold) hunfailed
      have hmem := hbalance.mem_iff.mpr (List.mem_append_left _ (hw turn hold hbefore))
      rcases List.mem_append.mp hmem with hkept | hlost
      · exact hkept
      · exact absurd hbefore (hguard turn hlost)
    · obtain ⟨-, -, -, hlost⟩ := entered_fresh parse hnew
      have hmem := hbalance.mem_iff.mpr (List.mem_append_right _ hnew)
      rw [hlost, List.append_nil] at hmem
      exact hmem

/-- **No turn is lost across reconnects.**  In every state of a run, every turn that was
    entered and has not failed is in the replay queue, in the channel of the live
    connection or in the hand of its sink task, or written, if and only if every step
    throws away frames of failed turns only: a connection that takes over the replay
    queue finds no other frame behind the first 256, and a connection that ends or whose
    sink task fails has no other frame left. -/
theorem turns_conserved_iff (parse : Text → Option Json) (acts : List WireAction) :
    (wireMachine parse).Throughout Wire.Conserved .spawn acts ↔
      (wireMachine parse).Along Wire.LosesOnlyFailed .spawn acts := by
  apply Machine.throughout_iff_along (I := Wire.Inv)
  · intro w a hinv
    exact hinv.step a
  · intro w a hinv hw
    exact conserved_step_iff hinv hw a
  · exact inv_spawn
  · intro turn hturn
    cases hturn

/-- A turn is entered on a live connection, which ends before the frame is written. -/
def turnThenDisconnect : List WireAction :=
  [.act .connect, .act .takeTurnId,
    .act (.startTurn 1 .send 1 "https://chatgpt.com/" "a".toList), .act .disconnect]

/-- The frame is gone although the call still waits. -/
theorem disconnect_loses_turn :
    (⟨1, "a".toList, 1⟩ : SentTurn) ∈
        ((wireMachine fun _ => none).run .spawn turnThenDisconnect).sent ∧
      Unfailed ((wireMachine fun _ => none).run .spawn turnThenDisconnect).bridge 1 ∧
      ((wireMachine fun _ => none).run .spawn turnThenDisconnect).places = [] ∧
      ¬ (wireMachine fun _ => none).Throughout Wire.Conserved .spawn turnThenDisconnect := by
  have hsent : (⟨1, "a".toList, 1⟩ : SentTurn) ∈
      ((wireMachine fun _ => none).run .spawn turnThenDisconnect).sent := by
    decide
  refine ⟨hsent, by decide, rfl, ?_⟩
  intro h
  have hkept := h _ List.prefix_rfl _ hsent (by decide)
  cases hkept

end Conservation

end Canon.Bridge
