import Canon.Bridge.Turns

/-! # Tabs that wait to be claimed

    A tab that is ready without anyone having asked for it is queued under its URL,
    and a second time under the URL it was opened with when that is another one.
    `claim_tab_for_url` takes the first tab of a queue.

    Whether a claim is right depends on what was said about the tab before, so the
    machine here carries for each tab whether it was announced and neither closed nor
    claimed since.  A claim must take an announced tab.  Queues that hold every tab at
    most once in all, and announced tabs only, are exactly those from which claims
    take nothing else, in whatever order they come.
-/

namespace Canon.Bridge

/-- The tabs that wait under a URL. -/
def ServerState.waiting (st : ServerState) (url : String) : List TabId :=
  (st.preopenedTabsByUrl url).getD []

/-! ### The machine -/

structure TabLedger where
  bridge : WsBridge
  /-- The tab was ready, and neither closed nor claimed since. -/
  announced : TabId → Bool

/-- The tab a claim returns. -/
def WsBridge.claimed (b : WsBridge) : Action → Option TabId
  | .claimTabForUrl url => (b.claimTabForUrl url).2
  | _ => none

namespace TabLedger

def spawn : TabLedger where
  bridge := .spawn
  announced := fun _ => false

/-- What a message says about a tab. -/
def note (announced : TabId → Bool) : InMsg → TabId → Bool
  | .tabReady tabId _ _ _ => Function.update announced tabId true
  | .tabClosed tabId => Function.update announced tabId false
  | _ => announced

def step (parse : Text → Option Json) (s : TabLedger) (a : Action) : TabLedger where
  bridge := (bridgeMachine parse).step s.bridge a
  announced :=
    match a with
    | .inbound raw => note s.announced (decodeMessage parse raw)
    | .claimTabForUrl url =>
      match (s.bridge.claimTabForUrl url).2 with
      | some tabId => Function.update s.announced tabId false
      | none => s.announced
    | _ => s.announced

/-- The claim returns a tab that was announced since it was last closed or claimed. -/
def ClaimsAnnounced (s : TabLedger) (a : Action) : Prop :=
  ∀ tabId, s.bridge.claimed a = some tabId → s.announced tabId = true

/-- A tab that becomes ready waits nowhere else and has one URL only; a tab that is
    closed waits under no other URL than the last one it was seen at. -/
def OneUrl (parse : Text → Option Json) (s : TabLedger) : Action → Prop
  | .inbound raw =>
    match decodeMessage parse raw with
    | .tabReady tabId url originalUrl none =>
      (∀ original, originalUrl = some original → original = url) ∧
        ∀ other, tabId ∈ s.bridge.server.waiting other → other = url
    | .tabClosed tabId =>
      ∀ url, tabId ∈ s.bridge.server.waiting url → s.bridge.server.tabUrls tabId = some url
    | _ => True
  | _ => True

end TabLedger

def ledgerMachine (parse : Text → Option Json) : Machine TabLedger Action where
  step := TabLedger.step parse

/-! ### Queues under each action -/

section Waiting

variable {st : ServerState} {parse : Text → Option Json}

theorem waiting_congr {st' : ServerState} (h : st'.preopenedTabsByUrl = st.preopenedTabsByUrl) :
    st'.waiting = st.waiting := by
  unfold ServerState.waiting
  rw [h]

theorem preopened_send_getD (msg : OutFrame) :
    ((st.send msg).getD st).preopenedTabsByUrl = st.preopenedTabsByUrl := by
  cases h : st.send msg with
  | none => rfl
  | some st' =>
    unfold ServerState.send at h
    obtain ⟨out, -, h⟩ := Option.bind_eq_some_iff.mp h
    split at h
    · obtain rfl := Option.some.inj h
      rfl
    · cases h

variable (tabId : TabId) (url : String)

theorem waiting_preopen (tabId : TabId) (other : String) :
    (st.preopen url tabId).waiting other =
      if other = url ∧ tabId ∉ st.waiting url then st.waiting url ++ [tabId]
      else st.waiting other := by
  unfold ServerState.preopen ServerState.waiting
  by_cases hother : other = url
  · subst hother
    simp only [FMap.insert_self, Option.getD_some, List.contains_eq_mem, decide_eq_true_eq,
      true_and]
    by_cases hmem : tabId ∈ (st.preopenedTabsByUrl other).getD []
    · simp [hmem]
    · simp [hmem]
  · simp [hother]

theorem mem_waiting_preopen {url other : String} {tabId x : TabId} :
    x ∈ (st.preopen url tabId).waiting other ↔
      x ∈ st.waiting other ∨ (other = url ∧ x = tabId) := by
  rw [waiting_preopen]
  split
  · rename_i h
    rw [h.1]
    simp
  · rename_i h
    constructor
    · exact .inl
    · rintro (hx | ⟨rfl, rfl⟩)
      · exact hx
      · by_contra hx
        exact h ⟨rfl, hx⟩

theorem nodup_waiting_preopen {url : String} {tabId : TabId}
    (h : ∀ u, (st.waiting u).Nodup) (other : String) :
    ((st.preopen url tabId).waiting other).Nodup := by
  rw [waiting_preopen]
  split
  · rename_i hnew
    rw [List.nodup_append]
    refine ⟨h url, by simp, ?_⟩
    intro x hx y hy hxy
    rw [hxy, List.mem_singleton.mp hy] at hx
    exact hnew.2 hx
  · exact h other

theorem waiting_tabClosed :
    (st.handleTabClosed tabId).waiting url =
      if st.tabUrls tabId = some url then (st.waiting url).filter (· ≠ tabId)
      else st.waiting url := by
  unfold ServerState.handleTabClosed ServerState.waiting
  cases hurl : st.tabUrls tabId with
  | none => simp
  | some last =>
    cases hqueue : st.preopenedTabsByUrl last with
    | none =>
      by_cases h : last = url
      · subst h
        simp [hqueue]
      · simp [h, hqueue]
    | some queue =>
      by_cases h : last = url
      · subst h
        simp [hqueue]
      · simp [h, Ne.symm h, hqueue]

theorem waiting_tabClaimed :
    (st.handleInbound parse (.tabClaimed tabId)).1.waiting url =
      (st.waiting url).filter (· ≠ tabId) := by
  show ((st.preopenedTabsByUrl url).map _).getD [] = _
  unfold ServerState.waiting
  cases st.preopenedTabsByUrl url with
  | none => rfl
  | some queue => rfl

/-- Without a request, a tab that is ready is queued under both its URLs. -/
theorem waiting_tabReady (originalUrl : Option String) (other : String) (x : TabId) :
    x ∈ (st.handleTabReady tabId url originalUrl none).1.waiting other ↔
      x ∈ st.waiting other ∨ (x = tabId ∧ (other = url ∨ originalUrl = some other)) := by
  have hsame : ∀ st' : ServerState, st'.preopenedTabsByUrl = st.preopenedTabsByUrl →
      (x ∈ (st'.preopen url tabId).waiting other ↔
        x ∈ st.waiting other ∨ (other = url ∧ x = tabId)) := by
    intro st' hst
    rw [mem_waiting_preopen, waiting_congr hst]
  unfold ServerState.handleTabReady
  cases originalUrl with
  | none =>
    apply (hsame _ rfl).trans
    simp [and_comm]
  | some original =>
    apply mem_waiting_preopen.trans
    apply (or_congr_left (hsame _ rfl)).trans
    rw [Option.some.injEq, eq_comm (a := original)]
    tauto

theorem nodup_waiting_tabReady (originalUrl : Option String) (h : ∀ u, (st.waiting u).Nodup)
    (other : String) :
    ((st.handleTabReady tabId url originalUrl none).1.waiting other).Nodup := by
  unfold ServerState.handleTabReady
  cases originalUrl with
  | none => exact nodup_waiting_preopen h other
  | some original => exact nodup_waiting_preopen (fun u => nodup_waiting_preopen h u) other

/-- A message that moves no tab between the queues. -/
def InMsg.KeepsQueues : InMsg → Prop
  | .tabReady _ _ _ none | .tabClosed _ | .tabClaimed _ => False
  | _ => True

theorem preopened_handleInbound {msg : InMsg} (h : msg.KeepsQueues) :
    (st.handleInbound parse msg).1.preopenedTabsByUrl = st.preopenedTabsByUrl := by
  cases msg with
  | ignored | tabOpened => rfl
  | tabClosed | tabClaimed => exact h.elim
  | tabReady tabId url originalUrl reqId =>
    cases reqId with
    | none => exact h.elim
    | some rid =>
      simp only [ServerState.handleInbound, ServerState.handleTabReady]
      split <;> rfl
  | submitAck tabId turnId =>
    simp only [ServerState.handleInbound, ServerState.handleSubmitAck]
    split
    · rfl
    · split
      · rfl
      · split
        · rfl
        · split <;> rfl
  | turnStarted tabId turnId =>
    simp only [ServerState.handleInbound, ServerState.handleTurnStarted]
    split <;> rfl
  | inboundMessage tabId turnId chunk =>
    simp only [ServerState.handleInbound, ServerState.handleInboundMessage, ServerState.deliver]
    split
    · rfl
    · split
      · rfl
      · split <;> rfl
  | newChatDone tabId =>
    simp only [ServerState.handleInbound]
    split <;> rfl
  | tempChatDone tabId =>
    simp only [ServerState.handleInbound]
    split <;> rfl

theorem waiting_handleInbound {msg : InMsg} (h : msg.KeepsQueues) :
    (st.handleInbound parse msg).1.waiting = st.waiting :=
  waiting_congr (preopened_handleInbound h)

/-- Only messages and claims move tabs between the queues. -/
theorem preopened_step {b : WsBridge} {a : Action} (hinbound : ∀ raw, a ≠ .inbound raw)
    (hclaim : ∀ url, a ≠ .claimTabForUrl url) :
    ((bridgeMachine parse).step b a).server.preopenedTabsByUrl = b.server.preopenedTabsByUrl := by
  cases a with
  | inbound raw => exact absurd rfl (hinbound raw)
  | claimTabForUrl url => exact absurd rfl (hclaim url)
  | takeTurnId | connect | disconnect | sinkWrites | sinkFails | setTabEndpointId | waitNewChat
  | waitTempChat | takeCompletedTurns => rfl
  | startTurn turnId kind tabId url text =>
    simp only [bridgeMachine]
    split
    · unfold WsBridge.startTurn ServerState.sendOrQueue
      dsimp only
      generalize hst : ServerState.prepareAssembler _ _ _ = st
      have hkept : st.preopenedTabsByUrl = b.server.preopenedTabsByUrl := by
        rw [← hst]
        cases kind with
        | send | submit => rfl
      have hsend : ((st.send (.turn tabId text turnId)).getD st).preopenedTabsByUrl =
          st.preopenedTabsByUrl := preopened_send_getD _
      cases h : st.send (.turn tabId text turnId) with
      | none => exact hkept
      | some st' =>
        rw [h] at hsend
        exact hsend.trans hkept
    · rfl
  | wake turnId expired =>
    simp only [bridgeMachine, WsBridge.wake]
    split <;> rfl
  | cleanup turnId =>
    simp only [bridgeMachine, WsBridge.cleanup]
    split
    · rfl
    · split
      · unfold WsBridge.cleanupTables
        split <;> rfl
      · rfl
  | openFreshTab url => exact preopened_send_getD _
  | outboundSubmit | closeTab | newChat | tempChat => exact preopened_send_getD _

/-- A claim takes the first tab of its queue. -/
theorem claimTabForUrl_eq (b : WsBridge) (url : String) :
    (b.claimTabForUrl url).2 = (b.server.waiting url).head? ∧
      ∀ other, (b.claimTabForUrl url).1.server.waiting other =
        if other = url then (b.server.waiting url).tail else b.server.waiting other := by
  unfold WsBridge.claimTabForUrl
  split
  · rename_i tabId queue hqueue
    have hwaiting : b.server.waiting url = tabId :: queue := by simp [ServerState.waiting, hqueue]
    refine ⟨by rw [hwaiting]; rfl, ?_⟩
    intro other
    rw [hwaiting, List.tail_cons]
    show ServerState.waiting ((ServerState.send _ _).getD _) other = _
    rw [waiting_congr (preopened_send_getD _)]
    by_cases hother : other = url
    · subst hother
      simp [ServerState.waiting]
    · simp [ServerState.waiting, hother]
  · rename_i hqueue
    have hwaiting : b.server.waiting url = [] := by
      unfold ServerState.waiting
      cases h : b.server.preopenedTabsByUrl url with
      | none => rfl
      | some queue =>
        cases queue with
        | nil => rfl
        | cons tabId queue => exact absurd h (hqueue tabId queue)
    refine ⟨by rw [hwaiting]; rfl, ?_⟩
    intro other
    by_cases hother : other = url
    · subst hother
      simp [hwaiting]
    · simp [hother]

end Waiting

/-! ### When claims are right -/

section Claims

variable {parse : Text → Option Json} {s : TabLedger}

/-- Every tab is once in every queue. -/
def TabLedger.Inv (s : TabLedger) : Prop := ∀ url, (s.bridge.server.waiting url).Nodup

/-- The queues hold announced tabs only, and no tab under two URLs. -/
structure TabLedger.Clean (s : TabLedger) : Prop where
  announced : ∀ url, ∀ tabId ∈ s.bridge.server.waiting url, s.announced tabId = true
  oneUrl : ∀ url other tabId, tabId ∈ s.bridge.server.waiting url →
    tabId ∈ s.bridge.server.waiting other → url = other

/-- Whatever is claimed from here on, each claim is right. -/
def TabLedger.Claimable (parse : Text → Option Json) (s : TabLedger) : Prop :=
  ∀ urls : List String,
    (ledgerMachine parse).Along TabLedger.ClaimsAnnounced s (urls.map .claimTabForUrl)

theorem announced_claim (url : String) (tabId : TabId) :
    (s.step parse (.claimTabForUrl url)).announced tabId =
      if (s.bridge.server.waiting url).head? = some tabId then false else s.announced tabId := by
  unfold TabLedger.step
  dsimp only
  rw [(claimTabForUrl_eq s.bridge url).1]
  cases (s.bridge.server.waiting url).head? with
  | none => simp
  | some first =>
    by_cases h : tabId = first
    · simp [h]
    · simp [h, Ne.symm h]

theorem waiting_claim (url other : String) :
    (s.step parse (.claimTabForUrl url)).bridge.server.waiting other =
      if other = url then (s.bridge.server.waiting url).tail else s.bridge.server.waiting other :=
  (claimTabForUrl_eq s.bridge url).2 other

theorem claimsAnnounced_claim (url : String) :
    s.ClaimsAnnounced (.claimTabForUrl url) ↔
      ∀ tabId, (s.bridge.server.waiting url).head? = some tabId → s.announced tabId = true := by
  rw [← (claimTabForUrl_eq s.bridge url).1]
  rfl

theorem TabLedger.Clean.claim (h : s.Clean) (hinv : s.Inv) (url : String) :
    (s.step parse (.claimTabForUrl url)).Clean := by
  have hmem : ∀ {other tabId},
      tabId ∈ (s.step parse (.claimTabForUrl url)).bridge.server.waiting other →
        tabId ∈ s.bridge.server.waiting other := by
    intro other tabId htab
    rw [waiting_claim] at htab
    split at htab
    · rename_i hother
      rw [hother]
      exact List.mem_of_mem_tail htab
    · exact htab
  constructor
  · intro other tabId htab
    rw [announced_claim, if_neg]
    · exact h.announced other tabId (hmem htab)
    -- The tab that was taken is in no queue any more.
    · intro hfirst
      have hother : url = other :=
        h.oneUrl url other tabId (List.mem_of_mem_head? hfirst) (hmem htab)
      rw [waiting_claim, if_pos hother.symm] at htab
      have hnodup := hinv url
      rw [← List.cons_head?_tail hfirst] at hnodup
      exact (List.nodup_cons.mp hnodup).1 htab
  · intro first second tabId hfirst hsecond
    exact h.oneUrl first second tabId (hmem hfirst) (hmem hsecond)

theorem TabLedger.Inv.claim (hinv : s.Inv) (url : String) :
    (s.step parse (.claimTabForUrl url)).Inv := by
  intro other
  rw [waiting_claim]
  split
  · exact (hinv url).tail
  · exact hinv other

theorem TabLedger.Clean.claimsAnnounced (h : s.Clean) (a : Action) : s.ClaimsAnnounced a := by
  cases a with
  | claimTabForUrl url =>
    rw [claimsAnnounced_claim]
    intro tabId hfirst
    exact h.announced url tabId (List.mem_of_mem_head? hfirst)
  | _ =>
    intro tabId hclaimed
    cases hclaimed

theorem TabLedger.Clean.claimable (h : s.Clean) (hinv : s.Inv) : s.Claimable parse := by
  intro urls
  induction urls generalizing s with
  | nil => trivial
  | cons url urls ih => exact ⟨h.claimsAnnounced _, ih (h.claim hinv url) (hinv.claim url)⟩

theorem TabLedger.Claimable.claim (h : s.Claimable parse) (url : String) :
    (s.step parse (.claimTabForUrl url)).Claimable parse := by
  intro urls
  exact (h (url :: urls)).2

theorem TabLedger.Claimable.first (h : s.Claimable parse) {url : String} {tabId : TabId}
    (hfirst : (s.bridge.server.waiting url).head? = some tabId) : s.announced tabId = true :=
  (claimsAnnounced_claim url).mp (h [url]).1 tabId hfirst

/-- Claims under its URL reach every waiting tab. -/
theorem TabLedger.Claimable.announced (h : s.Claimable parse) {url : String} {tabId : TabId}
    (htab : tabId ∈ s.bridge.server.waiting url) : s.announced tabId = true := by
  generalize hqueue : s.bridge.server.waiting url = queue at htab
  induction queue generalizing s with
  | nil => cases htab
  | cons first queue ih =>
    by_cases heq : first = tabId
    · subst heq
      exact h.first (by rw [hqueue]; rfl)
    · have hrest : tabId ∈ queue := by
        rcases List.mem_cons.mp htab with rfl | hrest
        · exact absurd rfl heq
        · exact hrest
      have hafter := ih (h.claim url) (by rw [waiting_claim, if_pos rfl, hqueue]; rfl) hrest
      rw [announced_claim, hqueue, if_neg] at hafter
      · exact hafter
      · simpa using heq

/-- A tab under two URLs can be claimed under one and then under the other. -/
theorem TabLedger.Claimable.oneUrl (h : s.Claimable parse) {url other : String} {tabId : TabId}
    (htab : tabId ∈ s.bridge.server.waiting url)
    (hother : tabId ∈ s.bridge.server.waiting other) : url = other := by
  by_contra hne
  generalize hqueue : s.bridge.server.waiting url = queue at htab
  induction queue generalizing s with
  | nil => cases htab
  | cons first queue ih =>
    have hkept : tabId ∈ (s.step parse (.claimTabForUrl url)).bridge.server.waiting other := by
      rw [waiting_claim, if_neg (Ne.symm hne)]
      exact hother
    by_cases heq : first = tabId
    · have hafter := (h.claim url).announced hkept
      rw [announced_claim, hqueue, heq] at hafter
      simp at hafter
    · have hrest : tabId ∈ queue := by
        rcases List.mem_cons.mp htab with rfl | hrest
        · exact absurd rfl heq
        · exact hrest
      exact ih (h.claim url) hkept (by rw [waiting_claim, if_pos rfl, hqueue]; rfl) hrest

theorem claimable_iff_clean (hinv : s.Inv) : s.Claimable parse ↔ s.Clean := by
  constructor
  · intro h
    constructor
    · intro url tabId htab
      exact h.announced htab
    · intro url other tabId htab hother
      exact h.oneUrl htab hother
  · intro h
    exact h.claimable hinv

/-! ### Steps and runs -/

/-- The queues are the same or shorter, and no tab is closed. -/
theorem TabLedger.Clean.mono {s' : TabLedger} (h : s.Clean)
    (hqueue : ∀ url, ∀ tabId ∈ s'.bridge.server.waiting url, tabId ∈ s.bridge.server.waiting url)
    (hannounced : ∀ tabId, s.announced tabId = true → s'.announced tabId = true) : s'.Clean where
  announced url tabId htab := hannounced tabId (h.announced url tabId (hqueue url tabId htab))
  oneUrl url other tabId htab hother :=
    h.oneUrl url other tabId (hqueue url tabId htab) (hqueue other tabId hother)

theorem waiting_inbound (raw : Text) :
    (s.step parse (.inbound raw)).bridge.server.waiting =
      (s.bridge.server.handleInbound parse (decodeMessage parse raw)).1.waiting := rfl

theorem announced_inbound (raw : Text) :
    (s.step parse (.inbound raw)).announced =
      TabLedger.note s.announced (decodeMessage parse raw) := rfl

theorem waiting_step_other {a : Action} (hinbound : ∀ raw, a ≠ .inbound raw)
    (hclaim : ∀ url, a ≠ .claimTabForUrl url) :
    (s.step parse a).bridge.server.waiting = s.bridge.server.waiting :=
  waiting_congr (preopened_step hinbound hclaim)

theorem TabLedger.Inv.step (hinv : s.Inv) (a : Action) : (s.step parse a).Inv := by
  cases a with
  | claimTabForUrl url => exact hinv.claim url
  | inbound raw =>
    intro url
    rw [waiting_inbound]
    cases decodeMessage parse raw with
    | tabReady tabId ready originalUrl reqId =>
      cases reqId with
      | none => exact nodup_waiting_tabReady tabId ready originalUrl hinv url
      | some rid =>
        rw [waiting_handleInbound]
        · exact hinv url
        · trivial
    | tabClosed tabId =>
      show ((s.bridge.server.handleTabClosed tabId).waiting url).Nodup
      rw [waiting_tabClosed]
      split
      · exact (hinv url).filter _
      · exact hinv url
    | tabClaimed tabId =>
      rw [waiting_tabClaimed]
      exact (hinv url).filter _
    | _ =>
      rw [waiting_handleInbound]
      · exact hinv url
      · trivial
  | _ =>
    intro url
    rw [waiting_step_other (by simp) (by simp)]
    exact hinv url

/-- A tab that becomes ready is put where `OneUrl` says, or into a second queue. -/
theorem clean_tabReady_iff (h : s.Clean) {raw : Text} {tabId : TabId} {ready : String}
    {originalUrl : Option String}
    (hmsg : decodeMessage parse raw = .tabReady tabId ready originalUrl none) :
    (s.step parse (.inbound raw)).Clean ↔
      (∀ original, originalUrl = some original → original = ready) ∧
        ∀ other, tabId ∈ s.bridge.server.waiting other → other = ready := by
  have hwaiting : ∀ url x, x ∈ (s.step parse (.inbound raw)).bridge.server.waiting url ↔
      x ∈ s.bridge.server.waiting url ∨ (x = tabId ∧ (url = ready ∨ originalUrl = some url)) := by
    intro url x
    rw [waiting_inbound, hmsg]
    exact waiting_tabReady tabId ready originalUrl url x
  have hready : tabId ∈ (s.step parse (.inbound raw)).bridge.server.waiting ready :=
    (hwaiting ready tabId).mpr (.inr ⟨rfl, .inl rfl⟩)
  constructor
  · intro hclean
    constructor
    · intro original horiginal
      exact hclean.oneUrl original ready tabId
        ((hwaiting original tabId).mpr (.inr ⟨rfl, .inr horiginal⟩)) hready
    · intro other hother
      exact hclean.oneUrl other ready tabId ((hwaiting other tabId).mpr (.inl hother)) hready
  · rintro ⟨horiginal, hother⟩
    -- The tab is under the URL it is ready at, and every other tab is where it was.
    have hplace : ∀ url, tabId ∈ (s.step parse (.inbound raw)).bridge.server.waiting url →
        url = ready := by
      intro url htab
      rcases (hwaiting url tabId).mp htab with hold | ⟨-, rfl | hold⟩
      · exact hother url hold
      · rfl
      · exact horiginal url hold
    have hkept : ∀ {url x}, x ≠ tabId →
        x ∈ (s.step parse (.inbound raw)).bridge.server.waiting url →
          x ∈ s.bridge.server.waiting url := by
      intro url x hne hx
      rcases (hwaiting url x).mp hx with hold | ⟨rfl, -⟩
      · exact hold
      · exact absurd rfl hne
    constructor
    · intro url x hx
      rw [announced_inbound, hmsg]
      show Function.update s.announced tabId true x = true
      by_cases heq : x = tabId
      · simp [heq]
      · rw [Function.update_of_ne heq]
        exact h.announced url x (hkept heq hx)
    · intro url other x hx hx'
      by_cases heq : x = tabId
      · subst heq
        rw [hplace url hx, hplace other hx']
      · exact h.oneUrl url other x (hkept heq hx) (hkept heq hx')

/-- A tab that is closed leaves its queue if that is the queue of its last URL. -/
theorem clean_tabClosed_iff (h : s.Clean) {raw : Text} {tabId : TabId}
    (hmsg : decodeMessage parse raw = .tabClosed tabId) :
    (s.step parse (.inbound raw)).Clean ↔
      ∀ url, tabId ∈ s.bridge.server.waiting url →
        s.bridge.server.tabUrls tabId = some url := by
  have hwaiting : ∀ url, (s.step parse (.inbound raw)).bridge.server.waiting url =
      if s.bridge.server.tabUrls tabId = some url then
        (s.bridge.server.waiting url).filter (· ≠ tabId)
      else s.bridge.server.waiting url := by
    intro url
    rw [waiting_inbound, hmsg]
    exact waiting_tabClosed tabId url
  have hannounced : (s.step parse (.inbound raw)).announced =
      Function.update s.announced tabId false := by
    rw [announced_inbound, hmsg]
    rfl
  constructor
  · intro hclean url htab
    by_contra hlast
    have hstays : tabId ∈ (s.step parse (.inbound raw)).bridge.server.waiting url := by
      rw [hwaiting, if_neg hlast]
      exact htab
    have hafter := hclean.announced url tabId hstays
    rw [hannounced] at hafter
    simp at hafter
  · intro hlast
    have hkept : ∀ {url x}, x ∈ (s.step parse (.inbound raw)).bridge.server.waiting url →
        x ≠ tabId ∧ x ∈ s.bridge.server.waiting url := by
      intro url x hx
      rw [hwaiting] at hx
      split at hx
      · obtain ⟨hmem, hne⟩ := List.mem_filter.mp hx
        exact ⟨by simpa using hne, hmem⟩
      · rename_i hurl
        refine ⟨?_, hx⟩
        rintro rfl
        exact hurl (hlast url hx)
    constructor
    · intro url x hx
      rw [hannounced, Function.update_of_ne (hkept hx).1]
      exact h.announced url x (hkept hx).2
    · intro url other x hx hx'
      exact h.oneUrl url other x (hkept hx).2 (hkept hx').2

theorem clean_step_iff (hinv : s.Inv) (h : s.Clean) (a : Action) :
    (s.step parse a).Clean ↔ s.OneUrl parse a := by
  cases a with
  | claimTabForUrl url => exact iff_of_true (h.claim hinv url) trivial
  | inbound raw =>
    show _ ↔ match decodeMessage parse raw with
      | .tabReady tabId url originalUrl none =>
        (∀ original, originalUrl = some original → original = url) ∧
          ∀ other, tabId ∈ s.bridge.server.waiting other → other = url
      | .tabClosed tabId =>
        ∀ url, tabId ∈ s.bridge.server.waiting url → s.bridge.server.tabUrls tabId = some url
      | _ => True
    cases hmsg : decodeMessage parse raw with
    | tabReady tabId url originalUrl reqId =>
      cases reqId with
      | none => exact clean_tabReady_iff h hmsg
      | some rid =>
        -- The tab goes to the caller that asked for it.
        refine iff_of_true (h.mono ?_ ?_) trivial
        · intro url' x hx
          rw [waiting_inbound, hmsg, waiting_handleInbound] at hx
          · exact hx
          · trivial
        · intro x hx
          rw [announced_inbound, hmsg]
          show Function.update s.announced tabId true x = true
          by_cases heq : x = tabId
          · simp [heq]
          · rw [Function.update_of_ne heq]
            exact hx
    | tabClosed tabId => exact clean_tabClosed_iff h hmsg
    | tabClaimed tabId =>
      refine iff_of_true (h.mono ?_ ?_) trivial
      · intro url x hx
        rw [waiting_inbound, hmsg, waiting_tabClaimed] at hx
        exact (List.mem_filter.mp hx).1
      · intro x hx
        rw [announced_inbound, hmsg]
        exact hx
    | _ =>
      refine iff_of_true (h.mono ?_ ?_) trivial
      · intro url x hx
        rw [waiting_inbound, hmsg, waiting_handleInbound] at hx
        · exact hx
        · trivial
      · intro x hx
        rw [announced_inbound, hmsg]
        exact hx
  | _ =>
    refine iff_of_true (h.mono ?_ ?_) trivial
    · intro url x hx
      rw [waiting_step_other (by simp) (by simp)] at hx
      exact hx
    · intro x hx
      exact hx

theorem inv_spawn_ledger : TabLedger.spawn.Inv := by
  intro url
  exact List.nodup_nil

theorem clean_spawn : TabLedger.spawn.Clean := by
  constructor
  · intro url tabId htab
    cases htab
  · intro url other tabId htab
    cases htab

/-- **Claims are exclusive and live.**  At every point of a run, whatever was and is
    claimed, each claim returns a tab that was announced and neither closed nor returned
    since, if and only if at every step a tab that becomes ready without a request waits
    under no other URL and names no other original URL, and a tab that is closed waits
    under no other URL than the last one it was seen at. -/
theorem claims_announced_iff (parse : Text → Option Json) (acts : List Action) :
    (∀ taken, taken <+: acts → ∀ urls : List String,
        (ledgerMachine parse).Along TabLedger.ClaimsAnnounced .spawn
          (taken ++ urls.map .claimTabForUrl)) ↔
      (ledgerMachine parse).Along (TabLedger.OneUrl parse) .spawn acts := by
  have hclean : (ledgerMachine parse).Throughout TabLedger.Clean .spawn acts ↔
      (ledgerMachine parse).Along (TabLedger.OneUrl parse) .spawn acts := by
    apply Machine.throughout_iff_along (I := TabLedger.Inv)
    · intro s a hinv
      exact hinv.step a
    · intro s a hinv h
      exact clean_step_iff hinv h a
    · exact inv_spawn_ledger
    · exact clean_spawn
  have hinv : ∀ taken, ((ledgerMachine parse).run .spawn taken).Inv := by
    intro taken
    apply Machine.run_invariant (I := TabLedger.Inv)
    · intro s a hinv
      exact hinv.step a
    · exact inv_spawn_ledger
  rw [← hclean]
  constructor
  · intro h taken htaken
    have hclaimable : TabLedger.Claimable parse ((ledgerMachine parse).run .spawn taken) := by
      intro urls
      exact ((Machine.along_append _ _ _ _ _).mp (h taken htaken urls)).2
    exact (claimable_iff_clean (hinv taken)).mp hclaimable
  · intro h taken htaken urls
    rw [Machine.along_append]
    refine ⟨?_, (h taken htaken).claimable (hinv taken) urls⟩
    -- Each claim of the run itself is taken from a clean state.
    clear urls
    induction taken using List.reverseRecOn with
    | nil => trivial
    | append_singleton taken a ih =>
      have hbefore : taken <+: acts := (List.prefix_append taken [a]).trans htaken
      rw [Machine.along_snoc]
      exact ⟨ih hbefore, (h taken hbefore).claimsAnnounced a⟩

/-- A tab that is ready at one URL after it was opened with another. -/
def readyFrame : String :=
  "\x7b\"type\":\"TAB_READY\",\"tabId\":1,\"url\":\"/c/2\",\"originalUrl\":\"/g/1\"\x7d"

def closedFrame : String := "\x7b\"type\":\"TAB_CLOSED\",\"tabId\":1\x7d"

/-- The JSON parser as it behaves on the two frames. -/
def tabParse (text : Text) : Option Json :=
  if text = readyFrame.toList then
    some (.obj [("type", .str "TAB_READY"), ("tabId", .nat 1), ("url", .str "/c/2"),
      ("originalUrl", .str "/g/1")])
  else if text = closedFrame.toList then
    some (.obj [("type", .str "TAB_CLOSED"), ("tabId", .nat 1)])
  else none

/-- One announcement gives two claims of the same tab, and a claim after the tab was
    closed. -/
theorem stale_entry_is_claimed :
    (((ledgerMachine tabParse).run .spawn [.inbound readyFrame.toList]).bridge.claimed
        (.claimTabForUrl "/c/2") = some 1 ∧
      ((ledgerMachine tabParse).run .spawn
        [.inbound readyFrame.toList, .claimTabForUrl "/c/2"]).bridge.claimed
          (.claimTabForUrl "/g/1") = some 1) ∧
    (((ledgerMachine tabParse).run .spawn
        [.inbound readyFrame.toList, .inbound closedFrame.toList]).bridge.claimed
          (.claimTabForUrl "/g/1") = some 1) ∧
    ¬ (ledgerMachine tabParse).Along TabLedger.ClaimsAnnounced .spawn
        [.inbound readyFrame.toList, .claimTabForUrl "/c/2", .claimTabForUrl "/g/1"] ∧
    ¬ (ledgerMachine tabParse).Along TabLedger.ClaimsAnnounced .spawn
        [.inbound readyFrame.toList, .inbound closedFrame.toList, .claimTabForUrl "/g/1"] := by
  have hfirst : ((ledgerMachine tabParse).run .spawn [.inbound readyFrame.toList]).bridge.claimed
      (.claimTabForUrl "/c/2") = some 1 := by
    decide +kernel
  have hagain : ((ledgerMachine tabParse).run .spawn
      [.inbound readyFrame.toList, .claimTabForUrl "/c/2"]).bridge.claimed
        (.claimTabForUrl "/g/1") = some 1 := by
    decide +kernel
  have hclosed : ((ledgerMachine tabParse).run .spawn
      [.inbound readyFrame.toList, .inbound closedFrame.toList]).bridge.claimed
        (.claimTabForUrl "/g/1") = some 1 := by
    decide +kernel
  refine ⟨⟨hfirst, hagain⟩, hclosed, ?_, ?_⟩
  · intro h
    have hannounced := h.2.2.1 1 hagain
    exact absurd hannounced (by decide +kernel)
  · intro h
    have hannounced := h.2.2.1 1 hclosed
    exact absurd hannounced (by decide +kernel)

end Claims

end Canon.Bridge
