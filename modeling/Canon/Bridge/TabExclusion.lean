import Canon.Bridge.TabManager

/-! # One request on a tab

    A request is on a tab from the moment the tab is handed to it until it releases the
    tab.  The table marks such a tab, but `tab_manager_get_owner_tab` does not look at
    the mark, so nothing keeps two requests apart except the order in which they come.
    This module says exactly which orders do.
-/

namespace Canon.Bridge

/-- The tab a request is on. -/
def WorkPhase.tab? : WorkPhase → Option TabId
  | .markSent _ id | .sendTurn _ id | .submitted id | .sendError _ id _ | .markResponse _ id _
  | .responded _ id _ => some id
  | _ => none

namespace TabPool

def tabOf (s : TabPool) (reqId : Nat) : Option TabId :=
  (s.requests reqId).bind (·.phase.tab?)

/-- The tab a step hands to a request. -/
def handsOut (s : TabPool) : PoolAction → Option TabId
  | .advance reqId now reply =>
    (s.requests reqId).bind fun req =>
      match req.effect s.table now reply with
      | .handOut id => some id
      | _ => none
  | _ => none

/-- The step hands out no tab that is marked as in flight. -/
def HandsOutFree (s : TabPool) (a : PoolAction) : Prop :=
  ∀ id, s.handsOut a = some id → s.table.inFlight id = false

/-- No tab has two requests on it. -/
def Exclusive (s : TabPool) : Prop :=
  ∀ r r' id, s.tabOf r = some id → s.tabOf r' = some id → r = r'

/-- A tab is handed out only when no request is on it, and none has left it in flight. -/
def HandsOutUnused (s : TabPool) (a : PoolAction) : Prop :=
  ∀ id, s.handsOut a = some id → (∀ r, s.tabOf r ≠ some id) ∧ s.abandoned id = false

end TabPool

/-! ### The mark -/

section Mark

variable {t : TabSlotTable}
variable (endpointId : String) (id : TabId)

theorem inFlight_updateSlot (update : TabSlotMeta → TabSlotMeta) :
    (t.updateSlot id update).inFlight =
      Function.update t.inFlight id (update (t.slot id)).inFlight := by
  funext x
  by_cases hx : x = id
  · subst hx
    simp [TabSlotTable.inFlight, TabSlotTable.slot, TabSlotTable.updateSlot]
  · simp [TabSlotTable.inFlight, TabSlotTable.slot, TabSlotTable.updateSlot, hx]

theorem inFlight_updateSlot_same {id : TabId} {update : TabSlotMeta → TabSlotMeta}
    (h : (update (t.slot id)).inFlight = (t.slot id).inFlight) :
    (t.updateSlot id update).inFlight = t.inFlight := by
  rw [inFlight_updateSlot, h]
  exact Function.update_eq_self _ _

theorem inFlight_markTabInFlight (inFlight : Bool) :
    (t.markTabInFlight id inFlight).inFlight = Function.update t.inFlight id inFlight :=
  inFlight_updateSlot id _

theorem inFlight_touch : (t.updateSlot id fun slot => slot).inFlight = t.inFlight :=
  inFlight_updateSlot_same rfl

theorem inFlight_setTabId :
    (t.setTabId endpointId id).inFlight = t.inFlight := by
  unfold TabSlotTable.setTabId
  rw [inFlight_touch]
  rfl

theorem inFlight_markTabSent (now : Nat) :
    (t.markTabSent id now).inFlight = t.inFlight :=
  inFlight_updateSlot_same rfl

theorem inFlight_markTabResponse (now : Nat) :
    (t.markTabResponse id now).inFlight = t.inFlight :=
  inFlight_updateSlot_same rfl

theorem inFlight_noteSuccess (now : Nat) :
    (t.noteSuccess endpointId id now).inFlight = t.inFlight := by
  unfold TabSlotTable.noteSuccess
  dsimp only
  rw [inFlight_updateSlot_same]
  · rfl
  · rfl

theorem inFlight_dropTab :
    (t.dropTab endpointId id).inFlight = Function.update t.inFlight id false := by
  funext x
  by_cases hx : x = id
  · subst hx
    simp [TabSlotTable.inFlight, TabSlotTable.slot, TabSlotTable.dropTab]
  · simp [TabSlotTable.inFlight, TabSlotTable.slot, TabSlotTable.dropTab, hx]

/-- What a step does to the marks. -/
def TabEffect.mark (inFlight : TabId → Bool) : TabEffect → TabId → Bool
  | .handOut id | .block id => Function.update inFlight id true
  | .release id | .drop id => Function.update inFlight id false
  | .keep | .abandon _ => inFlight

/-- How a step moves a request on and off tabs. -/
def TabEffect.Moves (before after : Option TabId) : TabEffect → Prop
  | .keep => after = before
  | .handOut id => before = none ∧ after = some id
  | .release id | .abandon id => before = some id ∧ after = none
  | .drop _ | .block _ => before = none ∧ after = none

/-- One call on the table does to the marks and to the request what its effect says. -/
theorem advance_effect (req : LlmWorkItem) (now : Nat) (reply : BridgeReply) :
    (req.advance t now reply).1.inFlight = (req.effect t now reply).mark t.inFlight ∧
      (req.effect t now reply).Moves req.phase.tab? (req.advance t now reply).2.tab? := by
  unfold LlmWorkItem.advance LlmWorkItem.effect
  cases req.phase with
  | queued | finished => exact ⟨rfl, rfl⟩
  | waitEndpointCooldown attempt =>
    dsimp only
    split <;> exact ⟨rfl, rfl⟩
  | getOwnerTab attempt =>
    dsimp only [TabSlotTable.getOwnerTab]
    cases t.owner req.endpointId with
    | none => exact ⟨rfl, rfl⟩
    | some id =>
      dsimp only
      by_cases hcool : now < (t.slot id).cooldownUntilMs.getD 0
      · rw [if_pos hcool]
        exact ⟨inFlight_touch id, rfl⟩
      · rw [if_neg hcool]
        exact ⟨inFlight_markTabInFlight id true, rfl, rfl⟩
  | claimTab attempt =>
    dsimp only
    split
    · exact ⟨rfl, rfl⟩
    · cases reply.expired with
      | true | false => exact ⟨rfl, rfl⟩
  | openTab attempt =>
    dsimp only
    split <;> exact ⟨rfl, rfl⟩
  | setTabId attempt id => exact ⟨inFlight_setTabId _ id, rfl⟩
  | markInFlight attempt id => exact ⟨inFlight_markTabInFlight id true, rfl, rfl⟩
  | markSent attempt id => exact ⟨inFlight_markTabSent id now, rfl⟩
  | sendTurn attempt id =>
    cases req.submitOnly with
    | true =>
      cases reply.sent with
      | ok raw => exact ⟨rfl, rfl⟩
      | error error => exact ⟨rfl, rfl, rfl⟩
    | false =>
      cases reply.sent with
      | ok raw => exact ⟨rfl, rfl⟩
      | error error => exact ⟨rfl, rfl⟩
  | submitted id => exact ⟨inFlight_markTabInFlight id false, rfl, rfl⟩
  | sendError attempt id error => exact ⟨inFlight_markTabInFlight id false, rfl, rfl⟩
  | penalty attempt id error =>
    refine ⟨rfl, ?_⟩
    show WorkPhase.tab? (if _ then _ else _) = none
    split <;> rfl
  | dropTab attempt id => exact ⟨inFlight_dropTab _ id, rfl, rfl⟩
  | markResponse attempt id raw => exact ⟨inFlight_markTabResponse id now, rfl⟩
  | responded attempt id raw =>
    refine ⟨inFlight_markTabInFlight id false, rfl, ?_⟩
    dsimp only
    split
    · split <;> rfl
    · split <;> rfl
  | newChat id =>
    cases reply.newChatDone with
    | true | false => exact ⟨rfl, rfl⟩
  | newChatTimeout id => exact ⟨inFlight_markTabInFlight id true, rfl, rfl⟩
  | noteSuccess id => exact ⟨inFlight_noteSuccess _ id now, rfl⟩

end Mark

/-! ### Who is on a tab -/

section Exclusion

variable {s : TabPool}

/-- A marked tab has a request on it, or was left in flight. -/
structure TabPool.Inv (s : TabPool) : Prop where
  fresh : ∀ r, s.nextReqId ≤ r → s.requests r = none
  marked : ∀ id, s.table.inFlight id = true → (∃ r, s.tabOf r = some id) ∨ s.abandoned id = true
  abandoned : ∀ id, s.abandoned id = true → s.table.inFlight id = true

theorem inv_new : TabPool.new.Inv := by
  refine ⟨?_, ?_, ?_⟩
  · intro r hr
    rfl
  · intro id hid
    cases hid
  · intro id hid
    cases hid

/-- A new request is on no tab. -/
theorem tabOf_sendRequest (hinv : s.Inv) (endpointId : String) (urls : List String)
    (stateful submitOnly : Bool) (r : Nat) :
    (s.sendRequest endpointId urls stateful submitOnly).tabOf r = s.tabOf r := by
  unfold TabPool.sendRequest TabPool.tabOf
  by_cases hr : r = s.nextReqId
  · subst hr
    rw [hinv.fresh _ (Nat.le_refl _)]
    cases stateful with
    | true | false => simp [WorkPhase.tab?]
  · simp [hr]

theorem start_tab (req : LlmWorkItem) : (TabPool.start req).phase.tab? = req.phase.tab? := by
  unfold TabPool.start
  split
  · rename_i hphase
    rw [hphase]
    rfl
  · rfl

theorem recv_kept (endpointId : String) :
    (s.recv endpointId).tabOf = s.tabOf ∧ (s.recv endpointId).table = s.table ∧
      (s.recv endpointId).abandoned = s.abandoned ∧
      (s.recv endpointId).nextReqId = s.nextReqId ∧
      ∀ r, s.requests r = none → (s.recv endpointId).requests r = none := by
  unfold TabPool.recv
  split
  · rename_i url reqId channel _
    refine ⟨?_, rfl, rfl, rfl, ?_⟩
    · funext r
      unfold TabPool.tabOf
      dsimp only
      split
      · cases s.requests r with
        | none => rfl
        | some req => exact start_tab req
      · rfl
    · intro r hr
      dsimp only
      rw [hr]
      simp
  · exact ⟨rfl, rfl, rfl, rfl, fun r hr => hr⟩

section Advance

variable {reqId now : Nat} {reply : BridgeReply} {req : LlmWorkItem}

theorem tabOf_advance (hreq : s.requests reqId = some req) (r : Nat) :
    (s.advance reqId now reply).tabOf r =
      if r = reqId then (req.advance s.table now reply).2.tab? else s.tabOf r := by
  unfold TabPool.advance TabPool.tabOf
  rw [hreq]
  by_cases hr : r = reqId
  · simp [hr]
  · simp [hr]

theorem inFlight_advance (hreq : s.requests reqId = some req) :
    (s.advance reqId now reply).table.inFlight =
      (req.effect s.table now reply).mark s.table.inFlight := by
  unfold TabPool.advance
  rw [hreq]
  exact (advance_effect req now reply).1

theorem abandoned_advance (hreq : s.requests reqId = some req) :
    (s.advance reqId now reply).abandoned =
      TabPool.abandonedAfter s.abandoned s.table (req.effect s.table now reply) := by
  unfold TabPool.advance
  rw [hreq]

theorem advance_none (hreq : s.requests reqId = none) : s.advance reqId now reply = s := by
  unfold TabPool.advance
  rw [hreq]

/-- A request that was on a tab is still there unless it is the one that moved. -/
theorem user_kept (hreq : s.requests reqId = some req) {id : TabId}
    (hother : s.tabOf reqId ≠ some id) (h : ∃ r, s.tabOf r = some id) :
    ∃ r, (s.advance reqId now reply).tabOf r = some id := by
  obtain ⟨r, hr⟩ := h
  refine ⟨r, ?_⟩
  rw [tabOf_advance hreq, if_neg]
  · exact hr
  · rintro rfl
    exact hother hr

theorem moves_advance (hreq : s.requests reqId = some req) (now : Nat) (reply : BridgeReply) :
    (req.effect s.table now reply).Moves (s.tabOf reqId)
      ((s.advance reqId now reply).tabOf reqId) := by
  have hbefore : s.tabOf reqId = req.phase.tab? := by simp [TabPool.tabOf, hreq]
  rw [tabOf_advance hreq, if_pos rfl, hbefore]
  exact (advance_effect req now reply).2

theorem marked_advance (hinv : s.Inv) (hreq : s.requests reqId = some req) (id : TabId)
    (hid : (s.advance reqId now reply).table.inFlight id = true) :
    (∃ r, (s.advance reqId now reply).tabOf r = some id) ∨
      (s.advance reqId now reply).abandoned id = true := by
  have hmoves := moves_advance hreq now reply
  rw [inFlight_advance hreq] at hid
  rw [abandoned_advance hreq]
  -- A tab the step does not touch has its user or was left behind before.
  have hold : s.table.inFlight id = true → s.tabOf reqId ≠ some id →
      (∃ r, (s.advance reqId now reply).tabOf r = some id) ∨ s.abandoned id = true := by
    intro hmark hother
    rcases hinv.marked id hmark with huser | hleft
    · exact .inl (user_kept hreq hother huser)
    · exact .inr hleft
  cases heffect : req.effect s.table now reply with
  | keep =>
    rw [heffect] at hmoves hid
    by_cases hother : s.tabOf reqId = some id
    · exact .inl ⟨reqId, hmoves.trans hother⟩
    · exact hold hid hother
  | handOut x =>
    rw [heffect] at hmoves hid
    by_cases hx : id = x
    · exact .inl ⟨reqId, hx ▸ hmoves.2⟩
    · refine hold ?_ (by simp [hmoves.1])
      rwa [TabEffect.mark, Function.update_of_ne hx] at hid
  | release x =>
    rw [heffect] at hmoves hid
    by_cases hx : id = x
    · rw [TabEffect.mark, hx] at hid
      simp at hid
    · rw [TabEffect.mark, Function.update_of_ne hx] at hid
      rw [TabPool.abandonedAfter, Function.update_of_ne hx]
      exact hold hid (by simp [hmoves.1, Ne.symm hx])
  | drop x =>
    rw [heffect] at hmoves hid
    by_cases hx : id = x
    · rw [TabEffect.mark, hx] at hid
      simp at hid
    · rw [TabEffect.mark, Function.update_of_ne hx] at hid
      rw [TabPool.abandonedAfter, Function.update_of_ne hx]
      exact hold hid (by simp [hmoves.1])
  | abandon x =>
    rw [heffect] at hmoves hid
    rw [TabPool.abandonedAfter]
    by_cases hx : id = x
    · rw [hx, Function.update_self]
      exact .inr (hx ▸ hid)
    · rw [Function.update_of_ne hx]
      exact hold hid (by simp [hmoves.1, Ne.symm hx])
  | block x =>
    rw [heffect] at hmoves hid
    rw [TabPool.abandonedAfter]
    by_cases hx : id = x
    · rw [hx, Function.update_self]
      exact .inr rfl
    · rw [TabEffect.mark, Function.update_of_ne hx] at hid
      rw [Function.update_of_ne hx]
      exact hold hid (by simp [hmoves.1])

theorem abandoned_marked_advance (hinv : s.Inv) (hreq : s.requests reqId = some req) (id : TabId)
    (hid : (s.advance reqId now reply).abandoned id = true) :
    (s.advance reqId now reply).table.inFlight id = true := by
  rw [abandoned_advance hreq] at hid
  rw [inFlight_advance hreq]
  cases heffect : req.effect s.table now reply with
  | keep =>
    rw [heffect] at hid
    exact hinv.abandoned id hid
  | handOut x =>
    rw [heffect] at hid
    rw [TabEffect.mark]
    by_cases hx : id = x
    · rw [hx, Function.update_self]
    · rw [Function.update_of_ne hx]
      exact hinv.abandoned id hid
  | release x | drop x =>
    rw [heffect, TabPool.abandonedAfter] at hid
    rw [TabEffect.mark]
    by_cases hx : id = x
    · simp [hx] at hid
    · rw [Function.update_of_ne hx] at hid
      rw [Function.update_of_ne hx]
      exact hinv.abandoned id hid
  | abandon x =>
    rw [heffect, TabPool.abandonedAfter] at hid
    rw [TabEffect.mark]
    by_cases hx : id = x
    · rw [hx, Function.update_self] at hid
      rw [hx]
      exact hid
    · rw [Function.update_of_ne hx] at hid
      exact hinv.abandoned id hid
  | block x =>
    rw [heffect, TabPool.abandonedAfter] at hid
    rw [TabEffect.mark]
    by_cases hx : id = x
    · rw [hx, Function.update_self]
    · rw [Function.update_of_ne hx] at hid
      rw [Function.update_of_ne hx]
      exact hinv.abandoned id hid

end Advance

theorem TabPool.Inv.step (hinv : s.Inv) (a : PoolAction) : (tabPoolMachine.step s a).Inv := by
  cases a with
  | sendRequest endpointId urls stateful submitOnly =>
    have htab := tabOf_sendRequest hinv endpointId urls stateful submitOnly
    refine ⟨?_, ?_, hinv.abandoned⟩
    · intro r hr
      have hr' : s.nextReqId + 1 ≤ r := hr
      show s.requests.insert s.nextReqId _ r = none
      rw [FMap.insert_of_ne _ _ (by omega)]
      exact hinv.fresh r (by omega)
    · intro id hid
      rcases hinv.marked id hid with ⟨r, hr⟩ | hleft
      · exact .inl ⟨r, (htab r).trans hr⟩
      · exact .inr hleft
  | recv endpointId =>
    obtain ⟨htab, htable, habandoned, hnext, hnone⟩ := recv_kept (s := s) endpointId
    show (s.recv endpointId).Inv
    refine ⟨?_, ?_, ?_⟩
    · intro r hr
      rw [hnext] at hr
      exact hnone r (hinv.fresh r hr)
    · rw [htab, htable, habandoned]
      exact hinv.marked
    · rw [htable, habandoned]
      exact hinv.abandoned
  | advance reqId now reply =>
    show (s.advance reqId now reply).Inv
    cases hreq : s.requests reqId with
    | none =>
      rw [advance_none hreq]
      exact hinv
    | some req =>
      refine ⟨?_, marked_advance hinv hreq, abandoned_marked_advance hinv hreq⟩
      intro r hr
      have hr' : s.nextReqId ≤ r := by
        rw [TabPool.advance, hreq] at hr
        exact hr
      have hne : r ≠ reqId := by
        rintro rfl
        rw [hinv.fresh r hr'] at hreq
        cases hreq
      rw [TabPool.advance, hreq]
      show s.requests.insert reqId _ r = none
      rw [FMap.insert_of_ne _ _ hne]
      exact hinv.fresh r hr'

/-! ### Steps and runs -/

/-- A step that hands out no tab puts no request on one. -/
theorem tabOf_step_of_keep (hinv : s.Inv) {a : PoolAction} (h : s.handsOut a = none) {r : Nat}
    {id : TabId} (hr : (tabPoolMachine.step s a).tabOf r = some id) : s.tabOf r = some id := by
  cases a with
  | sendRequest endpointId urls stateful submitOnly =>
    rw [← tabOf_sendRequest hinv endpointId urls stateful submitOnly]
    exact hr
  | recv endpointId =>
    rw [← (recv_kept endpointId).1]
    exact hr
  | advance reqId now reply =>
    replace hr : (s.advance reqId now reply).tabOf r = some id := hr
    cases hreq : s.requests reqId with
    | none =>
      rw [advance_none hreq] at hr
      exact hr
    | some req =>
      by_cases hne : r = reqId
      · subst hne
        have hmoves := moves_advance hreq now reply
        rw [hr] at hmoves
        cases heffect : req.effect s.table now reply with
        | handOut x => simp [TabPool.handsOut, hreq, heffect] at h
        | keep =>
          rw [heffect] at hmoves
          exact hmoves.symm
        | release x | abandon x | drop x | block x =>
          rw [heffect] at hmoves
          cases hmoves.2
      · rw [tabOf_advance hreq, if_neg hne] at hr
        exact hr

/-- The request a tab is handed to was on none, and the others stay where they are. -/
theorem tabOf_step_of_handsOut {a : PoolAction} {id : TabId} (h : s.handsOut a = some id) :
    ∃ reqId, s.tabOf reqId = none ∧ (tabPoolMachine.step s a).tabOf reqId = some id ∧
      ∀ r, r ≠ reqId → (tabPoolMachine.step s a).tabOf r = s.tabOf r := by
  cases a with
  | sendRequest | recv => cases h
  | advance reqId now reply =>
    obtain ⟨req, hreq, heffect⟩ := Option.bind_eq_some_iff.mp h
    have hmoves := moves_advance hreq now reply
    cases hcase : req.effect s.table now reply with
    | handOut x =>
      rw [hcase] at heffect hmoves
      obtain rfl : x = id := Option.some.inj heffect
      refine ⟨reqId, hmoves.1, hmoves.2, ?_⟩
      intro r hr
      show (s.advance reqId now reply).tabOf r = s.tabOf r
      rw [tabOf_advance hreq, if_neg hr]
    | keep | release x | abandon x | drop x | block x =>
      rw [hcase] at heffect
      cases heffect

theorem exclusive_step_iff (hinv : s.Inv) (h : s.Exclusive) (a : PoolAction) :
    s.HandsOutFree a ∧ (tabPoolMachine.step s a).Exclusive ↔ s.HandsOutUnused a := by
  constructor
  · intro hstep id hid
    obtain ⟨reqId, hnone, hafter, hothers⟩ := tabOf_step_of_handsOut hid
    constructor
    · intro r hr
      have hne : r ≠ reqId := by
        rintro rfl
        rw [hnone] at hr
        cases hr
      exact hne (hstep.2 r reqId id ((hothers r hne).trans hr) hafter)
    · cases hleft : s.abandoned id with
      | false => rfl
      | true =>
        have hmark := hinv.abandoned id hleft
        rw [hstep.1 id hid] at hmark
        cases hmark
  · intro hunused
    constructor
    · intro id hid
      obtain ⟨hnobody, hleft⟩ := hunused id hid
      cases hmark : s.table.inFlight id with
      | false => rfl
      | true =>
        rcases hinv.marked id hmark with ⟨r, hr⟩ | habandoned
        · exact absurd hr (hnobody r)
        · rw [hleft] at habandoned
          cases habandoned
    · intro r r' id hr hr'
      cases hout : s.handsOut a with
      | none => exact h r r' id (tabOf_step_of_keep hinv hout hr) (tabOf_step_of_keep hinv hout hr')
      | some x =>
        obtain ⟨reqId, -, hafter, hothers⟩ := tabOf_step_of_handsOut hout
        -- Nobody was on the tab that is handed out, so nobody shares it now.
        have honly : ∀ q, (tabPoolMachine.step s a).tabOf q = some x → q = reqId := by
          intro q hq
          by_contra hne
          rw [hothers q hne] at hq
          exact (hunused x hout).1 q hq
        by_cases hx : id = x
        · rw [honly r (hx ▸ hr), honly r' (hx ▸ hr')]
        · have hne : ∀ q, (tabPoolMachine.step s a).tabOf q = some id → q ≠ reqId := by
            rintro q hq rfl
            rw [hafter] at hq
            exact hx (Option.some.inj hq).symm
          rw [hothers r (hne r hr)] at hr
          rw [hothers r' (hne r' hr')] at hr'
          exact h r r' id hr hr'

/-- **Mutual exclusion of tabs.**  In a run, no tab that is marked as in flight is handed
    to a request and in no state two requests are on one tab, if and only if each tab is
    handed out at a moment when no request is on it, and when no request that is over has
    left it in flight: by a submission that failed, or by a new chat that did not come. -/
theorem tabs_exclusive_iff (acts : List PoolAction) :
    tabPoolMachine.Along TabPool.HandsOutFree .new acts ∧
        tabPoolMachine.Throughout TabPool.Exclusive .new acts ↔
      tabPoolMachine.Along TabPool.HandsOutUnused .new acts := by
  apply Machine.along_and_throughout_iff (I := TabPool.Inv)
  · intro s a hinv
    exact hinv.step a
  · intro s a hinv h
    exact exclusive_step_iff hinv h a
  · exact inv_new
  · intro r r' id hr
    cases hr

/-- A request with its tab claimed, and on its way to the tab. -/
def claimFor (reqId : Nat) (id : TabId) : List PoolAction :=
  [.advance reqId 0 {}, .advance reqId 0 {}, .advance reqId 0 { claimed := some id },
    .advance reqId 0 {}, .advance reqId 0 {}]

/-- Two requests of one endpoint; the second looks for its tab while the first is on it. -/
def twoRequests : List PoolAction :=
  .sendRequest "exec" ["https://example.org/"] false false ::
    .sendRequest "exec" ["https://example.org/"] false false ::
    claimFor 1 7 ++ [.advance 2 1 {}, .advance 2 1 {}]

/-- A submission that fails, and another request of the same worker after it. -/
def afterFailedSubmit : List PoolAction :=
  .sendRequest "planner" ["https://example.org/"] true true :: .recv "planner" ::
    claimFor 1 7 ++
    [.advance 1 0 {}, .advance 1 0 { sent := .error .cancelled },
      .sendRequest "planner" ["https://example.org/"] true true, .recv "planner",
      .advance 2 1 {}, .advance 2 1 {}]

/-- A tab that is in flight is handed to a second request, which may come while the
    first is on the tab or after it. -/
theorem in_flight_tab_handed_out :
    (¬ tabPoolMachine.Along TabPool.HandsOutFree .new twoRequests ∧
        (tabPoolMachine.run .new twoRequests).tabOf 1 = some 7 ∧
        (tabPoolMachine.run .new twoRequests).tabOf 2 = some 7) ∧
      ¬ tabPoolMachine.Along TabPool.HandsOutFree .new afterFailedSubmit := by
  have htwo : (tabPoolMachine.run .new twoRequests.dropLast).handsOut (.advance 2 1 {}) = some 7 ∧
      (tabPoolMachine.run .new twoRequests.dropLast).table.inFlight 7 = true := by
    decide +kernel
  have hlater : (tabPoolMachine.run .new afterFailedSubmit.dropLast).handsOut
        (.advance 2 1 {}) = some 7 ∧
      (tabPoolMachine.run .new afterFailedSubmit.dropLast).table.inFlight 7 = true := by
    decide +kernel
  refine ⟨⟨?_, by decide +kernel, by decide +kernel⟩, ?_⟩
  · intro h
    have hlast := ((Machine.along_snoc _ _ _ twoRequests.dropLast _).mp h).2 7 htwo.1
    rw [htwo.2] at hlast
    cases hlast
  · intro h
    have hlast := ((Machine.along_snoc _ _ _ afterFailedSubmit.dropLast _).mp h).2 7 hlater.1
    rw [hlater.2] at hlast
    cases hlast

end Exclusion

end Canon.Bridge
