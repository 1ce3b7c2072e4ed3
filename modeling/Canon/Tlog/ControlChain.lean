import Mathlib.Data.List.Chain
import Canon.Tlog.Gate

/-! # The control chain of the log

    Two laws about the control events of a log, effect events left out: each one
    is allowed by the transition table after the one before it, and each one meets
    the obligation the one before it left.

    The writer keeps one last-event slot for both classes of events.  An effect
    event, also a report the writer makes itself, takes the place of the control
    event in it, and the transition check lets everything pass after an effect
    event.  The obligation is a slot of its own; it survives effect events, but a
    refused control event clears it.
-/

namespace Canon.Tlog

/-! ### Control events of a log -/

variable {req : PendingTransition} (log : List CanonEvent)

def controls : List CanonEvent := log.filter CanonEvent.isControl

def lastControl : Option CanonEvent := (controls log).getLast?

/-- Neighbouring control events are related by `R`. -/
def ControlChain (R : CanonEvent → CanonEvent → Prop) (log : List CanonEvent) : Prop :=
  (controls log).IsChain R

/-- The transition table allows `b` after `a`. -/
def Legal (a b : CanonEvent) : Prop := b.kind ∈ a.kind.allowedNext

instance : DecidableRel Legal := fun a b =>
  inferInstanceAs (Decidable (b.kind ∈ a.kind.allowedNext))

instance {R : CanonEvent → CanonEvent → Prop} [DecidableRel R] (log : List CanonEvent) :
    Decidable (ControlChain R log) :=
  inferInstanceAs (Decidable ((controls log).IsChain R))

theorem controls_append (log more : List CanonEvent) :
    controls (log ++ more) = controls log ++ controls more := List.filter_append ..

theorem controls_append_control {e : CanonEvent} (h : e.isControl = true) :
    controls (log ++ [e]) = controls log ++ [e] := by
  simp [controls, h]

@[simp] theorem lastControl_append_control {e : CanonEvent} (h : e.isControl = true) :
    lastControl (log ++ [e]) = some e := by
  simp [lastControl, controls_append_control log h]

theorem ControlChain.append_control {R : CanonEvent → CanonEvent → Prop}
    {log : List CanonEvent} {e : CanonEvent} (h : ControlChain R log) (he : e.isControl = true)
    (hrel : ∀ a, lastControl log = some a → R a e) : ControlChain R (log ++ [e]) := by
  rw [ControlChain, controls_append_control log he]
  apply List.IsChain.append h (List.isChain_singleton e)
  intro a ha b hb
  rw [List.head?_cons, Option.mem_some_iff] at hb
  rw [← hb]
  exact hrel a ha

/-! ### One step -/

/-- A control event was persisted. -/
structure ControlStep (env : Env) (s s' : LogState) (w : Writer) (event : CanonEvent) : Prop where
  control : event.isControl = true
  passes : PassesChecks env w event
  log : s'.log = s.log ++ [normalizeDelta event]
  writer : ∃ w', s'.writer = some w' ∧ w'.lastEvent = some (normalizeDelta event) ∧
    w'.pending = pendingAfter w.pending event

/-- No control event was persisted; the log is longer by effect events, if at all. -/
structure EffectStep (s s' : LogState) (w : Writer) (event : CanonEvent) (outcome : Outcome) :
    Prop where
  controls : controls s'.log = controls s.log
  slot : ∀ w', s'.writer = some w' →
    w'.lastEvent = s'.log.getLast? ∨ w'.lastEvent = w.lastEvent ∧ s'.log = s.log
  pending : ∀ w', s'.writer = some w' →
    w'.pending = w.pending ∨
      w'.pending = none ∧ event.isControl = true ∧ ∃ message, outcome = .err message

theorem gate_step_cases (env : Env) {s : LogState} {w : Writer} (hw : s.writer = some w)
    (call : CanonEvent × Surroundings) :
    ControlStep env s ((gateMachine env).step s call) w call.1 ∨
      EffectStep s ((gateMachine env).step s call) w call.1
        (writeCanonEvent env call.2 s.dir w call.1).outcome := by
  have hend := writeCanonEvent_end env call.2 s.dir w call.1
  have hlog : ((gateMachine env).step s call).log =
      s.log ++ (writeCanonEvent env call.2 s.dir w call.1).wrote := by
    rw [gateMachine_write _ env hw]
  have hwriter : ((gateMachine env).step s call).writer =
      if (writeCanonEvent env call.2 s.dir w call.1).outcome = .stuck then none
      else some (writeCanonEvent env call.2 s.dir w call.1).writer := by
    rw [gateMachine_write _ env hw]
  generalize writeCanonEvent env call.2 s.dir w call.1 = r at hend hlog hwriter
  generalize (gateMachine env).step s call = s' at hlog hwriter
  -- A writer that is still there belongs to a call that came back.
  have hlive : ∀ {w'}, s'.writer = some w' → r.outcome ≠ .stuck ∧ r.writer = w' := by
    intro w' h'
    rw [hwriter] at h'
    split at h'
    · cases h'
    · exact ⟨‹_›, Option.some.inj h'⟩
  have herr : r.outcome ≠ .stuck → r.outcome ≠ .ok → ∃ message, r.outcome = .err message := by
    cases r.outcome <;> simp
  have hkeep : PendingAfterRefusal w call.1 r → ∀ w', s'.writer = some w' →
      w'.pending = w.pending ∨
        w'.pending = none ∧ call.1.isControl = true ∧ ∃ message, r.outcome = .err message := by
    intro hpend w' h'
    obtain ⟨hne, rfl⟩ := hlive h'
    exact hpend.imp_right fun ⟨hnone, hctl, hnok⟩ => ⟨hnone, hctl, herr hne hnok⟩
  cases hend with
  | nothing hu _ hpend =>
    rw [hu.wrote, List.append_nil] at hlog
    refine .inr ⟨by rw [hlog], ?_, ?_⟩
    · intro w' h'
      obtain ⟨-, rfl⟩ := hlive h'
      exact .inr ⟨hu.lastEvent, hlog⟩
    · exact hkeep hpend
  | reported v hkind ha hlast hpend _ =>
    rw [ha.wrote] at hlog
    -- A report is an event of kind `code`, which is an effect.
    have heff : (normalizeDelta v).isControl = false := by
      simp [CanonEvent.isControl, hkind, EventKind.eventClass]
    refine .inr ⟨by rw [hlog, controls_append]; simp [Tlog.controls, heff], ?_, ?_⟩
    · intro w' h'
      obtain ⟨hne, rfl⟩ := hlive h'
      exact .inl (by rw [hlast hne, hlog, List.getLast?_concat])
    · exact hkeep hpend
  | persisted ha hpasses hlast hpend hok =>
    rw [ha.wrote] at hlog
    rw [hok, if_neg (by simp)] at hwriter
    cases hctl : call.1.isControl with
    | true => exact .inl ⟨hctl, hpasses, hlog, r.writer, hwriter, hlast, hpend⟩
    | false =>
      have hclass : call.1.kind.eventClass ≠ .control := by
        simpa [CanonEvent.isControl] using hctl
      -- An effect leaves the obligation as it is.
      have hkind : call.1.kind ≠ .loopObserved := by
        intro hk
        exact hclass (by rw [hk]; rfl)
      refine .inr ⟨by rw [hlog, controls_append]; simp [Tlog.controls, hctl], ?_, ?_⟩
      · intro w' h'
        obtain ⟨-, rfl⟩ := hlive h'
        exact .inl (by rw [hlast, hlog, List.getLast?_concat])
      · intro w' h'
        obtain ⟨-, rfl⟩ := hlive h'
        exact .inl (by rw [hpend, pendingAfter, if_neg hkind, if_neg hclass])

/-! ### Obligations -/

/-- `event` is what `req` asks for, or stands in for it after a route tick. -/
def Discharges (req : PendingTransition) (event : CanonEvent) : Prop :=
  event.kind = req.expected ∨
    req.sourceKind = .routeTick ∧ (event.kind = .loopObserved ∨ event.kind = .routeSelected)

instance (req : PendingTransition) (event : CanonEvent) : Decidable (Discharges req event) :=
  inferInstanceAs (Decidable (_ ∨ _))

theorem discharges_of_not_violated {event : CanonEvent} (hctl : event.isControl = true)
    (h : ∀ r, checkPending (some req) event ≠ .violated r) :
    Discharges req event := by
  have hclass : event.kind.eventClass = .control := by simpa [CanonEvent.isControl] using hctl
  by_contra hnot
  simp only [Discharges, not_or, not_and] at hnot
  apply h req
  simp only [checkPending, hclass, reduceCtorEq, if_false]
  rw [if_pos hnot.1, if_neg, if_neg]
  · simpa using fun hsrc => (hnot.2 hsrc).2
  · simpa using fun hsrc => (hnot.2 hsrc).1

@[simp] theorem discharges_normalizeDelta {event : CanonEvent} :
    Discharges req (normalizeDelta event) ↔ Discharges req event := by
  simp [Discharges]

/-- What discharges the obligation of `a` may follow `a`. -/
theorem Discharges.legal {a b : CanonEvent} (h : Discharges req b)
    (ha : requiredSuccessor a = some req) : Legal a b := by
  rcases h with hexp | ⟨hsrc, hkind⟩
  · rw [Legal, hexp]
    exact requiredSuccessor_mem_allowedNext ha
  · rw [(requiredSuccessor_source ha).2] at hsrc
    rw [Legal, hsrc]
    rcases hkind with hkind | hkind <;> rw [hkind] <;> decide

/-! ### Legality -/

/-- A control event is only submitted while the last control event can still be
    told: an obligation is open, or no control event has been persisted, or
    nothing has been persisted after it. -/
def Unshadowed (s : LogState) (call : CanonEvent × Surroundings) : Prop :=
  call.1.isControl = true →
    s.writer.map (·.pending) ≠ some none ∨ (controls s.log).isEmpty = true ∨
      s.log.getLast?.map CanonEvent.isControl = some true

instance (s : LogState) (call : CanonEvent × Surroundings) : Decidable (Unshadowed s call) :=
  inferInstanceAs (Decidable (_ → _))

structure ChainInv (s : LogState) : Prop where
  chain : ControlChain Legal s.log
  slot : ∀ w, s.writer = some w → s.log = [] ∨ w.lastEvent = s.log.getLast?
  obligation : ∀ w req a, s.writer = some w → w.pending = some req →
    lastControl s.log = some a → requiredSuccessor a = some req

theorem ChainInv.initial (env : Env) (dir : Dir) (config : SegmentConfig) :
    ChainInv (.opened env dir config) where
  chain := List.isChain_nil
  slot := fun _ _ => .inl rfl
  obligation := by
    intro w req a _ _ ha
    cases ha

/-- The last event of a log is its last control event, if it is one at all. -/
theorem lastControl_of_getLast? {log : List CanonEvent} {a : CanonEvent}
    (h : log.getLast? = some a) (hctl : a.isControl = true) : lastControl log = some a := by
  obtain ⟨front, rfl⟩ := List.getLast?_eq_some_iff.mp h
  exact lastControl_append_control front hctl

/-- Under the guard, a control event that passes the gate is allowed after the last
    one of the log. -/
theorem ChainInv.legal {s : LogState} (h : ChainInv s) {w : Writer} (hw : s.writer = some w)
    {call : CanonEvent × Surroundings} (hguard : Unshadowed s call)
    (hctl : call.1.isControl = true) (hlegal : transitionError w call.1 = none)
    (hallowed : ∀ req, checkPending w.pending call.1 ≠ .violated req) {a : CanonEvent}
    (ha : lastControl s.log = some a) : Legal a (normalizeDelta call.1) := by
  rcases hguard hctl with hopen | hnone | hdirect
  -- The obligation is the one of `a`, and the event discharges it.
  · cases hp : w.pending with
    | none => simp [hw, hp] at hopen
    | some req =>
      rw [hp] at hallowed
      have hdis := discharges_of_not_violated hctl hallowed
      exact (discharges_normalizeDelta.mpr hdis).legal (h.obligation w req a hw hp ha)
  -- No control event so far, so there is no `a`.
  · simp [lastControl, List.isEmpty_iff.mp hnone] at ha
  -- The slot still holds `a`, so the transition check has seen it.
  · obtain ⟨e, he, hectl⟩ := Option.map_eq_some_iff.mp hdirect
    have hea : e = a := by
      rw [lastControl_of_getLast? he hectl] at ha
      exact Option.some.inj ha
    subst hea
    have hslot : w.lastEvent = some e := by
      rcases h.slot w hw with hnil | hslot
      · simp [hnil] at he
      · rw [hslot, he]
    have hok : validateTransition e call.1 = .ok () := by
      simp only [transitionError, hslot] at hlegal
      split at hlegal
      · assumption
      · cases hlegal
    have hmem := validateTransition_ok_iff.mp hok hectl hctl
    simpa [Legal] using hmem

theorem ChainInv.step {env : Env} {s : LogState} (h : ChainInv s)
    {call : CanonEvent × Surroundings} (hguard : Unshadowed s call) :
    ChainInv ((gateMachine env).step s call) := by
  cases hw : s.writer with
  | none =>
    rw [gateMachine_idle _ hw]
    exact h
  | some w =>
    rcases gate_step_cases env hw call with hstep | hstep
    · obtain ⟨hctl, hpasses, hlog, w', hw', hlast', hpend'⟩ := hstep
      have hctl' : (normalizeDelta call.1).isControl = true := by simpa using hctl
      refine ⟨?_, ?_, ?_⟩
      · rw [hlog]
        exact h.chain.append_control hctl' fun a ha =>
          h.legal hw hguard hctl hpasses.transition hpasses.pending ha
      · intro w'' hw''
        obtain rfl : w' = w'' := Option.some.inj (hw'.symm.trans hw'')
        rw [hlog, hlast', List.getLast?_concat]
        exact .inr rfl
      -- The new obligation is the one of the event just persisted.
      · intro w'' req a hw'' hreq ha
        obtain rfl : w' = w'' := Option.some.inj (hw'.symm.trans hw'')
        rw [hlog, lastControl_append_control _ hctl'] at ha
        obtain rfl := Option.some.inj ha
        rw [normalizeDelta_requiredSuccessor]
        rw [hpend', pendingAfter] at hreq
        split at hreq
        · cases hreq
        · rwa [if_pos (by simpa [CanonEvent.isControl] using hctl)] at hreq
    · have hlast : lastControl ((gateMachine env).step s call).log = lastControl s.log := by
        rw [lastControl, hstep.controls, lastControl]
      refine ⟨?_, ?_, ?_⟩
      · rw [ControlChain, hstep.controls]
        exact h.chain
      · intro w' hw'
        rcases hstep.slot w' hw' with hslot | ⟨hsame, hlog⟩
        · exact .inr hslot
        · rw [hsame, hlog]
          exact h.slot w hw
      · intro w' req a hw' hreq ha
        rw [hlast] at ha
        -- The last control event has not changed; its obligation is still there or gone.
        rcases hstep.pending w' hw' with hsame | ⟨hnone, -, -⟩
        · exact h.obligation w req a hw (hsame.symm.trans hreq) ha
        · rw [hnone] at hreq
          cases hreq

/-- **Legality of the control chain.**  In every run in which control events are
    only submitted while the last control event can still be told, neighbouring
    control events of the log are allowed by the transition table. -/
theorem control_chain_legal (env : Env) (dir : Dir) (config : SegmentConfig)
    (calls : List (CanonEvent × Surroundings))
    (hguard : (gateMachine env).Along Unshadowed (.opened env dir config) calls)
    (before : List (CanonEvent × Surroundings)) (hbefore : before <+: calls) :
    ControlChain Legal ((gateMachine env).run (.opened env dir config) before).log := by
  obtain ⟨after, rfl⟩ := hbefore
  have hinv := (gateMachine env).run_invariant_of_along (G := Unshadowed) (I := ChainInv)
    (fun _ _ h hg => h.step hg) (ChainInv.initial env dir config)
    ((Machine.along_append _ _ _ _ _).mp hguard).1
  exact hinv.chain

/-! ### Sample runs -/

def chainTable : List (CanonEvent × String) :=
  [(sampleEvent "tick-1" .tick 1 (.obj []), sampleText "tick-1" "tick" 1 "\x7b\x7d"),
   (sampleEvent "route-1" .routeSelected 1 (.obj [("approved_route", .str "observe")]),
    sampleText "route-1" "route_selected" 1 "\x7b\"approved_route\":\"observe\"\x7d"),
   (sampleEvent "debug-1" .debug 3 (.obj []), sampleText "debug-1" "debug" 3 "\x7b\x7d"),
   (sampleEvent "obs-1" .loopObserved 3 (.obj []),
    sampleText "obs-1" "loop_observed" 3 "\x7b\x7d"),
   (sampleEvent "act-1" .loopActed 4 (.obj []), sampleText "act-1" "loop_acted" 4 "\x7b\x7d"),
   (sampleEvent "act-2" .loopActed 6 (.obj []), sampleText "act-2" "loop_acted" 6 "\x7b\x7d")]

def chainEnv : Env where
  serde := .ofTable chainTable
  contentHash kind _ _ := kind.asStr.length

/-- Calls right after the time of their event. -/
def callsOf (events : List CanonEvent) : List (CanonEvent × Surroundings) :=
  events.map fun e =>
    (e, { parentId := "p-" ++ e.id, violationId := "v-" ++ e.id, now := e.ts + 1 })

def freshChain : LogState := .opened chainEnv Dir.empty .default

/-- The obligation of a route selection is still open after a debug event. -/
theorem control_chain_legal_observe :
    ControlChain Legal ((gateMachine chainEnv).run freshChain (callsOf
      [sampleEvent "route-1" .routeSelected 1 (.obj [("approved_route", .str "observe")]),
       sampleEvent "debug-1" .debug 3 (.obj []),
         sampleEvent "obs-1" .loopObserved 3 (.obj [])])).log :=
  control_chain_legal chainEnv Dir.empty .default _ (by decide +kernel) _ List.prefix_rfl

/-- A tick must be followed by a route tick, but after a debug event an act passes. -/
theorem control_chain_broken :
    ¬ ControlChain Legal ((gateMachine chainEnv).run freshChain (callsOf
      [sampleEvent "tick-1" .tick 1 (.obj []), sampleEvent "debug-1" .debug 3 (.obj []),
       sampleEvent "act-1" .loopActed 4 (.obj [])])).log := by
  decide +kernel

end Canon.Tlog
