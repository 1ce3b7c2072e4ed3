import Canon.Runtime.Live

/-! # One observation for each tick

    The runtime remembers the tick that was observed last and drops a second observation of
    it.  `emit_event` marks the tick as observed before it hands the observation on, and so
    the append, which looks at the mark, drops the first one as well.  The mark is of one
    tick only: an observation of an older tick is written again.

    As long as an observation is emitted directly only for a tick that has one, and
    otherwise for the marked tick or for one without, the log has exactly one for each tick.
-/

namespace Canon.Runtime

open Canon.Tlog

/-! ### Observations on the trail -/

def RuntimeEvent.observedTick : RuntimeEvent → Option Nat
  | .loopObserved t _ => some t
  | _ => none

/-- The tick of an observation that was emitted and handled. -/
def Record.emittedTick : Record → Option Nat
  | .handled event _ _ => event.observedTick
  | .appended _ => none

/-- The observations of `tick` an entry put into the log. -/
def Record.puts (tick : Nat) : Record → List CanonEvent
  | .appended a =>
    if a.event.observedTick = some tick then a.wrote.filter (·.kind = .loopObserved) else []
  | .handled .. => []

def observationsOf (tick : Nat) (trail : List Record) : List CanonEvent :=
  trail.flatMap (·.puts tick)

/-- An observation of `tick` was emitted. -/
def Emitted (tick : Nat) (trail : List Record) : Prop := some tick ∈ trail.map Record.emittedTick

@[simp] theorem observationsOf_snoc (tick : Nat) (trail : List Record) (r : Record) :
    observationsOf tick (trail ++ [r]) = observationsOf tick trail ++ r.puts tick := by
  simp [observationsOf]

theorem emitted_snoc {tick : Nat} {trail : List Record} {r : Record} :
    Emitted tick (trail ++ [r]) ↔ Emitted tick trail ∨ r.emittedTick = some tick := by
  simp [Emitted, eq_comm]

/-! ### The condition -/

section Condition

variable {κ η ι : Type} (env : RuntimeEnv κ η ι)

/-- An observation that comes in has parents and is of the marked tick, or of a tick without
    an observation; and the writer is ready for one that is written. -/
def Record.Orderly (before : List Record) : Record → Prop
  | .handled event parentIds marker => ∀ tick ∈ event.observedTick,
      parentIds ≠ [] ∧ (marker = some tick ∨ observationsOf tick before = [])
  | .appended a => a.event.observedTick.isSome → ∀ w ∈ a.before.writer,
      PassesChecks env.gate w a.wire ∧ Accepts w a.wire

def Orderly (trail : List Record) : Prop :=
  Machine.Historically (Record.Orderly env) trail

/-- An observation is emitted directly only for a tick that has one. -/
def DirectlyAgain (s : Step κ η ι) (c : Call × Nat) : Prop :=
  ∀ event, c.1 = .emitEvent event → ∀ tick ∈ event.observedTick,
    observationsOf tick s.runtime.trail ≠ []

/-! ### The invariant -/

/-- No tick has two observations; the marked tick has one, and so has every tick that had an
    observation emitted. -/
structure Settled (trail : List Record) (marker : Option Nat) : Prop where
  most : ∀ tick, (observationsOf tick trail).length ≤ 1
  marked : ∀ tick, marker = some tick → observationsOf tick trail ≠ []
  emitted : ∀ tick, Emitted tick trail → observationsOf tick trail ≠ []

/-- What holds as long as calls return. -/
structure Observing (rt : EventRuntime κ η ι) : Prop where
  alive : (rt.tlog.bind (·.writer)).isSome = true
  settled : Orderly env rt.trail → Settled rt.trail rt.lastLoopObservedTick

/-- What holds in any case. -/
def OneEach (rt : EventRuntime κ η ι) : Prop :=
  Orderly env rt.trail → ∀ tick, Emitted tick rt.trail →
    (observationsOf tick rt.trail).length = 1

variable {env}
variable {marker : Option Nat} {event : RuntimeEvent} {trail : List Record}

theorem Settled.length_eq_one (h : Settled trail marker) {tick : Nat}
    (hemitted : Emitted tick trail) :
    (observationsOf tick trail).length = 1 := by
  have hpos := List.length_pos_iff.mpr (h.emitted tick hemitted)
  have hmost := h.most tick
  omega

theorem Observing.oneEach (rt : EventRuntime κ η ι) (h : Observing env rt) : OneEach env rt :=
  fun horderly _ hemitted => (h.settled horderly).length_eq_one hemitted

theorem keeps_observing {s : Step κ η ι}
    (hsettled : Orderly env s.runtime.trail →
      Settled s.runtime.trail s.runtime.lastLoopObservedTick)
    (halive : s.status.returned = true → (s.runtime.tlog.bind (·.writer)).isSome = true) :
    s.Keeps (Observing env) (OneEach env) :=
  ⟨fun horderly _ hemitted => (hsettled horderly).length_eq_one hemitted,
    fun hreturned => ⟨halive hreturned, hsettled⟩⟩

/-- Entries without observations change nothing. -/
theorem Settled.snoc_other (h : Settled trail marker) {r : Record} (hemitted : r.emittedTick = none)
    (hnone : ∀ tick, r.puts tick = []) :
    Settled (trail ++ [r]) marker where
  most tick := by
    rw [observationsOf_snoc, hnone, List.append_nil]
    exact h.most tick
  marked tick hmarker := by
    rw [observationsOf_snoc, hnone, List.append_nil]
    exact h.marked tick hmarker
  emitted tick htick := by
    rw [observationsOf_snoc, hnone, List.append_nil]
    rw [emitted_snoc, hemitted] at htick
    exact h.emitted tick (htick.resolve_right (by simp))

/-- A second observation of the marked tick is emitted and dropped. -/
theorem Settled.snoc_again {tick : Nat} (h : Settled trail (some tick)) {r : Record}
    (hemitted : r.emittedTick = some tick) (hnone : ∀ tick, r.puts tick = []) :
    Settled (trail ++ [r]) (some tick) where
  most t := by
    rw [observationsOf_snoc, hnone, List.append_nil]
    exact h.most t
  marked t hmarker := by
    rw [observationsOf_snoc, hnone, List.append_nil]
    exact h.marked t hmarker
  emitted t ht := by
    rw [observationsOf_snoc, hnone, List.append_nil]
    rw [emitted_snoc, hemitted, Option.some.injEq] at ht
    rcases ht with ht | rfl
    · exact h.emitted t ht
    · exact h.marked tick rfl

/-- The first observation of a tick is emitted and written. -/
theorem Settled.snoc_first {tick : Nat} (h : Settled trail marker) {r w : Record} {e : CanonEvent}
    (hnone : observationsOf tick trail = []) (hemitted : r.emittedTick = some tick)
    (hr : ∀ t, r.puts t = []) (hwritten : w.emittedTick = none)
    (hw : ∀ t, w.puts t = if tick = t then [e] else []) :
    Settled (trail ++ [r] ++ [w]) (some tick) := by
  have hputs : ∀ t, observationsOf t (trail ++ [r] ++ [w]) =
      if tick = t then [e] else observationsOf t trail := by
    intro t
    rw [observationsOf_snoc, observationsOf_snoc, hr, hw, List.append_nil]
    split
    · rename_i heq
      rw [← heq, hnone, List.nil_append]
    · rw [List.append_nil]
  constructor
  · intro t
    rw [hputs]
    split
    · exact le_rfl
    · exact h.most t
  · intro t ht
    rw [hputs, if_pos (Option.some.inj ht)]
    simp
  · intro t ht
    rw [hputs]
    split
    · simp
    · rename_i hne
      rw [emitted_snoc, emitted_snoc, hemitted, hwritten] at ht
      apply h.emitted t
      rcases ht with (ht | ht) | ht
      · exact ht
      · exact absurd (Option.some.inj ht) hne
      · cases ht

/-! ### Steps -/

theorem Observing.enter {rt : EventRuntime κ η ι} (h : Observing env rt) {event : RuntimeEvent}
    (hother : event.observedTick = none) (parentIds : List String) :
    Observing env (enter env rt event parentIds) where
  alive := h.alive
  settled horderly :=
    (h.settled (Machine.historically_snoc.mp horderly).1).snoc_other hother fun _ => rfl

theorem markObserved_of_other (hother : event.observedTick = none) (rt : EventRuntime κ η ι) :
    markObserved rt event = rt := by
  cases event <;> first | rfl | cases hother

/-- Any other event. -/
theorem Observing.append_other {rt : EventRuntime κ η ι} (h : Observing env rt)
    (hother : event.observedTick = none) (fresh : Fresh) (file : String) (line : Nat)
    (parentIds : List String) :
    (appendRuntimeEvent env fresh rt event file line parentIds).Keeps (Observing env)
      (OneEach env) := by
  have hend := appendRuntimeEvent_end env fresh rt event file line parentIds
  generalize appendRuntimeEvent env fresh rt event file line parentIds = s at hend ⊢
  cases hend with
  | unwritten s same lost =>
    apply keeps_observing
    · rw [same.trail, same.lastLoopObservedTick]
      exact h.settled
    · rw [same.tlog]
      exact fun _ => h.alive
  | written rt' log writer wire same first tlog writer_eq wire_eq =>
    rw [markObserved_of_other hother] at same
    apply keeps_observing
    · rw [writeWire_trail, writeWire_lastLoopObservedTick, same.trail, same.lastLoopObservedTick]
      intro horderly
      apply (h.settled (Machine.historically_snoc.mp horderly).1).snoc_other rfl
      intro tick
      exact if_neg (by simp [appendOf, hother])
    · intro hreturned
      exact writeWire_writer env ((writeWire_returned env ..).mp hreturned)

/-- An observation that comes in. -/
theorem Observing.append_observation {rt : EventRuntime κ η ι} (h : Observing env rt)
    (fresh : Fresh) (tick : Nat) (data : Json) (file : String) (line : Nat)
    (parentIds : List String) :
    (appendRuntimeEvent env fresh
      (Canon.Runtime.enter env rt (.loopObserved tick data) parentIds) (.loopObserved tick data)
      file line parentIds).Keeps (Observing env) (OneEach env) := by
  have hend := appendRuntimeEvent_end env fresh
    (Canon.Runtime.enter env rt (.loopObserved tick data) parentIds) (.loopObserved tick data) file
    line parentIds
  generalize appendRuntimeEvent env fresh
    (Canon.Runtime.enter env rt (.loopObserved tick data) parentIds) (.loopObserved tick data) file
    line parentIds = s at hend ⊢
  cases hend with
  | unwritten s same lost =>
    apply keeps_observing
    · rw [same.trail, same.lastLoopObservedTick]
      intro horderly
      obtain ⟨hbefore, hthis⟩ := Machine.historically_snoc.mp horderly
      have hsettled := h.settled hbefore
      -- It is dropped because its tick is marked, and the marked tick has its observation.
      have hmarker : rt.lastLoopObservedTick = some tick := by
        rcases lost rfl with hagain | hnone | ⟨-, hempty⟩
        · exact of_decide_eq_true hagain
        · have halive := h.alive
          rw [show rt.tlog.bind (·.writer) = none from hnone] at halive
          cases halive
        · exact absurd hempty (hthis tick rfl).1
      show Settled _ rt.lastLoopObservedTick
      rw [hmarker] at hsettled ⊢
      exact hsettled.snoc_again rfl fun _ => rfl
    · rw [same.tlog]
      exact fun _ => h.alive
  | written rt' log writer wire same first tlog writer_eq wire_eq =>
    apply keeps_observing
    · rw [writeWire_trail, writeWire_lastLoopObservedTick, same.trail, same.lastLoopObservedTick,
        markObserved_trail]
      intro horderly
      obtain ⟨hentered, hwritten⟩ := Machine.historically_snoc.mp horderly
      obtain ⟨hbefore, hthis⟩ := Machine.historically_snoc.mp hentered
      have hunmarked : rt.lastLoopObservedTick ≠ some tick := of_decide_eq_false first
      have hnone := (hthis tick rfl).2.resolve_left hunmarked
      obtain ⟨hpasses, haccepts⟩ := hwritten rfl writer writer_eq
      have hok := (writeCanonEvent_ok_iff env.gate fresh.write log.dir writer
        (linkWire rt' wire)).mpr ⟨hpasses, .inr haccepts⟩
      have hkind : wire.kind = .loopObserved :=
        (Option.some.inj (runtimeEventToWire_kind wire_eq)).symm
      have hwrote : (appendOf env fresh rt' log writer (.loopObserved tick data) wire).wrote =
          [normalizeDelta (linkWire rt' wire)] := by
        refine (writeCanonEvent_wrote_of_ok hok).trans (if_neg ?_)
        rintro ⟨hclass, -⟩
        exact hclass (by rw [show (linkWire rt' wire).kind = _ from hkind]; rfl)
      have hputs : ∀ t, (Record.appended
          (appendOf env fresh rt' log writer (.loopObserved tick data) wire)).puts t =
            if tick = t then [normalizeDelta (linkWire rt' wire)] else [] := by
        intro t
        simp only [Record.puts, hwrote]
        simp [appendOf, RuntimeEvent.observedTick, linkWire, hkind]
      exact (h.settled hbefore).snoc_first hnone rfl (fun _ => rfl) rfl hputs
    · intro hreturned
      exact writeWire_writer env ((writeWire_returned env ..).mp hreturned)

theorem observedTick_of_not_isControl (h : event.isControl = false) :
    event.observedTick = none := by
  cases event <;> first | rfl | cases h

theorem observing_kept : Kept env (Observing env) (OneEach env) := by
  refine .of_append Observing.oneEach ?_ ?_ ?_ ?_
  · intro rt rt' h same
    constructor
    · rw [same.tlog]
      exact h.alive
    · rw [same.trail, same.lastLoopObservedTick]
      exact h.settled
  · intro rt rt' h same
    rw [OneEach, same.trail]
    exact h
  · exact fun rt event parentIds h hcontrol =>
      h.enter (observedTick_of_not_isControl hcontrol) parentIds
  · intro rt event file line parentIds h
    cases event with
    | loopObserved tick data => exact h.append_observation _ tick data file line parentIds
    | _ => exact (h.enter rfl parentIds).append_other rfl _ file line parentIds

theorem Observing.openCycle {rt : EventRuntime κ η ι} (h : Observing env rt)
    {event : RuntimeEvent}
    (hagain : ∀ tick ∈ event.observedTick, observationsOf tick rt.trail ≠ []) :
    Observing env (openCycle rt event) := by
  cases event with
  | loopObserved tick data =>
    refine ⟨h.alive, ?_⟩
    intro horderly
    have hsettled := h.settled horderly
    refine ⟨hsettled.most, ?_, hsettled.emitted⟩
    intro t ht
    rw [← Option.some.inj ht]
    exact hagain tick rfl
  | _ => exact h

variable (env)

/-- **One observation for each tick.**  In every live run in which observations are emitted
    directly only for ticks that have one, and otherwise come in order, every tick with an
    observation emitted has exactly one in the log. -/
theorem one_observation_per_tick (bus : Bus κ η) (engine : ι) (dir : Dir)
    (config : SegmentConfig) (calls : List (Call × Nat))
    (hdirect : (liveMachine env).Along DirectlyAgain
      (.ok (.new bus engine (.opened env.gate dir config))) calls)
    (horderly : Orderly env ((liveMachine env).run
      (.ok (.new bus engine (.opened env.gate dir config))) calls).runtime.trail)
    (tick : Nat)
    (hemitted : Emitted tick ((liveMachine env).run
      (.ok (.new bus engine (.opened env.gate dir config))) calls).runtime.trail) :
    (observationsOf tick ((liveMachine env).run
      (.ok (.new bus engine (.opened env.gate dir config))) calls).runtime.trail).length = 1 := by
  have hnew : Observing env (.new bus engine (.opened env.gate dir config)) := by
    refine ⟨rfl, fun _ => ⟨?_, ?_, ?_⟩⟩ <;>
      simp [EventRuntime.new, observationsOf, Emitted]
  refine (observing_kept.live_of_along ?_ ?_ (.of_forall Observing.oneEach hnew) hdirect).always
    horderly tick hemitted
  · intro s event fuel h hagain
    exact h.openCycle (hagain event rfl)
  · exact fun rt h => ⟨h.alive, h.settled⟩

end Condition

/-! ### Direct and derived -/

instance {κ η ι : Type} (env : RuntimeEnv κ η ι) (before : List Record) :
    (r : Record) → Decidable (r.Orderly env before)
  | .handled event parentIds marker =>
    inferInstanceAs (Decidable (∀ tick ∈ event.observedTick,
      parentIds ≠ [] ∧ (marker = some tick ∨ observationsOf tick before = [])))
  | .appended a =>
    inferInstanceAs (Decidable (a.event.observedTick.isSome → ∀ w ∈ a.before.writer,
      PassesChecks env.gate w a.wire ∧ Accepts w a.wire))

instance {κ η ι : Type} (env : RuntimeEnv κ η ι) (trail : List Record) :
    Decidable (Orderly env trail) :=
  inferInstanceAs (Decidable (Machine.Historically (Record.Orderly env) trail))

instance (tick : Nat) (trail : List Record) : Decidable (Emitted tick trail) :=
  inferInstanceAs (Decidable (some tick ∈ trail.map Record.emittedTick))

def observation : RuntimeEvent := .loopObserved 1 (.obj [("tick", .nat 1)])

/-- A beat, and twice the observation of its tick, not emitted directly. -/
def beatAndObserve : List (Call × Nat) :=
  [(.emitTick, 5), (.emitEventLocated observation "" 0, 5),
   (.emitEventLocated observation "" 0, 5)]

theorem one_observation_derived :
    (observationsOf 1 ((liveMachine quietEnv).run (.ok quietRuntime)
      beatAndObserve).runtime.trail).length = 1 := by
  refine one_observation_per_tick quietEnv _ _ _ _ beatAndObserve ?_ (by decide +kernel) 1
    (by decide +kernel)
  refine ⟨?_, ?_, ?_, trivial⟩
  · rintro _ ⟨⟩
  · rintro _ ⟨⟩
  · rintro _ ⟨⟩

/-- A beat, and the observation of its tick emitted directly: it is handled and not
    written. -/
theorem direct_observation_lost :
    ((liveMachine quietEnv).run (.ok quietRuntime)
      [(.emitTick, 5), (.emitEvent observation, 5)]).status = .ok ∧
    ¬ ∀ tick, Emitted tick ((liveMachine quietEnv).run (.ok quietRuntime)
        [(.emitTick, 5), (.emitEvent observation, 5)]).runtime.trail →
      (observationsOf tick ((liveMachine quietEnv).run (.ok quietRuntime)
        [(.emitTick, 5), (.emitEvent observation, 5)]).runtime.trail).length = 1 := by
  refine ⟨by decide +kernel, ?_⟩
  intro h
  have hone := h 1 (by decide +kernel)
  revert hone
  decide +kernel

end Canon.Runtime
