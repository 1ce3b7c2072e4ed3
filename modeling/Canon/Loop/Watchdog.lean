import Canon.Lib.Machine
import Canon.Lib.Maps
import Canon.Loop.Events
import Mathlib.Tactic.Ring

/-! # The watchdog over the loop's stages

    Each stage has a threshold; when it has not fired for a multiple of it, a tick reports a
    stall.  Over a run whose ticks are numbered 1, 2, 3, and so on, the reports about a
    stage are determined by how many ticks passed between its firings: `reports_eq`.
-/

namespace Canon.Loop.Watchdog

variable (w : WatchdogConsumer) (stage : Stage)

inductive Stage where
  | observed
  | planned
  | acted
  | verified
  | rewarded
deriving DecidableEq, Repr

def Stage.name : Stage → String
  | observed => "observed"
  | planned => "planned"
  | acted => "acted"
  | verified => "verified"
  | rewarded => "rewarded"

def stageThresholds : List (Stage × Nat) :=
  [(.observed, 10), (.planned, 15), (.acted, 15), (.verified, 20), (.rewarded, 25)]

structure WatchdogConsumer where
  currentTick : Nat
  lastStageTick : FMap Stage Nat

def new : WatchdogConsumer where
  currentTick := 0
  lastStageTick := FMap.empty.insertAll (stageThresholds.map fun st => (st.1, 0))

inductive EventOutcome where
  | noOp (reason : String)
  | emitMany (events : List RuntimeEvent)

/-- The report that a stage has not fired. -/
def stall (idle : Nat) : RuntimeEvent :=
  .errorOccurred
    { kind := "watchdog_stall".toList
      source := "watchdog".toList
      message := "Stage '".toList ++ stage.name.toList ++ "' has not fired in ".toList ++
        Text.ofNat idle ++ " ticks".toList
      severity := "warning".toList
      context := .obj [("idle_ticks", .num (.posInt idle)), ("stage", .str stage.name)] }

/-- The stalls a tick finds. -/
def stalled : List RuntimeEvent :=
  stageThresholds.filterMap fun st =>
    let last := (w.lastStageTick st.1).getD 0
    let idle := w.currentTick - last
    if 0 < idle ∧ idle % st.2 = 0 then some (stall st.1 idle) else none

def resetStage : WatchdogConsumer × EventOutcome :=
  ({ w with lastStageTick := w.lastStageTick.insert stage w.currentTick },
    .noOp "watchdog_stage_reset")

def onEvent (event : RuntimeEvent) : WatchdogConsumer × EventOutcome :=
  match event with
  | .plain .capabilityRequested => (w, .noOp "watchdog_capability_requested")
  | .tick tick =>
    let w := { w with currentTick := tick }
    if (stalled w).isEmpty then (w, .noOp "watchdog_all_stages_healthy")
    else (w, .emitMany (stalled w))
  | .loopObserved _ => resetStage w .observed
  | .planningCompleted _ => resetStage w .planned
  | .loopActed _ => resetStage w .acted
  | .loopVerified _ => resetStage w .verified
  | .loopRewarded _ => resetStage w .rewarded
  | .code _ | .debug _ | .edit | .errorOccurred _ | .goodnessSnapshot .. | .routeTick _
  | .routeSelected _ | .cargo | .file _ | .bash _ | .llm _ => (w, .noOp "non_actionable_event")
  | _ => (w, .noOp "watchdog_not_a_stage_event")

/-! ### Runs -/

def EventOutcome.emitted : EventOutcome → List RuntimeEvent
  | noOp _ => []
  | emitMany events => events

/-- The consumer with everything it emitted. -/
def machine : Machine (WatchdogConsumer × List RuntimeEvent) RuntimeEvent where
  step s event := ((onEvent s.1 event).1, s.2 ++ (onEvent s.1 event).2.emitted)

/-- The stage an event shows to be alive. -/
def stageOf : RuntimeEvent → Option Stage
  | .loopObserved _ => some .observed
  | .planningCompleted _ => some .planned
  | .loopActed _ => some .acted
  | .loopVerified _ => some .verified
  | .loopRewarded _ => some .rewarded
  | _ => none

/-- The number of a tick. -/
def tickOf : RuntimeEvent → Option Nat
  | .tick tick => some tick
  | _ => none

/-- Is the event a report about the stage? -/
def isReport : RuntimeEvent → Bool
  | .errorOccurred err => (err.context.get "stage").bind Json.asStr = some stage.name
  | _ => false

variable {event : RuntimeEvent} (events : List RuntimeEvent)

/-- The ticks are numbered from one, as the runtime emits them. -/
def Numbered : Prop :=
  events.filterMap tickOf = List.range' 1 (events.filterMap tickOf).length

/-- The ticks between one firing of a stage and the next: those of the silences that are
    over, and of the one that is not. -/
def silences : List Nat × Nat :=
  events.foldl
    (fun s event =>
      if stageOf event = some stage then (s.1 ++ [s.2], 0)
      else if (tickOf event).isSome then (s.1, s.2 + 1)
      else s)
    ([], 0)

/-- What a silence of `n` ticks has reported: once at each multiple of the threshold. -/
def reportsOf (threshold n : Nat) : List RuntimeEvent :=
  (List.range (n / threshold)).map fun i => stall stage ((i + 1) * threshold)

theorem isReport_stall (stage stage' : Stage) (idle : Nat) :
    isReport stage (stall stage' idle) = decide (stage' = stage) := by
  cases stage <;> cases stage' <;> rfl

/-- The reports of one tick about one stage. -/
theorem filter_stalled {stage : Stage} {threshold : Nat} (h : (stage, threshold) ∈ stageThresholds)
    :
    (stalled w).filter (isReport stage) =
      if 0 < w.currentTick - (w.lastStageTick stage).getD 0 ∧
          (w.currentTick - (w.lastStageTick stage).getD 0) % threshold = 0 then
        [stall stage (w.currentTick - (w.lastStageTick stage).getD 0)]
      else [] := by
  have hfilter : ∀ st : Stage × Nat, ∀ idle,
      (if 0 < idle ∧ idle % st.2 = 0 then some (stall st.1 idle) else none).filter
          (isReport stage) =
        if st.1 = stage ∧ 0 < idle ∧ idle % st.2 = 0 then some (stall st.1 idle) else none := by
    intro st idle
    by_cases hidle : 0 < idle ∧ idle % st.2 = 0
    · rw [if_pos hidle, Option.filter_some, isReport_stall]
      by_cases hstage : st.1 = stage <;> simp [hstage, hidle]
    · simp [hidle]
  rw [stalled, List.filter_filterMap]
  simp only [hfilter]
  simp only [stageThresholds, List.mem_cons, List.not_mem_nil, or_false, Prod.mk.injEq] at h
  rcases h with ⟨rfl, rfl⟩ | ⟨rfl, rfl⟩ | ⟨rfl, rfl⟩ | ⟨rfl, rfl⟩ | ⟨rfl, rfl⟩ <;>
    simp only [stageThresholds, List.filterMap_cons, List.filterMap_nil] <;> simp <;>
    split <;> simp_all

/-- Only ticks emit. -/
theorem emitted_of_not_tick (h : tickOf event = none) :
    (onEvent w event).2.emitted = [] := by
  cases event with
  | tick tick => cases h
  | plain kind => cases kind <;> rfl
  | _ => rfl

theorem emitted_tick (tick : Nat) :
    (onEvent w (.tick tick)).2.emitted = stalled { w with currentTick := tick } := by
  simp only [onEvent]
  split
  · rename_i hempty
    rw [List.isEmpty_iff.mp hempty]
    rfl
  · rfl

theorem state_of_not_tick (h : tickOf event = none) :
    (onEvent w event).1 =
      match stageOf event with
      | some stage => { w with lastStageTick := w.lastStageTick.insert stage w.currentTick }
      | none => w := by
  cases event with
  | tick tick => cases h
  | plain kind => cases kind <;> rfl
  | _ => rfl

theorem state_tick (tick : Nat) :
    (onEvent w (.tick tick)).1 = { w with currentTick := tick } := by
  simp only [onEvent]
  split <;> rfl

theorem reportsOf_succ (threshold n : Nat) :
    reportsOf stage threshold (n + 1) =
      reportsOf stage threshold n ++
        if (n + 1) % threshold = 0 then [stall stage (n + 1)] else [] := by
  rw [reportsOf, Nat.succ_div]
  by_cases hdvd : threshold ∣ n + 1
  · have hmul : (n / threshold + 1) * threshold = n + 1 := by
      have hdiv : (n + 1) / threshold = n / threshold + 1 := by
        rw [Nat.succ_div, if_pos hdvd]
      rw [← hdiv]
      exact Nat.div_mul_cancel hdvd
    rw [if_pos hdvd, if_pos (Nat.mod_eq_zero_of_dvd hdvd), List.range_succ, List.map_append,
      List.map_cons, List.map_nil, hmul]
    rfl
  · rw [if_neg hdvd, if_neg fun h => hdvd (Nat.dvd_of_mod_eq_zero h), Nat.add_zero,
      List.append_nil]
    rfl

theorem silences_snoc (event : RuntimeEvent) :
    silences stage (events ++ [event]) =
      if stageOf event = some stage then
        ((silences stage events).1 ++ [(silences stage events).2], 0)
      else if (tickOf event).isSome then
        ((silences stage events).1, (silences stage events).2 + 1)
      else silences stage events := by
  rw [silences, List.foldl_append]
  rfl

/-- The ticks of a prefix are numbered too, and a tick after it has the next number. -/
theorem numbered_snoc {events : List RuntimeEvent} (h : Numbered (events ++ [event])) :
    Numbered events ∧
      ∀ tick, tickOf event = some tick → tick = (events.filterMap tickOf).length + 1 := by
  rw [Numbered, List.filterMap_append] at h
  cases htick : tickOf event with
  | none =>
    have hnil : [event].filterMap tickOf = [] := by simp [htick]
    rw [hnil, List.append_nil] at h
    exact ⟨h, by simp⟩
  | some tick =>
    have hone : [event].filterMap tickOf = [tick] := by simp [htick]
    rw [hone, List.length_append, List.length_singleton, List.range'_concat] at h
    obtain ⟨hbefore, hlast⟩ := List.append_singleton_inj.mp h
    refine ⟨hbefore, ?_⟩
    intro tick' htick'
    rw [← Option.some.inj htick', hlast]
    omega

/-- What the consumer knows of a stage and what it has reported about it. -/
structure Watching (stage : Stage) (threshold : Nat) (events : List RuntimeEvent)
    (s : WatchdogConsumer × List RuntimeEvent) : Prop where
  tick : s.1.currentTick = (events.filterMap tickOf).length
  last : ∃ last, s.1.lastStageTick stage = some last ∧
    last + (silences stage events).2 = s.1.currentTick
  reports : s.2.filter (isReport stage) =
    ((silences stage events).1 ++ [(silences stage events).2]).flatMap (reportsOf stage threshold)

theorem watching_new {stage : Stage} {threshold : Nat}
    (h : (stage, threshold) ∈ stageThresholds) : Watching stage threshold [] (new, []) where
  tick := rfl
  last := by
    refine ⟨0, ?_, rfl⟩
    cases stage <;> rfl
  reports := by
    show [] = [0].flatMap (reportsOf stage threshold)
    simp [reportsOf]

section Steps

variable {stage : Stage} {threshold : Nat} {events : List RuntimeEvent}
variable {s : WatchdogConsumer × List RuntimeEvent}

theorem watching_tick (h : Watching stage threshold events s)
    (hthreshold : (stage, threshold) ∈ stageThresholds) {tick : Nat}
    (htick : tick = (events.filterMap tickOf).length + 1) :
    Watching stage threshold (events ++ [.tick tick]) (machine.step s (.tick tick)) := by
  obtain ⟨last, hlast, hsum⟩ := h.last
  have hsilences : silences stage (events ++ [.tick tick]) =
      ((silences stage events).1, (silences stage events).2 + 1) := by
    rw [silences_snoc]
    rfl
  have hidle : tick - last = (silences stage events).2 + 1 := by
    rw [htick, ← h.tick]
    omega
  constructor
  · show (onEvent s.1 (.tick tick)).1.currentTick = _
    rw [state_tick, List.filterMap_append, List.length_append]
    exact htick
  · refine ⟨last, ?_, ?_⟩
    · show (onEvent s.1 (.tick tick)).1.lastStageTick stage = _
      rw [state_tick]
      exact hlast
    · show last + _ = (onEvent s.1 (.tick tick)).1.currentTick
      rw [hsilences, state_tick]
      show last + ((silences stage events).2 + 1) = tick
      omega
  · show (s.2 ++ (onEvent s.1 (.tick tick)).2.emitted).filter (isReport stage) = _
    rw [hsilences, List.filter_append, h.reports, emitted_tick, filter_stalled _ hthreshold]
    show _ ++ (if 0 < tick - (s.1.lastStageTick stage).getD 0 ∧ _ then _ else _) = _
    rw [hlast, Option.getD_some, List.flatMap_append, List.flatMap_append,
      List.flatMap_singleton, List.flatMap_singleton, reportsOf_succ, List.append_assoc,
      hidle]
    congr 2
    simp

theorem watching_other (h : Watching stage threshold events s) {event : RuntimeEvent}
    (hevent : tickOf event = none) :
    Watching stage threshold (events ++ [event]) (machine.step s event) := by
  obtain ⟨last, hlast, hsum⟩ := h.last
  have hstate := state_of_not_tick s.1 hevent
  have hticks : (events ++ [event]).filterMap tickOf = events.filterMap tickOf := by
    rw [List.filterMap_append]
    simp [hevent]
  have htick : (machine.step s event).1.currentTick = s.1.currentTick := by
    show (onEvent s.1 event).1.currentTick = _
    rw [hstate]
    split <;> rfl
  have hlog : (machine.step s event).2 = s.2 := by
    show s.2 ++ (onEvent s.1 event).2.emitted = s.2
    rw [emitted_of_not_tick s.1 hevent, List.append_nil]
  by_cases hstage : stageOf event = some stage
  -- The silence ends, and a new one begins.
  · have hsilences := silences_snoc stage events event
    rw [if_pos hstage] at hsilences
    constructor
    · rw [htick, hticks]
      exact h.tick
    · refine ⟨s.1.currentTick, ?_, ?_⟩
      · show (onEvent s.1 event).1.lastStageTick stage = _
        rw [hstate, hstage]
        exact FMap.insert_self _ _ _
      · rw [hsilences, htick]
        rfl
    · rw [hlog, hsilences, h.reports]
      simp [reportsOf]
  · have hsilences := silences_snoc stage events event
    rw [if_neg hstage, hevent, if_neg (by simp)] at hsilences
    constructor
    · rw [htick, hticks]
      exact h.tick
    · refine ⟨last, ?_, ?_⟩
      · show (onEvent s.1 event).1.lastStageTick stage = _
        rw [hstate, ← hlast]
        split
        · rename_i stage' hstage'
          have hne : stage ≠ stage' := by
            intro heq
            exact hstage (heq ▸ hstage')
          exact FMap.insert_of_ne _ _ hne
        · rfl
      · rw [hsilences, htick]
        exact hsum
    · rw [hlog, hsilences]
      exact h.reports

end Steps

theorem isReport_of_mem_stalled {w : WatchdogConsumer} {event : RuntimeEvent}
    (h : event ∈ stalled w) : ∃ stage, isReport stage event = true := by
  rw [stalled, List.mem_filterMap] at h
  obtain ⟨st, -, hreport⟩ := h
  refine ⟨st.1, ?_⟩
  by_cases hidle : 0 < w.currentTick - (w.lastStageTick st.1).getD 0 ∧
      (w.currentTick - (w.lastStageTick st.1).getD 0) % st.2 = 0
  · rw [if_pos hidle] at hreport
    rw [← Option.some.inj hreport, isReport_stall]
    exact decide_eq_true rfl
  · rw [if_neg hidle] at hreport
    cases hreport

/-- Nothing but reports is emitted. -/
theorem reports_only (events : List RuntimeEvent) :
    ∀ event ∈ (machine.run (new, []) events).2, ∃ stage, isReport stage event = true := by
  refine machine.run_invariant
    (I := fun s => ∀ event ∈ s.2, ∃ stage, isReport stage event = true) ?_ events (by simp)
  intro s event hs event' hmem
  rcases List.mem_append.mp hmem with hmem | hmem
  · exact hs event' hmem
  · cases htick : tickOf event with
    | none =>
      rw [emitted_of_not_tick s.1 htick] at hmem
      cases hmem
    | some tick =>
      cases event with
      | tick tick' =>
        rw [emitted_tick] at hmem
        exact isReport_of_mem_stalled hmem
      | _ => cases htick

theorem watching_run {stage : Stage} {threshold : Nat} {events : List RuntimeEvent}
    (hthreshold : (stage, threshold) ∈ stageThresholds) (hnumbered : Numbered events) :
    Watching stage threshold events (machine.run (new, []) events) := by
  induction events using List.reverseRecOn with
  | nil => exact watching_new hthreshold
  | append_singleton events event ih =>
    obtain ⟨hbefore, hnext⟩ := numbered_snoc hnumbered
    rw [Machine.run_snoc]
    cases htick : tickOf event with
    | none => exact watching_other (ih hbefore) htick
    | some tick =>
      cases event with
      | tick tick' => exact watching_tick (ih hbefore) hthreshold (hnext _ rfl)
      | _ => cases htick

/-- Over every run whose ticks are numbered one after the other, a stage is reported at each
    multiple of its threshold in every silence, and at no other time; and nothing else is
    emitted. -/
theorem reports_eq (stage : Stage) (threshold : Nat) (events : List RuntimeEvent)
    (hthreshold : (stage, threshold) ∈ stageThresholds) (hnumbered : Numbered events) :
    (machine.run (new, []) events).2.filter (isReport stage) =
        ((silences stage events).1 ++ [(silences stage events).2]).flatMap
          (reportsOf stage threshold) ∧
      ∀ event ∈ (machine.run (new, []) events).2, ∃ stage, isReport stage event = true :=
  ⟨(watching_run hthreshold hnumbered).reports, reports_only events⟩

/-- Ten ticks, a firing, and ten more: two silences with a report each. -/
def twoSilences : List RuntimeEvent :=
  (List.range' 1 10).map .tick ++ .loopObserved default :: (List.range' 11 10).map .tick

theorem reports_eq_two_silences :
    (machine.run (new, []) twoSilences).2.filter (isReport .observed) =
      [stall .observed 10, stall .observed 10] :=
  (reports_eq .observed 10 twoSilences (by decide) (by unfold Numbered; rfl)).1

end Canon.Loop.Watchdog
