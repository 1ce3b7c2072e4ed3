import Canon.Loop.RepairControl

/-! # Runs of the repair controller

    The entry counts are never taken back, not even by success.  So a clean
    verification leads to `Observing` only while its region has been entered less
    than twice, and a run of successful repair cycles stays out of `Stuck` only
    while no region comes up a third time.

    The argument compares the controller with the bare table.  As long as it is not
    stuck, it is in the phase the table gives for the signals so far, and its counts
    are those of the regions on the table's path.
-/

namespace Canon.RepairControl

open Canon.Loop

abbrev Region := RepairPhase × SemanticSignal

/-! ### The bare table -/

/-- The next phase without the guard on illegal regions. -/
def tableNext (phase : RepairPhase) (signal : SemanticSignal) : RepairPhase :=
  if (phase = .transitioning ∨ phase = .verifying) ∧ signal = .actStall then phase
  else ((transition phase signal).map (·.1)).getD phase

def tableMachine : Machine RepairPhase SemanticSignal where
  step := tableNext

/-- The regions entered on the way. -/
def regionsAlong : RepairPhase → List SemanticSignal → List Region
  | _, [] => []
  | phase, signal :: rest => (phase, signal) :: regionsAlong (tableNext phase signal) rest

/-- The table never leads to `Stuck`. -/
def AvoidsStuck (phase : RepairPhase) (signals : List SemanticSignal) : Prop :=
  tableMachine.Throughout (· ≠ .stuck) phase signals

/-- From `Observing`, around `Stuck`, and back by a clean verification. -/
def SuccessfulCycle (signals : List SemanticSignal) : Prop :=
  signals.getLast? = some .compilerClean ∧ AvoidsStuck .observing signals

section Table

variable {phase : RepairPhase} {signals : List SemanticSignal}

@[simp] theorem tableNext_compilerClean (phase : RepairPhase) :
    tableNext phase .compilerClean = .observing := by
  cases phase <;> rfl

theorem regionsAlong_append (phase : RepairPhase) (as bs : List SemanticSignal) :
    regionsAlong phase (as ++ bs) =
      regionsAlong phase as ++ regionsAlong (tableMachine.run phase as) bs := by
  induction as generalizing phase with
  | nil => rfl
  | cons a as ih =>
    show (phase, a) :: regionsAlong (tableNext phase a) (as ++ bs) = _
    rw [ih]
    rfl

theorem regionsAlong_snoc (phase : RepairPhase) (signals : List SemanticSignal)
    (signal : SemanticSignal) :
    regionsAlong phase (signals ++ [signal]) =
      regionsAlong phase signals ++ [(tableMachine.run phase signals, signal)] :=
  regionsAlong_append phase signals [signal]

/-- A cycle ends where it began. -/
theorem SuccessfulCycle.run (h : SuccessfulCycle signals) :
    tableMachine.run .observing signals = .observing := by
  obtain ⟨before, rfl⟩ := List.getLast?_eq_some_iff.mp h.1
  rw [Machine.run_snoc]
  exact tableNext_compilerClean _

theorem avoidsStuck_flatten {cycles : List (List SemanticSignal)}
    (h : ∀ cycle ∈ cycles, SuccessfulCycle cycle) : AvoidsStuck .observing cycles.flatten := by
  induction cycles with
  | nil => exact (Machine.throughout_nil _ _).mpr RepairPhase.noConfusion
  | cons cycle cycles ih =>
    have hcycle : SuccessfulCycle cycle := h cycle (by simp)
    rw [List.flatten_cons, AvoidsStuck, Machine.throughout_append, hcycle.run]
    exact ⟨hcycle.2, ih fun c hc => h c (by simp [hc])⟩

end Table

/-! ### Entry counts -/

def IllegalRegion.region (r : IllegalRegion) : Region := (r.phase, r.signal)

/-- The counts kept for a region. -/
def countsOf (region : Region) (regions : List IllegalRegion) : List Nat :=
  (regions.filter (·.region = region)).map (·.entryCount)

/-- The table of regions counts the entries in `entered`, up to the width of the
    counters. -/
def Counts (entered : List Region) (regions : List IllegalRegion) : Prop :=
  ∀ region, countsOf region regions =
    if entered.count region = 0 then [] else [entered.count region % 2 ^ 32]

namespace RepairControlConsumer

/-- How often the consumer has entered a region. -/
def entries (c : RepairControlConsumer) (region : Region) : Nat :=
  (countsOf region c.illegalRegions).head?.getD 0

end RepairControlConsumer

section Counts

variable {entered : List Region} {regions : List IllegalRegion} {c : RepairControlConsumer}

theorem countsOf_cons (region : Region) (r : IllegalRegion) (regions : List IllegalRegion) :
    countsOf region (r :: regions) =
      if r.region = region then r.entryCount :: countsOf region regions
      else countsOf region regions := by
  by_cases h : r.region = region
  · simp [countsOf, h]
  · simp [countsOf, h]

theorem countsOf_bumpRegion_self (tick : Nat) (phase : RepairPhase) (signal : SemanticSignal)
    (regions : List IllegalRegion) :
    countsOf (phase, signal) (RepairControlConsumer.bumpRegion tick phase signal regions) =
      match countsOf (phase, signal) regions with
      | [] => [1]
      | n :: rest => (n + 1) % 2 ^ 32 :: rest := by
  induction regions with
  | nil => simp [RepairControlConsumer.bumpRegion, countsOf, IllegalRegion.region]
  | cons r regions ih =>
    by_cases h : r.phase = phase ∧ r.signal = signal
    · simp [RepairControlConsumer.bumpRegion, countsOf_cons, IllegalRegion.region, h]
    · have hne : ¬ r.region = (phase, signal) := by
        intro heq
        exact h (Prod.mk.inj heq)
      rw [RepairControlConsumer.bumpRegion, if_neg h, countsOf_cons, countsOf_cons, if_neg hne,
        if_neg hne]
      exact ih

theorem countsOf_bumpRegion_of_ne (tick : Nat) {phase : RepairPhase} {signal : SemanticSignal}
    {region : Region} (hne : region ≠ (phase, signal)) (regions : List IllegalRegion) :
    countsOf region (RepairControlConsumer.bumpRegion tick phase signal regions) =
      countsOf region regions := by
  induction regions with
  | nil =>
    simp [RepairControlConsumer.bumpRegion, countsOf, IllegalRegion.region, Ne.symm hne]
  | cons r regions ih =>
    by_cases h : r.phase = phase ∧ r.signal = signal
    · have hr : ¬ r.region = region := by
        intro heq
        apply hne
        rw [← heq, ← h.1, ← h.2]
        rfl
      rw [RepairControlConsumer.bumpRegion, if_pos h, countsOf_cons, countsOf_cons]
      exact (if_neg hr).trans (if_neg hr).symm
    · rw [RepairControlConsumer.bumpRegion, if_neg h, countsOf_cons, countsOf_cons, ih]

theorem counts_nil : Counts [] [] := by
  intro region
  rfl

theorem Counts.bumpRegion (h : Counts entered regions) (tick : Nat) (phase : RepairPhase)
    (signal : SemanticSignal) :
    Counts (entered ++ [(phase, signal)])
      (RepairControlConsumer.bumpRegion tick phase signal regions) := by
  intro region
  by_cases hr : region = (phase, signal)
  · subst hr
    have hcount : (entered ++ [(phase, signal)]).count (phase, signal) =
        entered.count (phase, signal) + 1 := by
      simp
    rw [countsOf_bumpRegion_self, h, hcount, if_neg (Nat.succ_ne_zero _)]
    split
    · rename_i heq
      split at heq
      · rename_i hzero
        simp [hzero]
      · cases heq
    · rename_i n rest heq
      split at heq
      · cases heq
      · obtain ⟨rfl, rfl⟩ := List.cons.inj heq
        rw [Nat.mod_add_mod]
  · have hcount : (entered ++ [(phase, signal)]).count region = entered.count region := by
      simp [List.count_append, Ne.symm hr]
    rw [countsOf_bumpRegion_of_ne tick hr, h, hcount]

theorem Counts.entries_eq (h : Counts entered c.illegalRegions) (region : Region) :
    c.entries region = entered.count region % 2 ^ 32 := by
  rw [RepairControlConsumer.entries, h]
  split
  · rename_i hzero
    rw [hzero]
    rfl
  · rfl

/-- The guard looks at the counter of its region. -/
theorem Counts.isIllegalRegion_iff (h : Counts entered c.illegalRegions) (phase : RepairPhase)
    (signal : SemanticSignal) :
    c.isIllegalRegion phase signal = true ↔ 3 ≤ entered.count (phase, signal) % 2 ^ 32 := by
  have hany : c.isIllegalRegion phase signal = true ↔
      ∃ n ∈ countsOf (phase, signal) c.illegalRegions, 3 ≤ n := by
    simp [RepairControlConsumer.isIllegalRegion, countsOf, IllegalRegion.region,
      illegalRegionThreshold, and_assoc]
  rw [hany, h]
  split
  · rename_i hzero
    simp [hzero]
  · simp

end Counts

/-! ### One signal -/

section Advance

variable {entered : List Region} {c : RepairControlConsumer}

theorem recordTransition_keeps (c : RepairControlConsumer) (signal : SemanticSignal)
    (next : RepairPhase) :
    (c.recordTransition signal next).illegalRegions = c.illegalRegions ∧
      (c.recordTransition signal next).sensors = c.sensors := by
  unfold RepairControlConsumer.recordTransition
  dsimp only
  split
  · exact ⟨rfl, rfl⟩
  · exact ⟨rfl, rfl⟩

/-- A signal is counted in the phase it meets, and the sensors stay. -/
theorem advance_keeps (c : RepairControlConsumer) (signal : SemanticSignal) :
    (c.advance signal).1.illegalRegions =
        RepairControlConsumer.bumpRegion c.sensors.tick c.phase signal c.illegalRegions ∧
      (c.advance signal).1.sensors = c.sensors := by
  unfold RepairControlConsumer.advance
  dsimp only
  split
  · exact recordTransition_keeps _ signal .stuck
  · split
    · exact ⟨rfl, rfl⟩
    · split
      · exact ⟨rfl, rfl⟩
      · split
        · exact recordTransition_keeps _ signal _
        · exact ⟨rfl, rfl⟩

/-- The third entry leads to `Stuck`; otherwise the table decides. -/
theorem advance_phase (h : Counts entered c.illegalRegions) (signal : SemanticSignal) :
    (c.advance signal).1.phase =
      if c.phase ≠ .stuck ∧ 3 ≤ (entered.count (c.phase, signal) + 1) % 2 ^ 32 then .stuck
      else tableNext c.phase signal := by
  -- The guard sees the entry that was just recorded.
  have hbumped : Counts (entered ++ [(c.phase, signal)])
      (c.recordEntryIntoRegion c.phase signal).illegalRegions := h.bumpRegion _ _ _
  have hguard : ((c.recordEntryIntoRegion c.phase signal).isIllegalRegion c.phase signal &&
      decide (c.phase ≠ .stuck)) = true ↔
      c.phase ≠ .stuck ∧ 3 ≤ (entered.count (c.phase, signal) + 1) % 2 ^ 32 := by
    rw [Bool.and_eq_true, hbumped.isIllegalRegion_iff, decide_eq_true_iff, and_comm,
      List.count_append, List.count_singleton_self]
  have hblocked : ((decide (c.phase = .transitioning) || decide (c.phase = .verifying)) &&
      decide (signal = .actStall)) = true ↔
      (c.phase = .transitioning ∨ c.phase = .verifying) ∧ signal = .actStall := by
    simp
  unfold RepairControlConsumer.advance
  dsimp only
  split
  · rename_i hill
    rw [if_pos (hguard.mp hill)]
  · rename_i hlegal
    rw [if_neg (mt hguard.mpr hlegal), tableNext]
    split
    · rename_i hblock
      rw [if_pos (hblocked.mp hblock)]
      rfl
    · rename_i hfree
      rw [if_neg (mt hblocked.mpr hfree)]
      -- What is left is the table itself.
      split
      · rename_i htable
        have htable' : transition c.phase signal = none := htable
        rw [htable']
        rfl
      · rename_i next note htable
        have htable' : transition c.phase signal = some (next, note) := htable
        rw [htable']
        split
        · rfl
        · rename_i hsame
          exact (not_not.mp hsame).symm

end Advance

/-! ### One event -/

/-- Extraction alone. -/
def sensorMachine : Machine Sensors RuntimeEvent where
  step s event := (s.extractSignal event).1

/-- The signals of an event stream. -/
def signalsOf : Sensors → List RuntimeEvent → List SemanticSignal
  | _, [] => []
  | s, event :: rest => (s.extractSignal event).2.toList ++ signalsOf (s.extractSignal event).1 rest

/-- The signals of an event stream that a new consumer reads. -/
def signals (events : List RuntimeEvent) : List SemanticSignal :=
  signalsOf RepairControlConsumer.new.sensors events

theorem signalsOf_snoc (s : Sensors) (events : List RuntimeEvent) (event : RuntimeEvent) :
    signalsOf s (events ++ [event]) =
      signalsOf s events ++ ((sensorMachine.run s events).extractSignal event).2.toList := by
  induction events generalizing s with
  | nil => simp [signalsOf]
  | cons e events ih =>
    show (s.extractSignal e).2.toList ++ signalsOf (s.extractSignal e).1 (events ++ [event]) = _
    rw [ih, ← List.append_assoc]
    rfl

section Step

variable {c : RepairControlConsumer} {entered : List Region}

/-- Unless it is an escape, an event counts through its signal only. -/
theorem step_of_no_escape {event : RuntimeEvent} (h : c.checkEscape event = false) :
    repairMachine.step c event =
      match (c.sensors.extractSignal event).2 with
      | none => { c with sensors := (c.sensors.extractSignal event).1 }
      | some signal =>
        (({ c with sensors := (c.sensors.extractSignal event).1 } :
          RepairControlConsumer).advance signal).1 := by
  show (c.onEvent event).1 = _
  unfold RepairControlConsumer.onEvent
  simp only [h, Bool.false_eq_true, if_false]
  cases hsignal : (c.sensors.extractSignal event).2 with
  | none => rfl
  | some signal =>
    dsimp only
    split
    · rename_i hadvance
      rw [hadvance]
    · rename_i hadvance
      rw [hadvance]

theorem checkEscape_of_not_stuck (h : c.phase ≠ .stuck) (event : RuntimeEvent) :
    c.checkEscape event = false := by
  simp [RepairControlConsumer.checkEscape, h]

theorem Counts.advance (h : Counts entered c.illegalRegions) (signal : SemanticSignal) :
    Counts (entered ++ [(c.phase, signal)]) (c.advance signal).1.illegalRegions := by
  rw [(advance_keeps c signal).1]
  exact h.bumpRegion _ _ _

/-- Whatever comes in, the regions go on being counted. -/
theorem counts_step (h : Counts entered c.illegalRegions) (event : RuntimeEvent) :
    ∃ entered', Counts entered' (repairMachine.step c event).illegalRegions := by
  by_cases hescape : c.checkEscape event = true
  · have hstep : repairMachine.step c event = (c.advance .escapeDetected).1 := by
      show (c.onEvent event).1 = _
      rw [RepairControlConsumer.onEvent, if_pos hescape]
    rw [hstep]
    exact ⟨_, h.advance .escapeDetected⟩
  · rw [step_of_no_escape (by simpa using hescape)]
    split
    · exact ⟨entered, h⟩
    · rename_i signal _
      exact ⟨_, Counts.advance (c := { c with sensors := (c.sensors.extractSignal event).1 }) h
        signal⟩

theorem counts_reachable (events : List RuntimeEvent) :
    ∃ entered, Counts entered (repairMachine.run .new events).illegalRegions :=
  repairMachine.run_invariant (I := fun c => ∃ entered, Counts entered c.illegalRegions)
    (fun _ event h => h.elim fun _ hcounts => counts_step hcounts event) events ⟨[], counts_nil⟩

end Step

/-! ### Whole runs -/

/-- The consumer stays out of `Stuck` on the event stream. -/
def NeverStuck (events : List RuntimeEvent) : Prop :=
  repairMachine.Throughout (·.phase ≠ .stuck) .new events

/-- The consumer is where the table is, and has counted the regions on its path. -/
structure Tracks (events : List RuntimeEvent) : Prop where
  sensors : (repairMachine.run .new events).sensors =
    sensorMachine.run RepairControlConsumer.new.sensors events
  phase : (repairMachine.run .new events).phase = tableMachine.run .observing (signals events)
  counts : Counts (regionsAlong .observing (signals events))
    (repairMachine.run .new events).illegalRegions

/-- No region is entered a third time on the table's path. -/
def NoThirdEntry (signals : List SemanticSignal) : Prop :=
  ∀ region, (regionsAlong .observing signals).count region ≤ 2

section Runs

variable {events : List RuntimeEvent}

theorem noThirdEntry_snoc {signals : List SemanticSignal} {signal : SemanticSignal} :
    NoThirdEntry (signals ++ [signal]) ↔ NoThirdEntry signals ∧
      (regionsAlong .observing signals).count (tableMachine.run .observing signals, signal) ≤
        1 := by
  unfold NoThirdEntry
  rw [regionsAlong_snoc]
  constructor
  · intro h
    constructor
    · intro region
      have hregion := h region
      rw [List.count_append] at hregion
      omega
    · have hself := h (tableMachine.run .observing signals, signal)
      rw [List.count_append, List.count_singleton_self] at hself
      omega
  · intro h region
    rw [List.count_append]
    by_cases hr : region = (tableMachine.run .observing signals, signal)
    · rw [hr, List.count_singleton_self]
      have := h.2
      omega
    · have hzero : [(tableMachine.run .observing signals, signal)].count region = 0 := by
        simp [Ne.symm hr]
      have := h.1 region
      omega

theorem NoThirdEntry.of_append {as bs : List SemanticSignal} (h : NoThirdEntry (as ++ bs)) :
    NoThirdEntry as := by
  intro region
  have hregion := h region
  rw [regionsAlong_append, List.count_append] at hregion
  omega

/-- An event without a signal moves the sensors only. -/
theorem Tracks.silent (h : Tracks events) (hfree : (repairMachine.run .new events).phase ≠ .stuck)
    {event : RuntimeEvent}
    (hsig : ((sensorMachine.run RepairControlConsumer.new.sensors events).extractSignal event).2 =
      none) :
    signals (events ++ [event]) = signals events ∧
      (repairMachine.run .new (events ++ [event])).phase = (repairMachine.run .new events).phase ∧
      Tracks (events ++ [event]) := by
  have hsame : signals (events ++ [event]) = signals events := by
    have hsnoc := signalsOf_snoc RepairControlConsumer.new.sensors events event
    rw [hsig] at hsnoc
    rw [Option.toList_none, List.append_nil] at hsnoc
    exact hsnoc
  have hrun : repairMachine.run .new (events ++ [event]) =
      repairMachine.step (repairMachine.run .new events) event := Machine.run_snoc _ _ _ _
  rw [step_of_no_escape (checkEscape_of_not_stuck hfree event), h.sensors, hsig] at hrun
  refine ⟨hsame, by rw [hrun], ?_, ?_, ?_⟩
  · rw [hrun, Machine.run_snoc]
    rfl
  · rw [hrun, hsame, ← h.phase]
  · rw [hrun, hsame]
    exact h.counts

/-- An event with a signal: the third entry leads to `Stuck`, otherwise the consumer
    goes on following the table. -/
theorem Tracks.signal (h : Tracks events) (hfree : (repairMachine.run .new events).phase ≠ .stuck)
    (hcount : NoThirdEntry (signals events)) {event : RuntimeEvent} {signal : SemanticSignal}
    (hsig : ((sensorMachine.run RepairControlConsumer.new.sensors events).extractSignal event).2 =
      some signal) :
    signals (events ++ [event]) = signals events ++ [signal] ∧
      (NoThirdEntry (signals events ++ [signal]) → Tracks (events ++ [event])) ∧
      (¬ NoThirdEntry (signals events ++ [signal]) →
        (repairMachine.run .new (events ++ [event])).phase = .stuck) := by
  have hsnoc : signals (events ++ [event]) = signals events ++ [signal] := by
    have hsnoc := signalsOf_snoc RepairControlConsumer.new.sensors events event
    rw [hsig] at hsnoc
    exact hsnoc
  have hrun : repairMachine.run .new (events ++ [event]) =
      repairMachine.step (repairMachine.run .new events) event := Machine.run_snoc _ _ _ _
  rw [step_of_no_escape (checkEscape_of_not_stuck hfree event), h.sensors, hsig] at hrun
  -- The consumer that meets the signal: nothing but its sensors has moved.
  generalize hc : ({ repairMachine.run .new events with sensors :=
      ((sensorMachine.run RepairControlConsumer.new.sensors events).extractSignal event).1 } :
    RepairControlConsumer) = c at hrun
  have hcounts : Counts (regionsAlong .observing (signals events)) c.illegalRegions := by
    rw [← hc]
    exact h.counts
  have hcphase : c.phase = tableMachine.run .observing (signals events) := by
    rw [← hc]
    exact h.phase
  have hcfree : c.phase ≠ .stuck := by
    rw [hcphase, ← h.phase]
    exact hfree
  have hrun' : repairMachine.run .new (events ++ [event]) = (c.advance signal).1 := hrun
  have hphase := advance_phase hcounts signal
  have htwo : (regionsAlong .observing (signals events)).count (c.phase, signal) ≤ 2 := hcount _
  rw [noThirdEntry_snoc, ← hcphase, and_iff_right hcount]
  refine ⟨hsnoc, ?_, ?_⟩
  · intro hle
    rw [if_neg fun hs => absurd hs.2 (by omega)] at hphase
    refine ⟨?_, ?_, ?_⟩
    · rw [hrun', (advance_keeps c signal).2, Machine.run_snoc, ← hc]
      rfl
    · rw [hrun', hphase, hsnoc, Machine.run_snoc, hcphase]
      rfl
    · rw [hrun', hsnoc, regionsAlong_snoc, ← hcphase]
      exact hcounts.advance signal
  · intro hthird
    rw [hrun', hphase, if_pos ⟨hcfree, by omega⟩]

/-- **The controller against the table.**  It stays out of `Stuck` exactly as long as
    the table does and no region comes up a third time. -/
theorem neverStuck_iff_table (events : List RuntimeEvent) :
    (NeverStuck events ↔
        AvoidsStuck .observing (signals events) ∧ NoThirdEntry (signals events)) ∧
      (NeverStuck events → Tracks events) := by
  induction events using List.reverseRecOn with
  | nil =>
    refine ⟨⟨fun _ => ⟨?_, ?_⟩, fun _ => ?_⟩, fun _ => ⟨rfl, rfl, counts_nil⟩⟩
    · exact (Machine.throughout_nil _ _).mpr RepairPhase.noConfusion
    · intro region
      exact Nat.zero_le _
    · exact (Machine.throughout_nil _ _).mpr RepairPhase.noConfusion
  | append_singleton events event ih =>
    obtain ⟨hiff, htracks⟩ := ih
    have hnever : NeverStuck (events ++ [event]) ↔ NeverStuck events ∧
        (repairMachine.run .new (events ++ [event])).phase ≠ .stuck :=
          Machine.throughout_snoc _ _ _ _
    by_cases hbefore : NeverStuck events
    -- So far the consumer has followed the table.
    · have hfollows := htracks hbefore
      obtain ⟨havoid, hcount⟩ := hiff.mp hbefore
      have hfree : (repairMachine.run .new events).phase ≠ .stuck := hbefore _ List.prefix_rfl
      rw [hnever, and_iff_right hbefore]
      cases hsig : ((sensorMachine.run RepairControlConsumer.new.sensors events).extractSignal
          event).2 with
      | none =>
        obtain ⟨hsame, hphase, hnext⟩ := hfollows.silent hfree hsig
        rw [hsame, hphase]
        exact ⟨⟨fun _ => ⟨havoid, hcount⟩, fun _ => hfree⟩, fun _ => hnext⟩
      | some signal =>
        obtain ⟨hsnoc, hgoes, hstops⟩ := hfollows.signal hfree hcount hsig
        have havoids : AvoidsStuck .observing (signals (events ++ [event])) ↔
            tableMachine.run .observing (signals (events ++ [event])) ≠ .stuck := by
          rw [hsnoc, AvoidsStuck, Machine.throughout_snoc]
          exact and_iff_right havoid
        rw [havoids, hsnoc]
        by_cases hthird : NoThirdEntry (signals events ++ [signal])
        · have hnext := hgoes hthird
          rw [hnext.phase, hsnoc]
          exact ⟨⟨fun hs => ⟨hs, hthird⟩, fun hs => hs.1⟩, fun _ => hnext⟩
        · rw [hstops hthird]
          exact ⟨⟨fun hs => absurd rfl hs, fun hs => absurd hs.2 hthird⟩, fun hs => absurd rfl hs⟩
    · refine ⟨⟨fun hs => absurd (hnever.mp hs).1 hbefore, fun hs => ?_⟩,
        fun hs => absurd (hnever.mp hs).1 hbefore⟩
      -- What is wrong with the beginning is wrong with the whole.
      obtain ⟨havoid, hcount⟩ := hs
      rw [signals, signalsOf_snoc] at havoid hcount
      rw [AvoidsStuck, Machine.throughout_append] at havoid
      exact absurd (hiff.mpr ⟨havoid.1, hcount.of_append⟩) hbefore

end Runs

/-! ### Success -/

section Success

/-- A clean verification meets the controller in any phase: from `Stuck` it always leads
    out, elsewhere only before the third entry. -/
theorem clean_leads_to_observing_iff (events : List RuntimeEvent) {verified : LoopVerified}
    (hpassed : verified.passed = true) (hclean : verified.compilerClean = true) :
    (repairMachine.run .new (events ++ [.loopVerified verified])).phase = .observing ↔
      (repairMachine.run .new events).phase = .stuck ∨
        ((repairMachine.run .new events).entries
          ((repairMachine.run .new events).phase, .compilerClean) + 1) % 2 ^ 32 < 3 := by
  obtain ⟨entered, hcounts⟩ := counts_reachable events
  rw [Machine.run_snoc]
  generalize repairMachine.run .new events = c at hcounts ⊢
  have hescape : c.checkEscape (.loopVerified verified) = false := by
    simp [RepairControlConsumer.checkEscape]
  have hsignal : (c.sensors.extractSignal (.loopVerified verified)).2 = some .compilerClean := by
    simp [Sensors.extractSignal, hpassed, hclean]
  rw [step_of_no_escape hescape, hsignal]
  have hphase := advance_phase (c := { c with
    sensors := (c.sensors.extractSignal (.loopVerified verified)).1 }) hcounts .compilerClean
  rw [hcounts.entries_eq, Nat.mod_add_mod]
  show (RepairControlConsumer.advance _ _).1.phase = _ ↔ _
  rw [hphase, tableNext_compilerClean]
  by_cases hstuck : c.phase = .stuck
  · simp [hstuck]
  · by_cases hthird : 3 ≤ (entered.count (c.phase, .compilerClean) + 1) % 2 ^ 32
    · rw [if_pos ⟨hstuck, hthird⟩]
      constructor
      · intro h
        cases h
      · rintro (h | h)
        · exact absurd h hstuck
        · omega
    · rw [if_neg fun h => hthird h.2]
      exact ⟨fun _ => .inr (by omega), fun _ => rfl⟩

/-- **Success of repair control.**  On every event stream, a clean verification leads to
    `Observing` if and only if the controller is stuck or has met a clean verification
    in its phase at most once (up to the width of the counter).  And a run of successful
    cycles stays out of `Stuck` if and only if no region is entered a third time. -/
theorem repair_succeeds_iff (events : List RuntimeEvent) :
    (∀ verified : LoopVerified, verified.passed = true → verified.compilerClean = true →
        ((repairMachine.run .new (events ++ [.loopVerified verified])).phase = .observing ↔
          (repairMachine.run .new events).phase = .stuck ∨
            ((repairMachine.run .new events).entries
              ((repairMachine.run .new events).phase, .compilerClean) + 1) % 2 ^ 32 < 3)) ∧
      ∀ cycles : List (List SemanticSignal), signals events = cycles.flatten →
        (∀ cycle ∈ cycles, SuccessfulCycle cycle) →
          (NeverStuck events ↔ NoThirdEntry (signals events)) := by
  constructor
  · intro verified hpassed hclean
    exact clean_leads_to_observing_iff events hpassed hclean
  · intro cycles hsignals hcycles
    have havoid : AvoidsStuck .observing (signals events) := by
      rw [hsignals]
      exact avoidsStuck_flatten hcycles
    rw [(neverStuck_iff_table events).1]
    exact and_iff_right havoid

def cleanVerification : LoopVerified :=
  { (default : LoopVerified) with passed := true, compilerClean := true }

theorem cleanCycle : SuccessfulCycle [.compilerClean] := by
  refine ⟨rfl, ?_⟩
  rw [AvoidsStuck, Machine.throughout_cons, Machine.throughout_nil]
  exact ⟨RepairPhase.noConfusion, RepairPhase.noConfusion⟩

/-- Two clean verifications are fine. -/
theorem two_cleans_observing :
    (repairMachine.run .new
      [.loopVerified cleanVerification, .loopVerified cleanVerification]).phase =
        .observing ∧
      NeverStuck [.loopVerified cleanVerification, .loopVerified cleanVerification] := by
  constructor
  · exact ((repair_succeeds_iff [.loopVerified cleanVerification]).1 cleanVerification rfl rfl).mpr
      (.inr (by decide))
  · apply ((repair_succeeds_iff _).2 [[.compilerClean], [.compilerClean]] rfl ?_).mpr
    · intro region
      have hlength := (regionsAlong .observing [.compilerClean, .compilerClean]).count_le_length
        (a := region)
      exact hlength
    · intro cycle hcycle
      have : cycle = [.compilerClean] := by simpa using hcycle
      rw [this]
      exact cleanCycle

/-- The third one, in a run of nothing but success, leads to `Stuck`. -/
theorem third_clean_is_stuck :
    (repairMachine.run .new
      [.loopVerified cleanVerification, .loopVerified cleanVerification]).phase =
        .observing ∧
      (repairMachine.run .new
        (List.replicate 3 (.loopVerified cleanVerification))).phase = .stuck ∧
      signals (List.replicate 3 (.loopVerified cleanVerification)) =
        [[.compilerClean], [.compilerClean], [.compilerClean]].flatten ∧
      SuccessfulCycle [.compilerClean] ∧
      ¬ NeverStuck (List.replicate 3 (.loopVerified cleanVerification)) := by
  refine ⟨rfl, rfl, rfl, cleanCycle, ?_⟩
  intro h
  exact h _ List.prefix_rfl rfl

end Success

end Canon.RepairControl
