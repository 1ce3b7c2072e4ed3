import Canon.Runtime.RustcState

/-! # Verification of a replay

    `replay_verify.rs` checks a compiler state against a log: it takes a copy of the
    state, clears what it calls known, replays the log on the copy and compares.  What it
    does not clear comes from the state that is to be checked.

    * `verifyReplay`, `replayTlog`: the verifier and the replay,
    * `verifyReplay_iff`, `replayTlog_iff`: what each of them accepts, part by part,
    * `Noticed`: the differences in the parts taken over that are still noticed,
    * `verify_replay_faithful_iff`: when the two agree.
-/

namespace Canon.Runtime

open Canon.Graph Canon.Tlog

/-! ### Model -/

instance : DecidableEq RustcState := fun a b =>
  decidable_of_iff (a.tick = b.tick ∧ a.phase = b.phase ∧ a.lastEventId = b.lastEventId ∧
      a.invariantHash = b.invariantHash ∧ a.graphVersion = b.graphVersion ∧
      a.knownSymbols = b.knownSymbols ∧ a.knownEdges = b.knownEdges ∧
      a.knownFiles = b.knownFiles ∧ a.removedSymbols = b.removedSymbols ∧
      a.removedEdges = b.removedEdges) (by
    cases a
    cases b
    simp)

/-- The code events of a log; an error when it cannot be opened or a line is not UTF-8. -/
def codeEvents (S : GraphSerde) (file : Option Bytes) : Except String (List RustcEvent) :=
  match file with
  | none => .error "No such file or directory"
  | some bytes =>
    match (bufLines bytes).mapM id with
    | none => .error "stream did not contain valid UTF-8"
    | some lines => .ok (lines.filterMap fun line =>
        if Text.trim line = [] then none else (S.fromStr line).bind (extractRustcEvent S))

/-- A session starts the numbers again.  The `u64` counters do not reach their limit:
    there are fewer lines. -/
def numberDeltas : (nextId tick : Nat) → List RustcEvent → List EventDelta
  | _, _, [] => []
  | nextId, tick, event :: events =>
    if event.isSessionStart then { id := 0, tick := 0, event := event } :: numberDeltas 1 0 events
    else
      { id := nextId, tick := tick + 1, event := event } ::
        numberDeltas (nextId + 1) (tick + 1) events

def readTlogDeltas (S : GraphSerde) (file : Option Bytes) : Except String (List EventDelta) :=
  (codeEvents S file).map (numberDeltas 1 0)

section Verify

variable (computeInvariantHash : Nat → Nat → Nat → String) (S : GraphSerde)
variable (original : RustcState) (state : RustcState) (file : Option Bytes)

/-- Both dispatch modes. -/
def replayEvents (deltas : List EventDelta) : Except String RustcState :=
  deltas.foldlM (applyDelta computeInvariantHash) state

def replayTlog : Except String RustcState :=
  (readTlogDeltas S file).bind (replayEvents computeInvariantHash state)

/-- The copy the log is replayed on. -/
def RustcState.cleared : RustcState :=
  { original with
    tick := 0, lastEventId := 0, knownSymbols := ∅, knownEdges := [], knownFiles := ∅ }

def verifyReplay : Except String Unit :=
  (replayTlog computeInvariantHash S original.cleared file).bind fun replayed =>
    if replayed ≠ original then
      .error "replay verification failed: replayed state differs from original"
    else if replayed.removedSymbols ≠ original.removedSymbols then
      .error "replay verification failed: removed_symbols mismatch"
    else if replayed.removedEdges ≠ original.removedEdges then
      .error "replay verification failed: removed_edges mismatch"
    else .ok ()

/-- The last two comparisons are part of the first. -/
theorem verifyReplay_ok_iff :
    verifyReplay computeInvariantHash S original file = .ok () ↔
      replayTlog computeInvariantHash S original.cleared file = .ok original := by
  rw [verifyReplay]
  match replayTlog computeInvariantHash S original.cleared file with
  | .error e =>
    constructor
    · intro h
      cases h
    · intro h
      cases h
  | .ok replayed =>
    show (if replayed ≠ original then _ else _) = _ ↔ _
    by_cases hsame : replayed = original
    · subst hsame
      rw [if_neg (fun h => h rfl), if_neg (fun h => h rfl), if_neg (fun h => h rfl)]
      exact ⟨fun _ => rfl, fun _ => rfl⟩
    · rw [if_pos hsame]
      constructor
      · intro h
        cases h
      · intro h
        exact absurd (Except.ok.inj h) hsame

/-! ### The replay does not refuse -/

/-- What an event does under the next number. -/
def RustcState.take (event : RustcEvent) : RustcState :=
  let number := if event.isSessionStart then 0 else state.lastEventId + 1
  let state := ({ state with tick := number, lastEventId := number } : RustcState).applyEvent event
  { state with
    invariantHash :=
      computeInvariantHash state.knownSymbols.keys.card state.knownEdges.length 2 }

def eventMachine : Machine RustcState RustcEvent where
  step := RustcState.take computeInvariantHash

variable {computeInvariantHash S}
variable (state : RustcState) (original : RustcState) (events : List RustcEvent)

theorem take_lastEventId (event : RustcEvent) :
    (state.take computeInvariantHash event).lastEventId =
      if event.isSessionStart then 0 else state.lastEventId + 1 := by
  cases event <;> rfl

/-- The numbers follow the state, so no delta is refused. -/
theorem replayEvents_numberDeltas (state : RustcState) :
    replayEvents computeInvariantHash state
        (numberDeltas (state.lastEventId + 1) state.lastEventId events) =
      .ok ((eventMachine computeInvariantHash).run state events) := by
  induction events generalizing state with
  | nil => rfl
  | cons event events ih =>
    have hnext := ih (state.take computeInvariantHash event)
    rw [take_lastEventId] at hnext
    by_cases hstart : event.isSessionStart = true
    · rw [numberDeltas, if_pos hstart]
      rw [if_pos hstart] at hnext
      have hstep : applyDelta computeInvariantHash state { id := 0, tick := 0, event := event } =
          .ok (state.take computeInvariantHash event) := by
        have hpass : ¬ (0 ≤ state.lastEventId ∧ ¬ event.isSessionStart = true) :=
          fun h => h.2 hstart
        simp only [applyDelta, if_neg hpass, RustcState.take, if_pos hstart]
      rw [replayEvents, List.foldlM_cons, hstep]
      exact hnext
    · rw [numberDeltas, if_neg hstart]
      rw [if_neg hstart] at hnext
      have hstep : applyDelta computeInvariantHash state
          { id := state.lastEventId + 1, tick := state.lastEventId + 1, event := event } =
            .ok (state.take computeInvariantHash event) := by
        have hpass : ¬ (state.lastEventId + 1 ≤ state.lastEventId ∧
            ¬ event.isSessionStart = true) := by
          rintro ⟨hle, -⟩
          omega
        simp only [applyDelta, if_neg hpass, RustcState.take, if_neg hstart]
      rw [replayEvents, List.foldlM_cons, hstep]
      exact hnext

theorem replayTlog_eq {state : RustcState} (hfresh : state.lastEventId = 0)
    (file : Option Bytes) :
    replayTlog computeInvariantHash S state file =
      (codeEvents S file).map ((eventMachine computeInvariantHash).run state) := by
  rw [replayTlog, readTlogDeltas]
  match codeEvents S file with
  | .error e => rfl
  | .ok events =>
    show replayEvents computeInvariantHash state (numberDeltas 1 0 events) = .ok _
    rw [← replayEvents_numberDeltas, hfresh]

/-! ### The parts of the state -/

/-- What the verifier clears. -/
structure Known where
  tick : Nat
  lastEventId : Nat
  symbols : Finmap fun _ : String => String
  edges : List SymbolEdge
  files : Finset String

def Known.empty : Known where
  tick := 0
  lastEventId := 0
  symbols := ∅
  edges := []
  files := ∅

structure Removed where
  symbols : Finset String
  edges : List SymbolEdge

def Removed.empty : Removed where
  symbols := ∅
  edges := []

def RustcState.known : Known where
  tick := state.tick
  lastEventId := state.lastEventId
  symbols := state.knownSymbols
  edges := state.knownEdges
  files := state.knownFiles

def RustcState.removed : Removed where
  symbols := state.removedSymbols
  edges := state.removedEdges

/-- The number every event but the start of a session counts up. -/
def Known.count (known : Known) : Known :=
  { known with tick := known.lastEventId + 1, lastEventId := known.lastEventId + 1 }

def knownMachine : Machine Known RustcEvent where
  step known
    | .nodeDefined symbol kind _ _ | .nodeUpdated symbol kind _ _ =>
      { known.count with symbols := known.symbols.insert symbol kind }
    | .nodeRemoved symbol => { known.count with symbols := known.symbols.erase symbol }
    | .edgeDefined src dst kind =>
      { known.count with edges := known.edges ++ [(src, dst, kind)] }
    | .edgeRemoved src dst kind =>
      { known.count with edges := known.edges.filter fun e => e ≠ (src, dst, kind) }
    | .fileSeen path => { known.count with files := insert path known.files }
    | .sessionStart _ => .empty
    | _ => known.count

def removedMachine : Machine Removed RustcEvent where
  step removed
    | .nodeDefined symbol _ _ _ | .nodeUpdated symbol _ _ _ =>
      { removed with symbols := removed.symbols.erase symbol }
    | .nodeRemoved symbol => { removed with symbols := insert symbol removed.symbols }
    | .edgeDefined src dst kind =>
      { removed with edges := removed.edges.filter fun e => e ≠ (src, dst, kind) }
    | .edgeRemoved src dst kind => { removed with edges := removed.edges ++ [(src, dst, kind)] }
    | .sessionStart _ => .empty
    | _ => removed

/-- Of the known part, the log alone decides. -/
def knownAfter : Known := knownMachine.run .empty events

def removedAfter : Removed := removedMachine.run .empty events

theorem known_run :
    ((eventMachine computeInvariantHash).run state events).known =
      knownMachine.run state.known events := by
  refine Machine.run_simulates _ _ (I := fun _ => True) RustcState.known (fun _ _ _ => trivial)
    ?_ events trivial
  intro state event _
  cases event <;> rfl

theorem removed_run :
    ((eventMachine computeInvariantHash).run state events).removed =
      removedMachine.run state.removed events := by
  refine Machine.run_simulates _ _ (I := fun _ => True) RustcState.removed (fun _ _ _ => trivial)
    ?_ events trivial
  intro state event _
  cases event <;> rfl

theorem phase_run :
    ((eventMachine computeInvariantHash).run state events).phase =
      if .compilationUnitFinished ∈ events then "finished" else state.phase := by
  induction events using List.reverseRecOn with
  | nil => rfl
  | append_singleton events event ih =>
    have hstep : ∀ state : RustcState, (state.take computeInvariantHash event).phase =
        if event = .compilationUnitFinished then "finished" else state.phase := by
      intro state
      cases event <;> rfl
    rw [Machine.run_snoc]
    show (RustcState.take computeInvariantHash _ event).phase = _
    rw [hstep, ih]
    by_cases hmem : RustcEvent.compilationUnitFinished ∈ events
    · rw [if_pos hmem, ite_self, if_pos (by simp [hmem])]
    · by_cases hevent : event = .compilationUnitFinished
      · rw [if_pos hevent, if_pos (by simp [hevent])]
      · have hne : ¬ RustcEvent.compilationUnitFinished = event := fun h => hevent h.symm
        rw [if_neg hevent, if_neg hmem, if_neg (by simp [hmem, hne])]

theorem graphVersion_run :
    ((eventMachine computeInvariantHash).run state events).graphVersion = state.graphVersion := by
  refine Machine.run_invariant _ (I := fun s : RustcState => s.graphVersion = state.graphVersion)
    ?_ events rfl
  intro s event h
  rw [← h]
  cases event <;> rfl

/-- The hash of the known part. -/
def Known.hash (computeInvariantHash : Nat → Nat → Nat → String) (known : Known) : String :=
  computeInvariantHash known.symbols.keys.card known.edges.length 2

theorem invariantHash_run :
    ((eventMachine computeInvariantHash).run state events).invariantHash =
      if events = [] then state.invariantHash
      else (knownMachine.run state.known events).hash computeInvariantHash := by
  rcases List.eq_nil_or_concat' events with rfl | ⟨before, event, rfl⟩
  · rfl
  · rw [if_neg (by simp), ← @known_run computeInvariantHash, Machine.run_snoc]
    rfl

theorem RustcState.eq_iff (state other : RustcState) :
    state = other ↔ state.known = other.known ∧ state.removed = other.removed ∧
      state.phase = other.phase ∧ state.graphVersion = other.graphVersion ∧
        state.invariantHash = other.invariantHash := by
  constructor
  · intro h
    rw [h]
    exact ⟨rfl, rfl, rfl, rfl, rfl⟩
  · intro h
    cases state
    cases other
    simp only [RustcState.known, RustcState.removed, Known.mk.injEq, Removed.mk.injEq] at h
    simp only [RustcState.mk.injEq]
    obtain ⟨⟨htick, hlast, hsymbols, hedges, hfiles⟩, ⟨hrs, hre⟩, hphase, hversion, hhash⟩ := h
    exact ⟨htick, hphase, hlast, hhash, hversion, hsymbols, hedges, hfiles, hrs, hre⟩

/-! ### The removed sets that a log starts with -/

/-- The symbols with a node event. -/
def touched : List String :=
  events.flatMap fun event => (namesOf event).take 1

/-- The edges with a definition. -/
def defined : List SymbolEdge :=
  events.filterMap fun
    | .edgeDefined src dst kind => some (src, dst, kind)
    | _ => none

theorem removed_of_session {events : List RustcEvent}
    (h : ∃ event ∈ events, event.isSessionStart) (removed : Removed) :
    removedMachine.run removed events = removedAfter events := by
  induction events using List.reverseRecOn with
  | nil =>
    obtain ⟨event, hevent, -⟩ := h
    cases hevent
  | append_singleton events event ih =>
    rw [removedAfter, Machine.run_snoc, Machine.run_snoc]
    by_cases hearlier : ∃ event ∈ events, event.isSessionStart
    · rw [ih hearlier]
      rfl
    -- The last event is the session start.
    · obtain ⟨start, hmem, hstart⟩ := h
      rcases List.mem_append.mp hmem with hmem | hmem
      · exact absurd ⟨start, hmem, hstart⟩ hearlier
      · rw [List.mem_singleton.mp hmem] at hstart
        cases event <;> simp [RustcEvent.isSessionStart] at hstart
        rfl

theorem removed_symbols_of_no_session {events : List RustcEvent}
    (h : ∀ event ∈ events, ¬ event.isSessionStart) (removed : Removed) (symbol : String) :
    symbol ∈ (removedMachine.run removed events).symbols ↔
      (symbol ∈ removed.symbols ∧ symbol ∉ touched events) ∨
        symbol ∈ (removedAfter events).symbols := by
  induction events using List.reverseRecOn with
  | nil => simp [touched, removedAfter, Removed.empty]
  | append_singleton events event ih =>
    have hrest := ih fun e he => h e (by simp [he])
    have hlast := h event (by simp)
    rw [removedAfter, Machine.run_snoc, Machine.run_snoc]
    rw [removedAfter] at hrest
    have htouched : touched (events ++ [event]) = touched events ++ (namesOf event).take 1 := by
      simp [touched]
    rw [htouched]
    cases event <;>
      simp [removedMachine, namesOf, RustcEvent.isSessionStart] at hlast hrest ⊢ <;> grind

theorem removed_edges_of_no_session {events : List RustcEvent}
    (h : ∀ event ∈ events, ¬ event.isSessionStart) (removed : Removed) :
    (removedMachine.run removed events).edges =
      removed.edges.filter (· ∉ defined events) ++ (removedAfter events).edges := by
  induction events using List.reverseRecOn with
  | nil => simp [defined, removedAfter, Removed.empty]
  | append_singleton events event ih =>
    have hrest := ih fun e he => h e (by simp [he])
    have hlast := h event (by simp)
    rw [removedAfter, Machine.run_snoc, Machine.run_snoc]
    rw [removedAfter] at hrest
    have hdefined : defined (events ++ [event]) = defined events ++ defined [event] := by
      simp only [defined, List.filterMap_append]
    rw [hdefined]
    cases event with
    | edgeDefined src dst kind =>
      show (removedMachine.run removed events).edges.filter (fun e => e ≠ (src, dst, kind)) =
        _ ++ (removedMachine.run .empty events).edges.filter fun e => e ≠ (src, dst, kind)
      rw [hrest, List.filter_append, List.filter_filter]
      congr 1
      refine List.filter_congr fun e _ => ?_
      simp [defined, and_comm]
    | edgeRemoved src dst kind =>
      show (removedMachine.run removed events).edges ++ [(src, dst, kind)] =
        _ ++ ((removedMachine.run .empty events).edges ++ [(src, dst, kind)])
      rw [hrest, List.append_assoc]
      simp [defined]
    | sessionStart _ => exact absurd rfl hlast
    | _ => simpa [removedMachine, defined] using hrest

/-! ### What is accepted -/

/-- The removed sets of the state are what the log makes of them. -/
def RemovedKept : Prop :=
  if ∃ event ∈ events, event.isSessionStart then original.removed = removedAfter events
  else
    (∀ symbol ∈ touched events,
      symbol ∈ original.removedSymbols ↔ symbol ∈ (removedAfter events).symbols) ∧
    original.removedEdges =
      original.removedEdges.filter (· ∉ defined events) ++ (removedAfter events).edges

/-- The parts of the state that the verifier takes over, and what it still asks of them. -/
structure TakenOver (computeInvariantHash : Nat → Nat → Nat → String) (original : RustcState)
    (events : List RustcEvent) : Prop where
  phase : .compilationUnitFinished ∈ events → original.phase = "finished"
  invariantHash : events ≠ [] →
    original.invariantHash = (knownAfter events).hash computeInvariantHash
  removed : RemovedKept original events

/-- Phase, version, hash and removed sets are those that the log leads to. -/
structure AsLogged (computeInvariantHash : Nat → Nat → Nat → String) (original : RustcState)
    (events : List RustcEvent) : Prop where
  phase : original.phase = if .compilationUnitFinished ∈ events then "finished" else "init"
  graphVersion : original.graphVersion = 2
  invariantHash : original.invariantHash =
    if events = [] then "" else (knownAfter events).hash computeInvariantHash
  removed : original.removed = removedAfter events

theorem removedAfter_symbols_touched {events : List RustcEvent} {symbol : String}
    (h : symbol ∈ (removedAfter events).symbols) : symbol ∈ touched events := by
  induction events using List.reverseRecOn with
  | nil => simp [removedAfter, Removed.empty] at h
  | append_singleton events event ih =>
    have htouched : touched (events ++ [event]) = touched events ++ (namesOf event).take 1 := by
      simp [touched]
    rw [htouched, List.mem_append]
    rw [removedAfter, Machine.run_snoc] at h
    rw [removedAfter] at ih
    cases event with
    | nodeDefined s _ _ _ => exact .inl (ih (Finset.mem_of_mem_erase h))
    | nodeUpdated s _ _ _ => exact .inl (ih (Finset.mem_of_mem_erase h))
    | nodeRemoved s =>
      rcases Finset.mem_insert.mp h with rfl | h
      · exact .inr (by simp [namesOf])
      · exact .inl (ih h)
    | sessionStart _ => simp [removedMachine, Removed.empty] at h
    | _ => exact .inl (ih h)

theorem removedKept_iff :
    RemovedKept original events ↔ original.removed =
      removedMachine.run original.removed events := by
  unfold RemovedKept
  split
  · rename_i hsession
    rw [removed_of_session hsession]
  · rename_i hsession
    have hnone : ∀ event ∈ events, ¬ event.isSessionStart := fun event hevent hstart =>
      hsession ⟨event, hevent, hstart⟩
    have hsymbols := removed_symbols_of_no_session hnone original.removed
    have hedges := removed_edges_of_no_session hnone original.removed
    constructor
    · rintro ⟨hs, he⟩
      have hsame : original.removedSymbols =
          (removedMachine.run original.removed events).symbols := by
        ext symbol
        rw [hsymbols]
        show symbol ∈ original.removedSymbols ↔
          (symbol ∈ original.removedSymbols ∧ _) ∨ _
        by_cases htouched : symbol ∈ touched events
        · rw [hs symbol htouched]
          simp [htouched]
        · have hnot : symbol ∉ (removedAfter events).symbols :=
            fun h => htouched (removedAfter_symbols_touched h)
          simp [htouched, hnot]
      have hsame' : original.removedEdges = (removedMachine.run original.removed events).edges := by
        rw [hedges]
        exact he
      show Removed.mk original.removedSymbols original.removedEdges = _
      rw [hsame, hsame']
    · intro h
      constructor
      · intro symbol htouched
        have hmem := hsymbols symbol
        rw [← h] at hmem
        show symbol ∈ original.removed.symbols ↔ _
        rw [hmem]
        simp [htouched]
      · rw [← h] at hedges
        exact hedges

theorem map_run_eq_ok_iff (start original : RustcState) (file : Option Bytes) :
    (codeEvents S file).map ((eventMachine computeInvariantHash).run start) = .ok original ↔
      ∃ events, codeEvents S file = .ok events ∧
        original = (eventMachine computeInvariantHash).run start events := by
  match codeEvents S file with
  | .error e =>
    constructor
    · intro h
      cases h
    · rintro ⟨events, h, -⟩
      cases h
  | .ok events =>
    constructor
    · intro h
      exact ⟨events, rfl, (Except.ok.inj h).symm⟩
    · rintro ⟨events', h, horiginal⟩
      cases h
      rw [horiginal]
      rfl

theorem verifyReplay_iff (file : Option Bytes) :
    verifyReplay computeInvariantHash S original file = .ok () ↔
      ∃ events, codeEvents S file = .ok events ∧ original.known = knownAfter events ∧
        TakenOver computeInvariantHash original events := by
  rw [verifyReplay_ok_iff, replayTlog_eq rfl, map_run_eq_ok_iff]
  refine exists_congr fun events => and_congr_right fun _ => ?_
  have hknown : ((eventMachine computeInvariantHash).run original.cleared events).known =
      knownAfter events := known_run original.cleared events
  have hremoved : ((eventMachine computeInvariantHash).run original.cleared events).removed =
      removedMachine.run original.removed events := removed_run original.cleared events
  rw [RustcState.eq_iff, hknown, hremoved, phase_run, graphVersion_run, invariantHash_run,
    ← removedKept_iff]
  refine and_congr_right fun _ => ?_
  show _ ∧ original.phase = (if _ then "finished" else original.phase) ∧
    original.graphVersion = original.graphVersion ∧
      original.invariantHash = (if events = [] then original.invariantHash
        else (knownAfter events).hash computeInvariantHash) ↔ _
  constructor
  · rintro ⟨hkept, hphase, -, hhash⟩
    refine ⟨?_, ?_, hkept⟩
    · intro hfinished
      rw [if_pos hfinished] at hphase
      exact hphase
    · intro hevents
      rw [if_neg hevents] at hhash
      exact hhash
  · intro h
    refine ⟨h.removed, ?_, rfl, ?_⟩
    · by_cases hfinished : RustcEvent.compilationUnitFinished ∈ events
      · rw [if_pos hfinished]
        exact h.phase hfinished
      · rw [if_neg hfinished]
    · by_cases hevents : events = []
      · rw [if_pos hevents]
      · rw [if_neg hevents]
        exact h.invariantHash hevents

theorem replayTlog_iff (file : Option Bytes) :
    replayTlog computeInvariantHash S emptyState file = .ok original ↔
      ∃ events, codeEvents S file = .ok events ∧ original.known = knownAfter events ∧
        AsLogged computeInvariantHash original events := by
  rw [replayTlog_eq rfl, map_run_eq_ok_iff]
  refine exists_congr fun events => and_congr_right fun _ => ?_
  have hknown : ((eventMachine computeInvariantHash).run emptyState events).known =
      knownAfter events := known_run emptyState events
  have hremoved : ((eventMachine computeInvariantHash).run emptyState events).removed =
      removedAfter events := removed_run emptyState events
  rw [RustcState.eq_iff, hknown, hremoved, phase_run, graphVersion_run, invariantHash_run]
  refine and_congr_right fun _ => ?_
  constructor
  · rintro ⟨hremoved, hphase, hversion, hhash⟩
    exact ⟨hphase, hversion, hhash, hremoved⟩
  · intro h
    exact ⟨h.removed, h.phase, h.graphVersion, h.invariantHash⟩

/-! ### Agreement -/

/-- A difference between the state and the log that is noticed, although the part was taken
    over: the last unit finished, an event set the hash, a session start emptied the removed
    sets, or the log touches the symbol or the edge. -/
inductive Noticed (computeInvariantHash : Nat → Nat → Nat → String) (original : RustcState)
    (events : List RustcEvent) : Prop where
  | phase (finished : .compilationUnitFinished ∈ events) (differs : original.phase ≠ "finished")
  | invariantHash (some_ : events ≠ [])
      (differs : original.invariantHash ≠ (knownAfter events).hash computeInvariantHash)
  | removed (session : ∃ event ∈ events, event.isSessionStart)
      (differs : original.removed ≠ removedAfter events)
  | removedSymbol (none_ : ¬ ∃ event ∈ events, event.isSessionStart) (symbol : String)
      (touched_ : symbol ∈ touched events)
      (differs : ¬ (symbol ∈ original.removedSymbols ↔ symbol ∈ (removedAfter events).symbols))
  | removedEdges (none_ : ¬ ∃ event ∈ events, event.isSessionStart)
      (differs : original.removedEdges ≠
        original.removedEdges.filter (· ∉ defined events) ++ (removedAfter events).edges)

theorem not_takenOver_iff :
    ¬ TakenOver computeInvariantHash original events ↔
      Noticed computeInvariantHash original events := by
  constructor
  · intro h
    by_contra hnoticed
    apply h
    refine ⟨?_, ?_, ?_⟩
    · intro hfinished
      by_contra hdiffers
      exact hnoticed (.phase hfinished hdiffers)
    · intro hsome
      by_contra hdiffers
      exact hnoticed (.invariantHash hsome hdiffers)
    · unfold RemovedKept
      split
      · rename_i hsession
        by_contra hdiffers
        exact hnoticed (.removed hsession hdiffers)
      · rename_i hnone
        constructor
        · intro symbol htouched
          by_contra hdiffers
          exact hnoticed (.removedSymbol hnone symbol htouched hdiffers)
        · by_contra hdiffers
          exact hnoticed (.removedEdges hnone hdiffers)
  · intro h htaken
    have hkept := htaken.removed
    unfold RemovedKept at hkept
    cases h with
    | phase finished differs => exact differs (htaken.phase finished)
    | invariantHash some_ differs => exact differs (htaken.invariantHash some_)
    | removed session differs =>
      rw [if_pos session] at hkept
      exact differs hkept
    | removedSymbol none_ symbol touched_ differs =>
      rw [if_neg none_] at hkept
      exact differs (hkept.1 symbol touched_)
    | removedEdges none_ differs =>
      rw [if_neg none_] at hkept
      exact differs hkept.2

/-- A state that a replay leads to is refused if an edge stays removed that the log does not
    define: the replay on the copy removes it once more. -/
theorem AsLogged.takenOver_iff {original : RustcState} {events : List RustcEvent}
    (h : AsLogged computeInvariantHash original events) :
    TakenOver computeInvariantHash original events ↔
      (∃ event ∈ events, event.isSessionStart) ∨
        ∀ e ∈ (removedAfter events).edges, e ∈ defined events := by
  have hsymbols : original.removedSymbols = (removedAfter events).symbols :=
    congrArg Removed.symbols h.removed
  have hedges : original.removedEdges = (removedAfter events).edges :=
    congrArg Removed.edges h.removed
  have hkept : TakenOver computeInvariantHash original events ↔ RemovedKept original events := by
    refine ⟨fun htaken => htaken.removed, fun hkept => ⟨?_, ?_, hkept⟩⟩
    · intro hfinished
      rw [h.phase, if_pos hfinished]
    · intro hsome
      rw [h.invariantHash, if_neg hsome]
  rw [hkept, RemovedKept]
  by_cases hsession : ∃ event ∈ events, event.isSessionStart
  · rw [if_pos hsession]
    exact iff_of_true h.removed (.inl hsession)
  · rw [if_neg hsession, hsymbols, hedges, List.self_eq_append_left, List.filter_eq_nil_iff]
    simp [hsession]

/-- The verifier accepts what a replay from the initial state leads to, and nothing else,
    exactly if phase, version, hash and removed sets are those of the log or differ in a way
    that is noticed, and in the first case each edge that stays removed was defined. -/
theorem verify_replay_faithful_iff (original : RustcState) (file : Option Bytes) :
    (verifyReplay computeInvariantHash S original file = .ok () ↔
        replayTlog computeInvariantHash S emptyState file = .ok original) ↔
      ∀ events, codeEvents S file = .ok events → original.known = knownAfter events →
        (AsLogged computeInvariantHash original events ∨
          Noticed computeInvariantHash original events) ∧
        (AsLogged computeInvariantHash original events →
          (∃ event ∈ events, event.isSessionStart) ∨
            ∀ e ∈ (removedAfter events).edges, e ∈ defined events) := by
  have hpart : ∀ events : List RustcEvent,
      (TakenOver computeInvariantHash original events ↔
          AsLogged computeInvariantHash original events) ↔
        (AsLogged computeInvariantHash original events ∨
          Noticed computeInvariantHash original events) ∧
        (AsLogged computeInvariantHash original events →
          (∃ event ∈ events, event.isSessionStart) ∨
            ∀ e ∈ (removedAfter events).edges, e ∈ defined events) := by
    intro events
    rw [← not_takenOver_iff]
    constructor
    · intro h
      refine ⟨?_, fun hlogged => hlogged.takenOver_iff.mp (h.mpr hlogged)⟩
      by_cases hlogged : AsLogged computeInvariantHash original events
      · exact .inl hlogged
      · exact .inr (mt h.mp hlogged)
    · rintro ⟨heither, hdefined⟩
      refine ⟨fun htaken => heither.resolve_right (not_not_intro htaken), ?_⟩
      exact fun hlogged => hlogged.takenOver_iff.mpr (hdefined hlogged)
  rw [verifyReplay_iff, replayTlog_iff]
  constructor
  · intro h events hread hknown
    rw [← hpart]
    constructor
    · intro htaken
      obtain ⟨events', hread', -, hlogged⟩ := h.mp ⟨events, hread, hknown, htaken⟩
      rw [hread] at hread'
      cases hread'
      exact hlogged
    · intro hlogged
      obtain ⟨events', hread', -, htaken⟩ := h.mpr ⟨events, hread, hknown, hlogged⟩
      rw [hread] at hread'
      cases hread'
      exact htaken
  · intro h
    refine exists_congr fun events => and_congr_right fun hread => and_congr_right fun hknown => ?_
    exact (hpart events).mpr (h events hread hknown)

/-- From an empty log nothing is replayed, and the phase is that of the state itself. -/
theorem wrong_phase_verified :
    ¬ ∃ (computeInvariantHash : Nat → Nat → Nat → String) (S : GraphSerde),
      ∀ (original : RustcState) (file : Option Bytes),
        (verifyReplay computeInvariantHash S original file = .ok () ↔
          replayTlog computeInvariantHash S emptyState file = .ok original) := by
  rintro ⟨computeInvariantHash, S, hall⟩
  have hwrong := hall { emptyState with phase := "finished" } (some [])
  have hreplay : replayTlog computeInvariantHash S emptyState (some []) = .ok emptyState := rfl
  have hverified : verifyReplay computeInvariantHash S { emptyState with phase := "finished" }
      (some []) = .ok () := by
    rw [verifyReplay_ok_iff]
    rfl
  have hsame := Except.ok.inj (hreplay.symm.trans (hwrong.mp hverified))
  have hphase : "init" = "finished" := congrArg RustcState.phase hsame
  exact absurd hphase (by decide)

end Verify

end Canon.Runtime
