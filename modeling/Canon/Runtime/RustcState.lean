import Mathlib.Data.Finmap
import Canon.Graph.Refinement
import Canon.Graph.Replay

/-! # The compiler state of the runtime

    `apply_delta` of the runtime's `lib.rs` folds the events of the compiler into a
    `RustcState`: the symbols and edges that are known, and those that were removed.
    The projection folds the same events into a code graph.

    Both keep the same symbols.  They keep the same edges only as long as no node is
    removed while an edge ends at it: the projection drops such an edge together with
    the node, the runtime state keeps it among the known ones.  From 2 ^ 32 nodes on the
    projection itself mixes up its numbers.
-/

namespace Canon.Runtime

open Canon.Graph

/-! ### State -/

/-- Source, target and kind. -/
abbrev SymbolEdge := String × String × String

structure EventDelta where
  id : Nat
  tick : Nat
  event : RustcEvent
deriving DecidableEq, Repr

structure RustcState where
  tick : Nat
  phase : String
  lastEventId : Nat
  invariantHash : String
  graphVersion : Nat
  knownSymbols : Finmap fun _ : String => String
  knownEdges : List SymbolEdge
  knownFiles : Finset String
  removedSymbols : Finset String
  removedEdges : List SymbolEdge

def emptyState : RustcState where
  tick := 0
  phase := "init"
  lastEventId := 0
  invariantHash := ""
  graphVersion := 2
  knownSymbols := ∅
  knownEdges := []
  knownFiles := ∅
  removedSymbols := ∅
  removedEdges := []

def RustcState.addSymbol (state : RustcState) (symbol kind : String) : RustcState :=
  { state with
    knownSymbols := state.knownSymbols.insert symbol kind
    removedSymbols := state.removedSymbols.erase symbol }

/-- The `match` of `apply_delta`. -/
def RustcState.applyEvent (state : RustcState) : RustcEvent → RustcState
  | .nodeDefined symbol kind _ _ => state.addSymbol symbol kind
  | .nodeUpdated symbol kind _ _ => state.addSymbol symbol kind
  | .nodeRemoved symbol =>
    -- The edges at the symbol stay.
    { state with
      knownSymbols := state.knownSymbols.erase symbol
      removedSymbols := insert symbol state.removedSymbols }
  | .edgeDefined src dst kind =>
    { state with
      knownEdges := state.knownEdges ++ [(src, dst, kind)]
      removedEdges := state.removedEdges.filter fun e => e ≠ (src, dst, kind) }
  | .edgeRemoved src dst kind =>
    { state with
      knownEdges := state.knownEdges.filter fun e => e ≠ (src, dst, kind)
      removedEdges := state.removedEdges ++ [(src, dst, kind)] }
  | .fileSeen path => { state with knownFiles := insert path state.knownFiles }
  | .sessionStart _ =>
    { state with
      lastEventId := 0
      knownSymbols := ∅
      knownEdges := []
      knownFiles := ∅
      removedSymbols := ∅
      removedEdges := [] }
  | .compilationUnitFinished => { state with phase := "finished" }
  | .callsiteObserved | .symbolDefined | .spanDefined | .panicCaptured | .warningCaptured
  | .invariantViolation => state

section ApplyDelta

-- `compute_invariant_hash`: the standard hasher, whose algorithm is unspecified, over the
-- number of nodes, the number of edges and the schema version.
variable (computeInvariantHash : Nat → Nat → Nat → String)
variable (state : RustcState) (delta : EventDelta)

def applyDelta : Except String RustcState :=
  if delta.id ≤ state.lastEventId ∧ ¬ delta.event.isSessionStart then
    .error s!"event id must be monotonic id={delta.id} last_event_id={state.lastEventId}"
  else
    let state := { state with tick := delta.tick, lastEventId := delta.id }
    let state := state.applyEvent delta.event
    .ok { state with
      invariantHash :=
        computeInvariantHash state.knownSymbols.keys.card state.knownEdges.length 2 }

/-- Deltas one after the other.  A refused one changes nothing, as in the kernel
    processor, which ignores the error. -/
def rustcMachine : Machine RustcState EventDelta where
  step state delta :=
    match applyDelta computeInvariantHash state delta with
    | .ok state => state
    | .error _ => state

/-- The test `apply_delta` begins with. -/
def Accepted : Prop :=
  delta.event.isSessionStart ∨ state.lastEventId < delta.id

instance (state : RustcState) (delta : EventDelta) : Decidable (Accepted state delta) :=
  inferInstanceAs (Decidable (_ ∨ _))

/-- The ends of an edge that is defined. -/
def endsOf : RustcEvent → List String
  | .edgeDefined src dst _ => [src, dst]
  | _ => []

/-- Both ends of an edge that is defined are known by then. -/
def EndsKnown : Prop :=
  ∀ symbol ∈ endsOf delta.event, symbol ∈ state.knownSymbols

instance (state : RustcState) (delta : EventDelta) : Decidable (EndsKnown state delta) :=
  inferInstanceAs (Decidable (∀ symbol ∈ endsOf delta.event, symbol ∈ state.knownSymbols))

/-- The texts of a node event. -/
def namesOf : RustcEvent → List String
  | .nodeDefined symbol kind _ _ => [symbol, kind]
  | .nodeUpdated symbol kind _ _ => [symbol, kind]
  | .nodeRemoved symbol => [symbol]
  | _ => []

/-- The deltas of one session, as the runtime numbers them. -/
structure OneSession (deltas : List EventDelta) : Prop where
  single : ∀ delta ∈ deltas.tail, delta.event.isSessionStart = false
  named : ∀ delta ∈ deltas, ∀ name ∈ namesOf delta.event, name ≠ ""
  accepted : (rustcMachine computeInvariantHash).Along Accepted emptyState deltas
  endsKnown : (rustcMachine computeInvariantHash).Along EndsKnown emptyState deltas

variable {computeInvariantHash}
variable {state : RustcState} {deltas : List EventDelta} (edge : SymbolEdge) (event : RustcEvent)

/-- The sets two states share; the other fields are neither symbols nor edges. -/
structure SameSets (state other : RustcState) : Prop where
  knownSymbols : state.knownSymbols = other.knownSymbols
  knownEdges : state.knownEdges = other.knownEdges
  removedSymbols : state.removedSymbols = other.removedSymbols
  removedEdges : state.removedEdges = other.removedEdges

theorem step_of_accepted {delta : EventDelta} (h : Accepted state delta) :
    SameSets ((rustcMachine computeInvariantHash).step state delta)
      (state.applyEvent delta.event) := by
  have hpass : ¬ (delta.id ≤ state.lastEventId ∧ ¬ delta.event.isSessionStart) := by
    rintro ⟨hid, hstart⟩
    rcases h with h | h
    · exact hstart h
    · omega
  simp only [rustcMachine, applyDelta, if_neg hpass]
  cases delta.event <;> exact ⟨rfl, rfl, rfl, rfl⟩

theorem step_of_not_accepted {delta : EventDelta} (h : ¬ Accepted state delta) :
    (rustcMachine computeInvariantHash).step state delta = state := by
  have hfail : delta.id ≤ state.lastEventId ∧ ¬ delta.event.isSessionStart := by
    unfold Accepted at h
    constructor
    · by_contra hlt
      exact h (.inr (by omega))
    · intro hstart
      exact h (.inl hstart)
  simp only [rustcMachine, applyDelta, if_pos hfail]

/-! ### Known and removed -/

/-- Nothing is known and removed at once. -/
structure Separate (state : RustcState) : Prop where
  symbols : ∀ symbol ∈ state.removedSymbols, symbol ∉ state.knownSymbols
  edges : ∀ edge ∈ state.removedEdges, edge ∉ state.knownEdges

theorem separate_empty : Separate emptyState where
  symbols := by simp [emptyState]
  edges := by simp [emptyState]

theorem Separate.congr {state other : RustcState} (h : Separate other)
    (hsame : SameSets state other) : Separate state where
  symbols := by
    rw [hsame.removedSymbols, hsame.knownSymbols]
    exact h.symbols
  edges := by
    rw [hsame.removedEdges, hsame.knownEdges]
    exact h.edges

theorem Separate.addSymbol (h : Separate state) (symbol kind : String) :
    Separate (state.addSymbol symbol kind) where
  symbols := by
    intro s hs
    obtain ⟨hne, hs⟩ := Finset.mem_erase.mp hs
    show s ∉ state.knownSymbols.insert symbol kind
    rw [Finmap.mem_insert]
    rintro (rfl | hk)
    · exact hne rfl
    · exact h.symbols s hs hk
  edges := h.edges

theorem Separate.applyEvent (h : Separate state) (event : RustcEvent) :
    Separate (state.applyEvent event) := by
  cases event with
  | nodeDefined symbol kind _ _ => exact h.addSymbol symbol kind
  | nodeUpdated symbol kind _ _ => exact h.addSymbol symbol kind
  | nodeRemoved symbol =>
    refine ⟨?_, h.edges⟩
    intro s hs
    show s ∉ state.knownSymbols.erase symbol
    rw [Finmap.mem_erase]
    rintro ⟨hne, hk⟩
    rcases Finset.mem_insert.mp hs with rfl | hs
    · exact hne rfl
    · exact h.symbols s hs hk
  | edgeDefined src dst kind =>
    refine ⟨h.symbols, ?_⟩
    intro e he
    obtain ⟨he, hne⟩ := List.mem_filter.mp he
    show e ∉ state.knownEdges ++ [(src, dst, kind)]
    simp only [List.mem_append, List.mem_singleton, not_or]
    exact ⟨h.edges e he, by simpa using hne⟩
  | edgeRemoved src dst kind =>
    refine ⟨h.symbols, ?_⟩
    intro e he hk
    obtain ⟨hk, hne⟩ := List.mem_filter.mp hk
    rcases List.mem_append.mp he with he | he
    · exact h.edges e he hk
    · exact absurd (List.mem_singleton.mp he) (by simpa using hne)
  | sessionStart _ => exact ⟨by simp [RustcState.applyEvent], by simp [RustcState.applyEvent]⟩
  | fileSeen _ => exact ⟨h.symbols, h.edges⟩
  | compilationUnitFinished => exact ⟨h.symbols, h.edges⟩
  | callsiteObserved | symbolDefined | spanDefined | panicCaptured | warningCaptured
  | invariantViolation => exact h

theorem Separate.step (h : Separate state) (delta : EventDelta) :
    Separate ((rustcMachine computeInvariantHash).step state delta) := by
  by_cases hacc : Accepted state delta
  · exact (h.applyEvent delta.event).congr (step_of_accepted hacc)
  · rw [step_of_not_accepted hacc]
    exact h

theorem separate_run (deltas : List EventDelta) :
    Separate ((rustcMachine computeInvariantHash).run emptyState deltas) :=
  (rustcMachine computeInvariantHash).run_invariant (fun _ delta h => h.step delta) deltas
    separate_empty

/-! ### Edges that dangle -/

/-- The event puts the edge among the known ones. -/
def Defines : Prop :=
  event = .edgeDefined edge.1 edge.2.1 edge.2.2

/-- The event decides whether the edge is known. -/
def Settles : Prop :=
  Defines edge event ∨ event = .edgeRemoved edge.1 edge.2.1 edge.2.2 ∨ event.isSessionStart

/-- The event removes the node at one of the ends of the edge. -/
def Detaches : Prop :=
  event = .nodeRemoved edge.1 ∨ event = .nodeRemoved edge.2.1

/-- An end of the edge is removed after the edge was defined, and no later event defines
    or removes the edge. -/
def Dangling (events : List RustcEvent) : Prop :=
  ∃ before after, events = before ++ .edgeDefined edge.1 edge.2.1 edge.2.2 :: after ∧
    (∀ event ∈ after, ¬ Settles edge event) ∧ ∃ event ∈ after, Detaches edge event

theorem dangling_iff (events : List RustcEvent) :
    Dangling edge events ↔ Machine.Since (Defines edge) (Settles edge) events ∧
      ¬ Machine.Since (Defines edge) (fun event => Settles edge event ∨ Detaches edge event)
        events := by
  constructor
  · rintro ⟨before, after, rfl, hquiet, event, hevent, hdetach⟩
    refine ⟨⟨before, _, after, rfl, rfl, hquiet⟩, ?_⟩
    rintro ⟨before', a, after', hsplit, hdef, hquiet'⟩
    have hafter : after = after' := by
      have hself : Defines edge (.edgeDefined edge.1 edge.2.1 edge.2.2) := rfl
      refine Machine.after_last_unique hsplit hself hdef ?_ ?_
      · intro b hb hd
        exact hquiet b hb (.inl hd)
      · intro b hb hd
        exact hquiet' b hb (.inl (.inl hd))
    exact hquiet' event (hafter ▸ hevent) (.inr hdetach)
  · rintro ⟨⟨before, a, after, rfl, rfl, hquiet⟩, hnot⟩
    refine ⟨before, after, rfl, hquiet, ?_⟩
    by_contra hnone
    apply hnot
    refine ⟨before, _, after, rfl, rfl, ?_⟩
    rintro event hevent (hsettle | hdetach)
    · exact hquiet event hevent hsettle
    · exact hnone ⟨event, hevent, hdetach⟩

/-! ### The two folds -/

/-- The events of the deltas, as a replay applies them. -/
def callsOf (clearOnSession : Bool) (deltas : List EventDelta) : List (RustcEvent × Bool) :=
  deltas.map fun delta => (delta.event, clearOnSession)

/-- What the last delta of a session is about. -/
structure OneSession.Last (computeInvariantHash : Nat → Nat → Nat → String)
    (deltas : List EventDelta) (delta : EventDelta) : Prop where
  accepted : Accepted ((rustcMachine computeInvariantHash).run emptyState deltas) delta
  endsKnown : EndsKnown ((rustcMachine computeInvariantHash).run emptyState deltas) delta
  named : ∀ name ∈ namesOf delta.event, name ≠ ""
  first : delta.event.isSessionStart = true → deltas = []

theorem OneSession.snoc {delta : EventDelta}
    (h : OneSession computeInvariantHash (deltas ++ [delta])) :
    OneSession computeInvariantHash deltas ∧
      OneSession.Last computeInvariantHash deltas delta := by
  have hacc := (Machine.along_snoc _ _ _ _ _).mp h.accepted
  have hends := (Machine.along_snoc _ _ _ _ _).mp h.endsKnown
  refine ⟨⟨?_, fun d hd => h.named d (by simp [hd]), hacc.1, hends.1⟩,
    ⟨hacc.2, hends.2, h.named delta (by simp), ?_⟩⟩
  · intro d hd
    apply h.single d
    cases deltas with
    | nil => cases hd
    | cons first rest => simpa using .inl hd
  · intro hstart
    cases deltas with
    | nil => rfl
    | cons first rest =>
      have hfalse := h.single delta (by simp)
      rw [hstart] at hfalse
      cases hfalse

theorem lookup_addSymbol (state : RustcState) (symbol kind s : String) :
    (state.addSymbol symbol kind).knownSymbols.lookup s =
      if s = symbol then some kind else state.knownSymbols.lookup s := by
  unfold RustcState.addSymbol
  split
  · rename_i hs
    rw [hs, Finmap.lookup_insert]
  · rename_i hs
    rw [Finmap.lookup_insert_of_ne _ hs]

/-- A node event, and both folds. -/
theorem symbols_of_putNode {g : SymbolGraph}
    (h : ∀ s, state.knownSymbols.lookup s = (g.nodes s).map (·.kind)) {symbol kind : String}
    (hnamed : ∀ name ∈ [symbol, kind], name ≠ "") (file : String) (line : Nat) (s : String) :
    (state.addSymbol symbol kind).knownSymbols.lookup s =
      ((g.putNode symbol kind file line).nodes s).map (·.kind) := by
  rw [lookup_addSymbol, g.putNode_nodes (hnamed symbol (by simp)) (hnamed kind (by simp))]
  split
  · rfl
  · exact h s

theorem symbols_applyEvent {g : SymbolGraph} {event : RustcEvent}
    (h : ∀ s, state.knownSymbols.lookup s = (g.nodes s).map (·.kind))
    (hnamed : ∀ name ∈ namesOf event, name ≠ "") (hfirst : event.isSessionStart = true → g = .empty)
    (clearOnSession : Bool) (s : String) :
    (state.applyEvent event).knownSymbols.lookup s =
      ((g.apply event clearOnSession).nodes s).map (·.kind) := by
  cases event with
  | nodeDefined symbol kind file line => exact symbols_of_putNode h hnamed file line s
  | nodeUpdated symbol kind file line => exact symbols_of_putNode h hnamed file line s
  | nodeRemoved symbol =>
    show (state.knownSymbols.erase symbol).lookup s = ((g.nodes.erase symbol) s).map (·.kind)
    rw [FMap.erase_apply]
    split
    · rename_i hs
      rw [hs, Finmap.lookup_erase]
      rfl
    · rename_i hs
      rw [Finmap.lookup_erase_ne hs]
      exact h s
  | edgeDefined src dst kind =>
    show state.knownSymbols.lookup s = ((g.addEdge src dst kind).nodes s).map (·.kind)
    rw [g.addEdge_nodes]
    exact h s
  | edgeRemoved src dst kind => exact h s
  | sessionStart project =>
    have hempty : g.apply (.sessionStart project) clearOnSession = .empty := by
      rw [hfirst rfl]
      cases clearOnSession <;> rfl
    rw [hempty]
    rfl
  | fileSeen _ => exact h s
  | compilationUnitFinished => exact h s
  | callsiteObserved | symbolDefined | spanDefined | panicCaptured | warningCaptured
  | invariantViolation => exact h s

/-- Both folds know the same symbols, of the same kinds. -/
theorem OneSession.symbols_agree (h : OneSession computeInvariantHash deltas)
    (clearOnSession : Bool) (s : String) :
    ((rustcMachine computeInvariantHash).run emptyState deltas).knownSymbols.lookup s =
      ((symbolMachine.run .empty (callsOf clearOnSession deltas)).nodes s).map (·.kind) := by
  induction deltas using List.reverseRecOn generalizing s with
  | nil => rfl
  | append_singleton deltas delta ih =>
    obtain ⟨hinit, hlast⟩ := h.snoc
    rw [Machine.run_snoc, (step_of_accepted hlast.accepted).knownSymbols, callsOf, List.map_append,
      List.map_singleton, Machine.run_snoc]
    refine symbols_applyEvent (ih hinit) hlast.named ?_ clearOnSession s
    intro hstart
    rw [hlast.first hstart]
    rfl

theorem mem_applyEvent_knownEdges (state : RustcState) (event : RustcEvent)
    (edge : SymbolEdge) :
    edge ∈ (state.applyEvent event).knownEdges ↔
      Defines edge event ∨ (¬ Settles edge event ∧ edge ∈ state.knownEdges) := by
  obtain ⟨esrc, edst, ekind⟩ := edge
  cases event with
  | edgeDefined src dst kind =>
    simp only [RustcState.applyEvent, Defines, Settles, List.mem_append, List.mem_singleton,
      Prod.mk.injEq, RustcEvent.edgeDefined.injEq, RustcEvent.isSessionStart]
    grind
  | edgeRemoved src dst kind =>
    simp only [RustcState.applyEvent, Defines, Settles, List.mem_filter, decide_eq_true_eq, ne_eq,
      Prod.mk.injEq, RustcEvent.edgeRemoved.injEq, RustcEvent.isSessionStart]
    grind
  | sessionStart project =>
    simp [RustcState.applyEvent, Defines, Settles, RustcEvent.isSessionStart]
  | nodeDefined symbol kind file line =>
    simp [RustcState.applyEvent, RustcState.addSymbol, Defines, Settles, RustcEvent.isSessionStart]
  | nodeUpdated symbol kind file line =>
    simp [RustcState.applyEvent, RustcState.addSymbol, Defines, Settles, RustcEvent.isSessionStart]
  | nodeRemoved symbol => simp [RustcState.applyEvent, Defines, Settles, RustcEvent.isSessionStart]
  | fileSeen path => simp [RustcState.applyEvent, Defines, Settles, RustcEvent.isSessionStart]
  | callsiteObserved | symbolDefined | spanDefined | panicCaptured | warningCaptured
  | compilationUnitFinished | invariantViolation =>
    simp [RustcState.applyEvent, Defines, Settles, RustcEvent.isSessionStart]

/-- The runtime state knows an edge as long as no event settles it otherwise. -/
theorem OneSession.mem_knownEdges (h : OneSession computeInvariantHash deltas) (edge : SymbolEdge) :
    edge ∈ ((rustcMachine computeInvariantHash).run emptyState deltas).knownEdges ↔
      Machine.Since (Defines edge) (Settles edge) (deltas.map (·.event)) := by
  induction deltas using List.reverseRecOn with
  | nil => simp [emptyState]
  | append_singleton deltas delta ih =>
    obtain ⟨hinit, hlast⟩ := h.snoc
    rw [Machine.run_snoc, (step_of_accepted hlast.accepted).knownEdges,
      mem_applyEvent_knownEdges, ih hinit, List.map_append, List.map_singleton,
      Machine.since_snoc]

theorem mem_apply_edges {g : SymbolGraph} {event : RustcEvent}
    (hends : ∀ symbol ∈ endsOf event, (g.nodes symbol).isSome)
    (hfirst : event.isSessionStart = true → g = .empty) (clearOnSession : Bool)
    (edge : SymbolEdge) :
    edge ∈ (g.apply event clearOnSession).edges ↔
      Defines edge event ∨
        (¬ (Settles edge event ∨ Detaches edge event) ∧ edge ∈ g.edges) := by
  obtain ⟨esrc, edst, ekind⟩ := edge
  cases event with
  | edgeDefined src dst kind =>
    have hadd : g.apply (.edgeDefined src dst kind) clearOnSession =
        { g with edges := (src, dst, kind) ::ₘ g.edges } :=
      if_pos ⟨hends src (by simp [endsOf]), hends dst (by simp [endsOf])⟩
    rw [hadd]
    simp only [Defines, Settles, Detaches, Multiset.mem_cons, Prod.mk.injEq,
      RustcEvent.edgeDefined.injEq, RustcEvent.isSessionStart]
    grind
  | edgeRemoved src dst kind =>
    simp only [SymbolGraph.apply, SymbolGraph.removeEdge, Defines, Settles, Detaches,
      Multiset.mem_filter, ne_eq, Prod.mk.injEq, RustcEvent.edgeRemoved.injEq,
        RustcEvent.isSessionStart]
    grind
  | nodeRemoved symbol =>
    simp only [SymbolGraph.apply, SymbolGraph.removeNode, Defines, Settles, Detaches,
      Multiset.mem_filter, ne_eq, RustcEvent.nodeRemoved.injEq, RustcEvent.isSessionStart]
    grind
  | sessionStart project =>
    have hempty : g.apply (.sessionStart project) clearOnSession = .empty := by
      rw [hfirst rfl]
      cases clearOnSession <;> rfl
    rw [hempty]
    simp [SymbolGraph.empty, Defines, Settles, RustcEvent.isSessionStart]
  | nodeDefined symbol kind file line =>
    simp [SymbolGraph.apply, Defines, Settles, Detaches, RustcEvent.isSessionStart]
  | nodeUpdated symbol kind file line =>
    simp [SymbolGraph.apply, Defines, Settles, Detaches, RustcEvent.isSessionStart]
  | fileSeen path => simp [SymbolGraph.apply, Defines, Settles, Detaches, RustcEvent.isSessionStart]
  | callsiteObserved | symbolDefined | spanDefined | panicCaptured | warningCaptured
  | compilationUnitFinished | invariantViolation =>
    simp [SymbolGraph.apply, Defines, Settles, Detaches, RustcEvent.isSessionStart]

/-- The graph of symbols forgets an edge also when a node at one of its ends goes. -/
theorem OneSession.mem_symbol_edges (h : OneSession computeInvariantHash deltas)
    (clearOnSession : Bool) (edge : SymbolEdge) :
    edge ∈ (symbolMachine.run .empty (callsOf clearOnSession deltas)).edges ↔
      Machine.Since (Defines edge) (fun event => Settles edge event ∨ Detaches edge event)
        (deltas.map (·.event)) := by
  induction deltas using List.reverseRecOn with
  | nil => simp [callsOf, SymbolGraph.empty]
  | append_singleton deltas delta ih =>
    obtain ⟨hinit, hlast⟩ := h.snoc
    rw [List.map_append, List.map_singleton, Machine.since_snoc, ← ih hinit, callsOf,
      List.map_append, List.map_singleton, Machine.run_snoc]
    refine mem_apply_edges ?_ ?_ clearOnSession edge
    · intro symbol hsymbol
      -- The folds agree on the symbols, so the ends are nodes of the graph as well.
      obtain ⟨kind, hkind⟩ := Finmap.mem_iff.mp (hlast.endsKnown symbol hsymbol)
      rw [hinit.symbols_agree clearOnSession] at hkind
      rw [Option.map_eq_some_iff] at hkind
      obtain ⟨data, hdata, -⟩ := hkind
      exact Option.isSome_of_eq_some hdata
    · intro hstart
      rw [hlast.first hstart]
      rfl

/-! ### Agreement -/

/-- The symbols with their kinds, and the set of edges. -/
structure Agrees (state : RustcState) (graph : CodeGraphProjection) : Prop where
  symbols : ∀ symbol, state.knownSymbols.lookup symbol =
    ((abstraction graph).nodes symbol).map (·.kind)
  edges : ∀ edge, edge ∈ state.knownEdges ↔ edge ∈ (abstraction graph).edges

theorem OneSession.agrees_iff (h : OneSession computeInvariantHash deltas) (clearOnSession : Bool)
    (hfits : graphMachine.Along NodeFits .empty (callsOf clearOnSession deltas)) :
    Agrees ((rustcMachine computeInvariantHash).run emptyState deltas)
        (graphMachine.run .empty (callsOf clearOnSession deltas)).graph ↔
      ∀ edge, ¬ Dangling edge (deltas.map (·.event)) := by
  have hsame := projection_sameKinds hfits
  constructor
  · intro hagrees edge
    rw [dangling_iff, ← h.mem_knownEdges, ← h.mem_symbol_edges clearOnSession, ← hsame.edges,
      hagrees.edges edge]
    exact and_not_self
  · intro hnone
    constructor
    · intro symbol
      rw [hsame.kinds]
      exact h.symbols_agree clearOnSession symbol
    · intro edge
      rw [hsame.edges, h.mem_knownEdges, h.mem_symbol_edges clearOnSession]
      have hedge := hnone edge
      rw [dangling_iff] at hedge
      constructor
      · intro hsince
        exact not_not.mp (not_and.mp hedge hsince)
      · rintro ⟨before, a, after, hsplit, hdef, hquiet⟩
        exact ⟨before, a, after, hsplit, hdef, fun b hb hs => hquiet b hb (.inl hs)⟩

end ApplyDelta

/-- **The runtime state and the projection.**  After the events of one session that fit
    into the projection the runtime state knows its symbols and edges, with known and
    removed ones separate all along, exactly if no edge dangles. -/
theorem rustc_state_agrees_iff (computeInvariantHash : Nat → Nat → Nat → String)
    (clearOnSession : Bool) (deltas : List EventDelta)
    (h : OneSession computeInvariantHash deltas)
    (hfits : graphMachine.Along NodeFits .empty (callsOf clearOnSession deltas)) :
    (Agrees ((rustcMachine computeInvariantHash).run emptyState deltas)
        (graphMachine.run .empty (callsOf clearOnSession deltas)).graph ∧
      ∀ taken, taken <+: deltas →
        Separate ((rustcMachine computeInvariantHash).run emptyState taken)) ↔
      ∀ edge, ¬ Dangling edge (deltas.map (·.event)) := by
  rw [← h.agrees_iff clearOnSession hfits]
  constructor
  · exact And.left
  · intro hagrees
    exact ⟨hagrees, fun taken _ => separate_run taken⟩

/-- A session that removes the node `b` while the edge from `a` ends there, or first the
    edge and then the node. -/
def callSession (edgeFirst : Bool) : List EventDelta :=
  [⟨0, 0, .sessionStart "app"⟩, ⟨1, 1, .nodeDefined "a" "FN" "" 0⟩,
    ⟨2, 2, .nodeDefined "b" "FN" "" 0⟩, ⟨3, 3, .edgeDefined "a" "b" "calls"⟩] ++
  (if edgeFirst then [⟨4, 4, .edgeRemoved "a" "b" "calls"⟩] else []) ++
  [⟨5, 5, .nodeRemoved "b"⟩]

theorem callSession_oneSession (edgeFirst : Bool) :
    OneSession (fun _ _ _ => "") (callSession edgeFirst) where
  single := by cases edgeFirst <;> decide
  named := by cases edgeFirst <;> decide
  accepted := by cases edgeFirst <;> decide +kernel
  endsKnown := by cases edgeFirst <;> decide +kernel

theorem edge_removed_first_agrees :
    OneSession (fun _ _ _ => "") (callSession true) ∧
      Agrees ((rustcMachine fun _ _ _ => "").run emptyState (callSession true))
        (graphMachine.run .empty (callsOf true (callSession true))).graph := by
  refine ⟨callSession_oneSession true, ?_⟩
  refine ((rustc_state_agrees_iff _ true _ (callSession_oneSession true) ?_).mpr ?_).1
  · simp only [callSession, callsOf]
    refine ⟨?_, ?_, ?_, ?_, ?_, ?_, trivial⟩
    · intro _ _ hnode
      cases hnode
    · intro _ _ _ _
      decide +kernel
    · intro _ _ _ _
      decide +kernel
    all_goals
      intro _ _ hnode
      cases hnode
  rintro edge ⟨before, after, hsplit, hquiet, -⟩
  -- The only definition of an edge is the fourth event, and its removal follows.
  rcases before with _ | ⟨_, _ | ⟨_, _ | ⟨_, _ | ⟨_, _ | ⟨_, _ | ⟨_, before⟩⟩⟩⟩⟩⟩ <;>
    simp [callSession] at hsplit
  obtain ⟨-, -, -, ⟨hsrc, hdst, hkind⟩, rfl⟩ := hsplit
  refine hquiet (.edgeRemoved "a" "b" "calls") (by simp) (.inr (.inl ?_))
  rw [← hsrc, ← hdst, ← hkind]

/-- The edge to `b` is still known, although the projection has none. -/
theorem removed_node_keeps_edge :
    OneSession (fun _ _ _ => "") (callSession false) ∧
      ¬ Agrees ((rustcMachine fun _ _ _ => "").run emptyState (callSession false))
        (graphMachine.run .empty (callsOf true (callSession false))).graph := by
  refine ⟨callSession_oneSession false, ?_⟩
  intro hagrees
  have hknown : ("a", "b", "calls") ∈
      ((rustcMachine fun _ _ _ => "").run emptyState (callSession false)).knownEdges := by
    decide +kernel
  have hgraph : (graphMachine.run .empty (callsOf true (callSession false))).graph.edges = [] := by
    decide +kernel
  have hmem := (hagrees.edges _).mp hknown
  simp [abstraction, hgraph] at hmem

end Canon.Runtime
