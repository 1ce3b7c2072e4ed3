import Canon.Tlog.Layout
import Canon.Graph.Incremental

/-! # JSON lines and segments

    `replay_graph_from_tlog` on a file of JSON lines and on a directory of segments
    that hold the same events.  From JSON lines it takes one session: the last one that
    defines a node or an edge, or the last one if none does.  From segments it takes all
    sessions and clears nothing in between.

    The two results are the same when nothing outside the session that is picked bears
    on the graph, and differ when another session has a symbol of its own.
-/

namespace Canon.Graph

open Canon.Tlog

/-! ### Replay of a directory -/

/-- The files of a directory whose names are numbers, in the order the directory lists
    them; those with the lower numbers come first. -/
def readAnyEventsFromPath (S : Serde) (files : FileTable) : List CanonEvent :=
  files.sorted.flatMap fun file => readBinaryEvents S file.2

/-- The branch of `replay_graph_from_tlog` for a directory. -/
def replayGraphFromSegments (S : GraphSerde) (files : FileTable) : CodeGraphProjection :=
  let events := (readAnyEventsFromPath S.toSerde files).filterMap (extractRustcEvent S)
  (graphMachine.run .empty (events.map (·, false))).graph

/-! ### Outside the session -/

/-- The event leaves something in an empty graph. -/
def RustcEvent.builds : RustcEvent → Bool
  | .nodeDefined symbol kind _ _ => countsAsNode symbol kind
  | .nodeUpdated symbol kind _ _ => countsAsNode symbol kind
  | .fileSeen path => !path.isEmpty
  | _ => false

def RustcEvent.nodeSymbol : RustcEvent → Option String
  | .nodeDefined symbol _ _ _ => some symbol
  | .nodeUpdated symbol _ _ _ => some symbol
  | _ => none

def symbolsOf (es : List RustcEvent) : List String := es.filterMap (·.nodeSymbol)

/-- The event is about the graph that a session with these symbols leaves. -/
def RustcEvent.reaches (symbols : List String) : RustcEvent → Bool
  | .nodeDefined symbol kind _ _ => countsAsNode symbol kind
  | .nodeUpdated symbol kind _ _ => countsAsNode symbol kind
  | .nodeRemoved symbol => symbols.contains symbol
  | .edgeDefined src dst _ => symbols.contains src && symbols.contains dst
  | .edgeRemoved src dst _ => symbols.contains src && symbols.contains dst
  | _ => false

/-- Nothing before the session leaves a trace, and nothing after it is about its graph. -/
structure Around.Alone (a : Around) : Prop where
  before : ∀ e ∈ a.before, e.builds = false
  after : ∀ e ∈ a.after, e.reaches (symbolsOf a.session) = false

/-- A symbol that only the other sessions define, and that stays. -/
structure Around.Foreign (a : Around) (symbol : String) : Prop where
  defined : ∃ e ∈ a.outside, e.nodeSymbol = some symbol ∧ e.builds = true
  named : symbol ≠ ""
  absent : symbol ∉ symbolsOf a.session
  kept : ∀ e ∈ a.before ++ a.session ++ a.after, e ≠ .nodeRemoved symbol

section Outside

variable {es : List RustcEvent} {st : GraphState}

/-- The flag only matters at a session. -/
theorem run_of_noSession (h : NoSession es) (st : GraphState) (clear : Bool) :
    graphMachine.run st (es.map (·, clear)) = replayFrom st es := by
  induction es generalizing st with
  | nil => rfl
  | cons e es ih =>
    have he : e.isSessionStart = false := h e (by simp)
    have hstep : graphMachine.step st (e, clear) = graphMachine.step st (e, true) := by
      cases e <;> first | rfl | cases he
    rw [List.map_cons, Machine.run_cons, hstep]
    exact ih (fun e' he' => h e' (by simp [he'])) _

/-- Nor does it matter at a session that the graph is still empty for. -/
theorem run_of_noSession_tail (h : NoSession es.tail) (clear : Bool) :
    graphMachine.run .empty (es.map (·, clear)) = replayFrom .empty es := by
  cases es with
  | nil => rfl
  | cons e es =>
    have hstep : graphMachine.step .empty (e, clear) = graphMachine.step .empty (e, true) := by
      cases e <;> cases clear <;> rfl
    rw [List.map_cons, Machine.run_cons, hstep]
    exact run_of_noSession h _ clear

theorem step_of_not_builds {e : RustcEvent} (h : e.builds = false) :
    graphMachine.step .empty (e, false) = .empty := by
  cases e with
  | nodeDefined symbol kind file line => exact applyNode_of_not_counts h _ file line
  | nodeUpdated symbol kind file line => exact applyNode_of_not_counts h _ file line
  | fileSeen path =>
    have hpath : path = "" := by simpa [RustcEvent.builds] using h
    rw [hpath]
    rfl
  | _ => rfl

theorem run_of_not_builds (h : ∀ e ∈ es, e.builds = false) :
    graphMachine.run .empty (es.map (·, false)) = .empty := by
  induction es with
  | nil => rfl
  | cons e es ih =>
    rw [List.map_cons, Machine.run_cons, step_of_not_builds (h e (by simp))]
    exact ih fun e' he' => h e' (by simp [he'])

/-- Nodes, edges and index; files may come on top. -/
structure Untouched (st st' : GraphState) : Prop where
  nodes : st'.graph.nodes = st.graph.nodes
  edges : st'.graph.edges = st.graph.edges
  index : st'.symbolToId = st.symbolToId

theorem Untouched.trans {st st' st'' : GraphState} (h : Untouched st st')
    (h' : Untouched st' st'') : Untouched st st'' :=
  ⟨h'.nodes.trans h.nodes, h'.edges.trans h.edges, h'.index.trans h.index⟩

/-- An event that does not reach the symbols of the index changes no node and no edge. -/
theorem untouched_step {symbols : List String}
    (hindex : ∀ symbol, (st.symbolToId symbol).isSome → symbol ∈ symbols) {e : RustcEvent}
    (h : e.reaches symbols = false) : Untouched st (graphMachine.step st (e, false)) := by
  have hends : ∀ src dst, (symbols.contains src && symbols.contains dst) = false →
      st.ends src dst = none := by
    intro src dst hout
    cases hs : st.ends src dst with
    | none => rfl
    | some ids =>
      obtain ⟨s, d⟩ := ids
      obtain ⟨hsrc, hdst⟩ := GraphState.ends_eq_some.mp hs
      have hsrc' := hindex src (by rw [hsrc]; rfl)
      have hdst' := hindex dst (by rw [hdst]; rfl)
      simp [hsrc', hdst'] at hout
  cases e with
  | nodeDefined symbol kind file line =>
    show Untouched st (applyNode st symbol kind file line).2
    rw [applyNode_of_not_counts h]
    exact ⟨rfl, rfl, rfl⟩
  | nodeUpdated symbol kind file line =>
    show Untouched st (applyNode st symbol kind file line).2
    rw [applyNode_of_not_counts h]
    exact ⟨rfl, rfl, rfl⟩
  | nodeRemoved symbol =>
    have hnone : st.symbolToId symbol = none := by
      cases hs : st.symbolToId symbol with
      | none => rfl
      | some id =>
        have hin := hindex symbol (by rw [hs]; rfl)
        simp [RustcEvent.reaches, hin] at h
    simp only [graphMachine, applyRustcEventToGraph, hnone]
    exact ⟨rfl, rfl, rfl⟩
  | edgeDefined src dst kind =>
    simp only [graphMachine, applyRustcEventToGraph, hends src dst h]
    exact ⟨rfl, rfl, rfl⟩
  | edgeRemoved src dst kind =>
    simp only [graphMachine, applyRustcEventToGraph, hends src dst h]
    exact ⟨rfl, rfl, rfl⟩
  | fileSeen path =>
    simp only [graphMachine, applyRustcEventToGraph]
    split <;> exact ⟨rfl, rfl, rfl⟩
  | sessionStart _ | callsiteObserved | symbolDefined | spanDefined | panicCaptured
  | warningCaptured | compilationUnitFinished | invariantViolation => exact ⟨rfl, rfl, rfl⟩

theorem untouched_run {symbols : List String}
    (hindex : ∀ symbol, (st.symbolToId symbol).isSome → symbol ∈ symbols)
    (h : ∀ e ∈ es, e.reaches symbols = false) :
    Untouched st (graphMachine.run st (es.map (·, false))) := by
  induction es generalizing st with
  | nil => exact ⟨rfl, rfl, rfl⟩
  | cons e es ih =>
    have hstep := untouched_step hindex (h e (by simp))
    refine hstep.trans (ih ?_ fun e' he' => h e' (by simp [he']))
    intro symbol
    rw [hstep.index]
    exact hindex symbol

/-! ### Symbols of a run -/

/-- Nodes and index have these symbols only. -/
structure Mentions (symbols : List String) (st : GraphState) : Prop where
  nodes : ∀ n ∈ st.graph.nodes, n.symbol ∈ symbols
  index : ∀ symbol, (st.symbolToId symbol).isSome → symbol ∈ symbols

section Mentions

variable {symbols : List String}

theorem Mentions.empty : Mentions symbols .empty where
  nodes := by simp [GraphState.empty, CodeGraphProjection.default]
  index := by simp [GraphState.empty]

theorem Mentions.applyNode (h : Mentions symbols st) {symbol : String} (hmem : symbol ∈ symbols)
    (kind file : String) (line : Nat) :
    Mentions symbols (applyNode st symbol kind file line).2 := by
  rcases applyNode_cases st symbol kind file line with
    ⟨-, heq⟩ | ⟨-, ⟨id, node, hfind, heq⟩ | ⟨-, heq⟩⟩
  · rw [heq]
    exact h
  · rw [heq]
    refine ⟨?_, h.index⟩
    intro n hn
    rcases List.mem_or_eq_of_mem_set hn with hold | rfl
    · exact h.nodes n hold
    · exact h.nodes node (List.mem_of_getElem? (getElem?_of_findNode hfind))
  · rw [heq]
    constructor
    · intro n hn
      rcases List.mem_append.mp hn with hold | hlast
      · exact h.nodes n hold
      · rw [List.mem_singleton.mp hlast]
        exact hmem
    · intro s hs
      by_cases hsymbol : s = symbol
      · rw [hsymbol]
        exact hmem
      · apply h.index s
        simp only [pushNode] at hs
        split at hs
        · exact hs
        · simpa [hsymbol] using hs

theorem Mentions.deleteNode (h : Mentions symbols st) (id : Nat) :
    Mentions symbols (deleteNode st id).2 := by
  cases hget : st.graph.nodes[id]? with
  | none =>
    simp only [Canon.Graph.deleteNode, hget]
    exact h
  | some removed =>
    obtain ⟨front, last, hnodes, -⟩ := exists_concat_of_getElem? hget
    have hlast : last.symbol ∈ symbols := h.nodes last (by simp [hnodes])
    rw [deleteNode_eq hnodes hget]
    constructor
    · intro n hn
      rcases List.mem_or_eq_of_mem_set hn with hold | rfl
      · exact h.nodes n (by rw [hnodes]; exact List.mem_append_left _ hold)
      · exact hlast
    · intro s hs
      dsimp only at hs
      split at hs
      · rename_i hmoved
        exact hmoved.1 ▸ hlast
      · split at hs
        · cases hs
        · exact h.index s hs

theorem Mentions.step (h : Mentions symbols st) {e : RustcEvent}
    (he : ∀ symbol, e.nodeSymbol = some symbol → symbol ∈ symbols) (clear : Bool) :
    Mentions symbols (graphMachine.step st (e, clear)) := by
  show Mentions symbols (applyRustcEventToGraph e st clear).2
  unfold applyRustcEventToGraph
  cases e with
  | sessionStart project =>
    cases clear with
    | true => exact .empty
    | false => exact h
  | nodeDefined symbol kind file line => exact h.applyNode (he symbol rfl) kind file line
  | nodeUpdated symbol kind file line => exact h.applyNode (he symbol rfl) kind file line
  | nodeRemoved symbol =>
    simp only
    split
    · exact h
    · exact h.deleteNode _
  | edgeDefined src dst kind | edgeRemoved src dst kind =>
    simp only
    split
    · exact h
    · exact ⟨h.nodes, h.index⟩
  | fileSeen path =>
    simp only
    split
    · exact h
    · exact ⟨h.nodes, h.index⟩
  | callsiteObserved | symbolDefined | spanDefined | panicCaptured | warningCaptured
  | compilationUnitFinished | invariantViolation => exact h

theorem Mentions.replayFrom (h : Mentions symbols st)
    (hes : ∀ e ∈ es, ∀ symbol, e.nodeSymbol = some symbol → symbol ∈ symbols) :
    Mentions symbols (replayFrom st es) := by
  induction es generalizing st with
  | nil => exact h
  | cons e es ih =>
    exact ih (h.step (hes e (by simp)) true) fun e' he' => hes e' (by simp [he'])

/-- A symbol of a replay was defined. -/
theorem mentions_replayFrom (es : List RustcEvent) :
    Mentions (symbolsOf es) (Canon.Graph.replayFrom .empty es) :=
  Mentions.empty.replayFrom fun e he _ hsymbol => List.mem_filterMap.mpr ⟨e, he, hsymbol⟩

end Mentions

/-- A node event gives its symbol an entry. -/
theorem isSome_putNode (g : SymbolGraph) {symbol kind : String} (hcount : countsAsNode symbol kind)
    (hnamed : symbol ≠ "") (file : String) (line : Nat) :
    ((g.putNode symbol kind file line).nodes symbol).isSome := by
  have hkind : kind ≠ "" := by
    rintro rfl
    simp [countsAsNode] at hcount
  rw [g.putNode_nodes hnamed hkind, if_pos rfl]
  rfl

theorem isSome_apply_of_builds (g : SymbolGraph) {e : RustcEvent} {symbol : String}
    (he : e.nodeSymbol = some symbol) (hbuilds : e.builds = true) (hnamed : symbol ≠ "")
    (clear : Bool) : ((g.apply e clear).nodes symbol).isSome := by
  cases e with
  | nodeDefined other kind file line =>
    obtain rfl := Option.some.inj he
    exact isSome_putNode g hbuilds hnamed file line
  | nodeUpdated other kind file line =>
    obtain rfl := Option.some.inj he
    exact isSome_putNode g hbuilds hnamed file line
  | _ => cases he

/-- As long as no session clears, only its removal takes the entry of a symbol. -/
theorem isSome_apply {g : SymbolGraph} {e : RustcEvent} {symbol : String}
    (h : (g.nodes symbol).isSome) (he : e ≠ .nodeRemoved symbol) :
    ((g.apply e false).nodes symbol).isSome := by
  have hput : ∀ other kind file line,
      ((g.putNode other kind file line).nodes symbol).isSome := by
    intro other kind file line
    unfold SymbolGraph.putNode
    split
    · exact h
    · by_cases hs : symbol = other
      · simp [hs]
      · simpa [FMap.insert_apply, hs] using h
  cases e with
  | nodeDefined other kind file line => exact hput other kind file line
  | nodeUpdated other kind file line => exact hput other kind file line
  | nodeRemoved other =>
    have hne : symbol ≠ other := fun heq => he (by rw [heq])
    simpa [SymbolGraph.apply, SymbolGraph.removeNode, FMap.erase_apply, hne] using h
  | edgeDefined src dst kind =>
    simp only [SymbolGraph.apply, g.addEdge_nodes]
    exact h
  | sessionStart _ => exact h
  | edgeRemoved _ _ _ => exact h
  | fileSeen _ => exact h
  | callsiteObserved | symbolDefined | spanDefined | panicCaptured | warningCaptured
  | compilationUnitFinished | invariantViolation => exact h

/-- A symbol that is defined and never removed has an entry. -/
theorem isSome_run {symbol : String} (hnamed : symbol ≠ "")
    (hdefined : ∃ e ∈ es, e.nodeSymbol = some symbol ∧ e.builds = true)
    (hkept : ∀ e ∈ es, e ≠ .nodeRemoved symbol) :
    ((symbolMachine.run .empty (es.map (·, false))).nodes symbol).isSome := by
  induction es using List.reverseRecOn with
  | nil =>
    obtain ⟨e, he, -⟩ := hdefined
    cases he
  | append_singleton es e ih =>
    rw [List.map_append, List.map_singleton, Machine.run_snoc]
    obtain ⟨e', he', hsymbol, hbuilds⟩ := hdefined
    rcases List.mem_append.mp he' with he' | he'
    · refine isSome_apply (ih ⟨e', he', hsymbol, hbuilds⟩ ?_) (hkept e (by simp))
      intro e'' he''
      exact hkept e'' (by simp [he''])
    · obtain rfl := List.mem_singleton.mp he'
      exact isSome_apply_of_builds _ hsymbol hbuilds hnamed false

end Outside

/-! ### Agreement -/

/-- Both replays succeed, with the same nodes and edges. -/
def FormatsAgree (S : GraphSerde) (lines : List LogLine) (files : FileTable) : Prop :=
  ∃ g, replayGraphFromTlog S none (fileOf lines) = some g ∧
    g.nodes = (replayGraphFromSegments S files).nodes ∧
    g.edges = (replayGraphFromSegments S files).edges

section Agreement

variable {S : GraphSerde} {lines : List LogLine} {files : FileTable} {es : List RustcEvent}

theorem events_eq_filterMap (S : GraphSerde) (lines : List LogLine) :
    S.events lines =
      (lines.filterMap fun l => parseAnyEvent S l.text).filterMap (extractRustcEvent S) := by
  rw [List.filterMap_filterMap]
  rfl

/-- All code events, front to back, with no session clearing the graph. -/
theorem formatsAgree_iff (hbin : isBinaryMagic (fileOf lines) = false)
    (hlines : S.events lines = es)
    (hfiles : (readAnyEventsFromPath S.toSerde files).filterMap (extractRustcEvent S) = es) :
    FormatsAgree S lines files ↔
      (replayFrom .empty (pickedSession es).session).graph.nodes =
          (graphMachine.run .empty (es.map (·, false))).graph.nodes ∧
        (replayFrom .empty (pickedSession es).session).graph.edges =
          (graphMachine.run .empty (es.map (·, false))).graph.edges := by
  have hsegments : replayGraphFromSegments S files =
      (graphMachine.run .empty (es.map (·, false))).graph := by
    rw [replayGraphFromSegments, hfiles]
  rw [FormatsAgree, replayGraphFromTlog_eq_picked hbin, hlines, hsegments]
  constructor
  · rintro ⟨g, hg, hsame⟩
    obtain rfl := Option.some.inj hg
    exact hsame
  · intro hsame
    exact ⟨_, rfl, hsame⟩

/-- What the other sessions do does not show. -/
theorem untouched_of_alone (h : (pickedSession es).Alone) :
    Untouched (replayFrom .empty (pickedSession es).session)
      (graphMachine.run .empty (es.map (·, false))) := by
  obtain ⟨hsplit, hno⟩ := pickedSession_split es
  have hrun : graphMachine.run .empty (es.map (·, false)) =
      graphMachine.run (replayFrom .empty (pickedSession es).session)
        ((pickedSession es).after.map (·, false)) := by
    rw [← run_of_noSession_tail hno false]
    conv_lhs => rw [hsplit, List.map_append, List.map_append, Machine.run_append,
      Machine.run_append, run_of_not_builds h.before]
  rw [hrun]
  exact untouched_run (mentions_replayFrom _).index h.after

/-- A node of another session is missing from JSON lines. -/
theorem nodes_ne_of_foreign {symbol : String} (h : (pickedSession es).Foreign symbol)
    (hfits : graphMachine.Along NodeFits .empty (es.map (·, false))) :
    (replayFrom .empty (pickedSession es).session).graph.nodes ≠
      (graphMachine.run .empty (es.map (·, false))).graph.nodes := by
  intro hnodes
  obtain ⟨hsplit, -⟩ := pickedSession_split es
  have hsome : ((abstraction (graphMachine.run .empty (es.map (·, false))).graph).nodes
      symbol).isSome := by
    rw [(projection_sameKinds hfits).isSome]
    refine isSome_run h.named ?_ ?_
    · obtain ⟨e, he, hdefined⟩ := h.defined
      refine ⟨e, ?_, hdefined⟩
      rw [hsplit]
      rcases List.mem_append.mp he with he | he
      · simp [he]
      · simp [he]
    · intro e he
      rw [hsplit] at he
      exact h.kept e he
  -- So the replay of segments has a node for it.
  simp only [abstraction, if_neg h.named, Option.isSome_map, ← hnodes] at hsome
  obtain ⟨n, hn⟩ := Option.isSome_iff_exists.mp hsome
  have hsymbol : n.symbol = symbol := by simpa using List.find?_some hn
  exact h.absent (hsymbol ▸ (mentions_replayFrom _).nodes n (List.mem_of_find?_eq_some hn))

end Agreement

/-- **JSON lines and segments that hold the same events.**  If nothing outside the
    session that is picked bears on its graph, both replays have the same nodes and edges;
    if a symbol is only defined outside of it and stays, they have not, as long as no
    node number is cut. -/
theorem storage_formats_agree (S : GraphSerde) (events : List CanonEvent)
    (lines : List LogLine) (files : FileTable)
    (hlines : (lines.filterMap fun l => parseAnyEvent S l.text) = events)
    (hbin : isBinaryMagic (fileOf lines) = false)
    (hfiles : readAnyEventsFromPath S.toSerde files = events) :
    ((pickedSession (events.filterMap (extractRustcEvent S))).Alone →
        FormatsAgree S lines files) ∧
      (graphMachine.Along NodeFits .empty
            ((events.filterMap (extractRustcEvent S)).map (·, false)) →
        (∃ symbol, (pickedSession (events.filterMap (extractRustcEvent S))).Foreign symbol) →
          ¬ FormatsAgree S lines files) := by
  have hevents : S.events lines = events.filterMap (extractRustcEvent S) := by
    rw [events_eq_filterMap, hlines]
  have hiff := formatsAgree_iff hbin hevents (by rw [hfiles])
  constructor
  · intro halone
    have hsame := untouched_of_alone halone
    exact hiff.mpr ⟨hsame.nodes.symm, hsame.edges.symm⟩
  · rintro hfits ⟨symbol, hforeign⟩ hagree
    exact nodes_ne_of_foreign hforeign hfits (hiff.mp hagree).1

/-! ### Sample logs -/

/-- The first events of the sample log, in one segment. -/
def sampleFiles (n : Nat) : FileTable :=
  [(0, Seg.bytes
    { base := 0, header := true
      records := ((sampleLog.take n).map (·.1)).map sampleGraphSerde.toSerde.toVec })]

theorem sampleLog_roundTrips {entry : CanonEvent × String} (h : entry ∈ sampleLog) :
    sampleGraphSerde.toStr entry.1 = entry.2.toList ∧
      sampleGraphSerde.toSerde.RoundTrips entry.1 :=
  Serde.ofTable_roundTrips (by decide +kernel) (by decide +kernel) h

theorem sampleLog_fits {entry : CanonEvent × String} (h : entry ∈ sampleLog) :
    RecordFits (sampleGraphSerde.toSerde.toVec entry.1) := by
  have hsizes : ∀ text ∈ sampleLog.map (·.2), text.utf8ByteSize < 2 ^ 30 := by decide +kernel
  apply recordFits_of_lt
  rw [Serde.toVec, (sampleLog_roundTrips h).1]
  exact (utf8Len_toList _).trans_lt (hsizes _ (List.mem_map_of_mem h))

theorem sampleFiles_events (n : Nat) :
    readAnyEventsFromPath sampleGraphSerde.toSerde (sampleFiles n) =
      (sampleLog.take n).map (·.1) := by
  have hholds : Holds { log := sampleFiles n, idx := [], time := [] }
      [{ base := 0, header := true
         records := ((sampleLog.take n).map (·.1)).map sampleGraphSerde.toSerde.toVec }] := by
    refine ⟨rfl, by simp, ?_⟩
    intro seg hseg p hp
    rw [List.mem_singleton.mp hseg, List.map_map] at hp
    obtain ⟨entry, hentry, rfl⟩ := List.mem_map.mp hp
    exact sampleLog_fits (List.mem_of_mem_take hentry)
  have hread := @readSegments_of_holds sampleGraphSerde.toSerde _ _ hholds
  rw [recordsOf_singleton, filterMap_decodeRecord] at hread
  · exact hread
  · intro e he
    obtain ⟨entry, hentry, rfl⟩ := List.mem_map.mp he
    exact (sampleLog_roundTrips (List.mem_of_mem_take hentry)).2

theorem two_lines_parse {S : GraphSerde} {first second : LogLine} {e e' : CanonEvent}
    (h : parseAnyEvent S first.text = some e) (h' : parseAnyEvent S second.text = some e') :
    ([first, second].filterMap fun l => parseAnyEvent S l.text) = [e, e'] := by
  simp [h, h']

theorem sampleBefore_parse :
    (sampleBefore.filterMap fun l => parseAnyEvent sampleGraphSerde l.text) =
      (sampleLog.take 2).map (·.1) :=
  two_lines_parse (sampleLine_parse (sessionData "p") (.head _) _)
    (sampleLine_parse (nodeData "x") (.tail _ (.head _)) _)

theorem sampleAfter_parse :
    ([secondSession, secondNode].filterMap fun l => parseAnyEvent sampleGraphSerde l.text) =
      (sampleLog.drop 2).map (·.1) :=
  two_lines_parse (sampleLine_parse (sessionData "q") (.tail _ (.tail _ (.head _))) _)
    (sampleLine_parse (nodeData "y") (.tail _ (.tail _ (.tail _ (.head _)))) _)

/-- The second session has nothing yet, and both formats give the nodes of the first. -/
theorem storage_formats_agree_empty_session :
    FormatsAgree sampleGraphSerde (sampleBefore ++ [secondSession]) (sampleFiles 3) := by
  have hlines : ((sampleBefore ++ [secondSession]).filterMap fun l =>
      parseAnyEvent sampleGraphSerde l.text) = (sampleLog.take 3).map (·.1) := by
    have hsession : parseAnyEvent sampleGraphSerde secondSession.text =
        some (sampleEvent "s2" .code 3 (sessionData "q")) :=
      sampleLine_parse (sessionData "q") (.tail _ (.tail _ (.head _))) _
    have hlast : ([secondSession].filterMap fun l => parseAnyEvent sampleGraphSerde l.text) =
        [sampleEvent "s2" .code 3 (sessionData "q")] := by
      simp [hsession]
    rw [List.filterMap_append, sampleBefore_parse, hlast]
    rfl
  refine (storage_formats_agree sampleGraphSerde _ (sampleBefore ++ [secondSession])
    (sampleFiles 3) hlines (isBinaryMagic_sample _) (sampleFiles_events 3)).1 ?_
  have hpicked : pickedSession (((sampleLog.take 3).map (·.1)).filterMap
      (extractRustcEvent sampleGraphSerde)) =
      { before := [], session := [.sessionStart "p", .nodeDefined "x" "FN" "" 0]
        after := [.sessionStart "q"] } := by
    decide +kernel
  rw [hpicked]
  exact ⟨by decide, by decide⟩

/-- Two sessions with one node each: JSON lines give `y`, segments give `x` and `y`. -/
theorem second_session_hides_first :
    ((sampleBefore ++ [secondSession, secondNode]).filterMap fun l =>
        parseAnyEvent sampleGraphSerde l.text) = sampleLog.map (·.1) ∧
      readAnyEventsFromPath sampleGraphSerde.toSerde (sampleFiles 4) = sampleLog.map (·.1) ∧
      ¬ FormatsAgree sampleGraphSerde (sampleBefore ++ [secondSession, secondNode])
        (sampleFiles 4) := by
  have hlines : ((sampleBefore ++ [secondSession, secondNode]).filterMap fun l =>
      parseAnyEvent sampleGraphSerde l.text) = sampleLog.map (·.1) := by
    rw [List.filterMap_append, sampleBefore_parse, sampleAfter_parse, ← List.map_append,
      List.take_append_drop]
  have hfiles := sampleFiles_events 4
  refine ⟨hlines, hfiles, ?_⟩
  have hevents : (sampleLog.map (·.1)).filterMap (extractRustcEvent sampleGraphSerde) =
      [.sessionStart "p", .nodeDefined "x" "FN" "" 0, .sessionStart "q",
        .nodeDefined "y" "FN" "" 0] := by
    decide +kernel
  have hbin : isBinaryMagic (fileOf (sampleBefore ++ [secondSession, secondNode])) = false :=
    isBinaryMagic_sample _
  rw [formatsAgree_iff hbin
    (by rw [events_eq_filterMap, hlines, hevents]) (by rw [hfiles]; exact hevents)]
  decide +kernel

end Canon.Graph
