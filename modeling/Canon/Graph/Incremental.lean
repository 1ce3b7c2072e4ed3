import Canon.Graph.Refinement
import Canon.Graph.Sessions

/-! # Incremental against full replay

    The snapshot stands for the front of the log, and the incremental replay adds
    all the rest to it, with every session on the way clearing the graph.  It
    agrees with the full replay of the whole log as long as both end up in the
    same session, and as long as the rebuilt index, which also has an entry for
    nodes without a symbol, is not asked for the empty symbol.
-/

namespace Canon.Graph

open Canon.Tlog

/-! ### Graphs up to numbering -/

/-- The same symbols, node data and edges: some renumbering turns the nodes of one
    graph into those of the other, and its edges into those of the other in some
    order. -/
def SameGraph (g g' : CodeGraphProjection) : Prop :=
  ∃ σ : Equiv.Perm Nat,
    (∀ i, (g.nodes[i]?).map (fun n => (n.symbol, dataOf g.files n)) =
      (g'.nodes[σ i]?).map (fun n => (n.symbol, dataOf g'.files n))) ∧
    (g.edges.map fun e => { e with src := σ e.src, dst := σ e.dst }).Perm g'.edges

/-- Files at the end of the table do not matter to nodes that name earlier ones. -/
theorem SameGraph.of_files {g g' : CodeGraphProjection} {more : List String}
    (hnodes : g'.nodes = g.nodes) (hedges : g'.edges = g.edges)
    (hfiles : g'.files = g.files ++ more)
    (hids : ∀ n ∈ g.nodes, ∀ f, n.fileId = some f → f < g.files.length) : SameGraph g g' := by
  refine ⟨Equiv.refl Nat, ?_, ?_⟩
  · intro i
    rw [hnodes, hfiles, Equiv.refl_apply]
    cases hn : g.nodes[i]? with
    | none => rfl
    | some n =>
      have hdata := dataOf_append (hids n (List.mem_of_getElem? hn)) more
      simp [hdata]
  · simp [hedges]

theorem SameGraph.refl (g : CodeGraphProjection) : SameGraph g g :=
  ⟨Equiv.refl Nat, fun _ => rfl, by simp⟩

/-! ### The rebuilt index -/

/-- The same graph, and indices that differ at most in the empty symbol. -/
structure SameButAnonymous (st st' : GraphState) : Prop where
  graph : st.graph = st'.graph
  index : ∀ symbol, symbol ≠ "" → st.symbolToId symbol = st'.symbolToId symbol

/-- Events that look up the empty symbol in the index. -/
def RustcEvent.namesAnonymous : RustcEvent → Bool
  | .edgeDefined src dst _ | .edgeRemoved src dst _ => src == "" || dst == ""
  | .nodeRemoved symbol => symbol == ""
  | _ => false

/-- Events that touch neither nodes nor edges. -/
def RustcEvent.isInert : RustcEvent → Bool
  | .sessionStart _ | .nodeDefined .. | .nodeUpdated .. | .nodeRemoved _ | .edgeDefined ..
  | .edgeRemoved .. => false
  | _ => true

namespace SameButAnonymous

variable {st st' : GraphState}

theorem findNode (h : SameButAnonymous st st') (symbol : String) :
    st.findNode symbol = st'.findNode symbol := by
  unfold GraphState.findNode
  by_cases hs : symbol = ""
  · simp [hs]
  · rw [h.graph, h.index symbol hs]

theorem applyNode (h : SameButAnonymous st st') (symbol kind file : String) (line : Nat) :
    SameButAnonymous (applyNode st symbol kind file line).2
      (Canon.Graph.applyNode st' symbol kind file line).2 := by
  unfold Canon.Graph.applyNode
  split
  · exact h
  · split
    · exact h
    · rw [h.findNode symbol]
      split
      · exact ⟨by simp [updateNode, h.graph], h.index⟩
      -- A new node is filed under its own symbol on both sides.
      · refine ⟨by simp [pushNode, h.graph], ?_⟩
        intro s hs
        simp only [pushNode, h.graph]
        split
        · exact h.index s hs
        · rw [FMap.insert_apply, FMap.insert_apply, h.index s hs]

theorem ends (h : SameButAnonymous st st') {src dst : String} (hsrc : src ≠ "") (hdst : dst ≠ "") :
    st.ends src dst = st'.ends src dst := by
  rw [GraphState.ends, GraphState.ends, h.index src hsrc, h.index dst hdst]

theorem renumber (h : SameButAnonymous st st') (id : Nat) :
    SameButAnonymous (renumber st id) (Canon.Graph.renumber st' id) := by
  unfold Canon.Graph.renumber
  rw [h.graph]
  split
  · exact h
  · refine ⟨rfl, ?_⟩
    intro s hs
    dsimp only
    split
    · exact h.index s hs
    · rw [FMap.insert_apply, FMap.insert_apply, h.index s hs]

theorem withEdges (h : SameButAnonymous st st') (edges : List CodeGraphEdge) :
    SameButAnonymous (st.withEdges edges) (st'.withEdges edges) :=
  ⟨by simp [GraphState.withEdges, h.graph], h.index⟩

theorem deleteNode (h : SameButAnonymous st st') (id : Nat) :
    SameButAnonymous (deleteNode st id).2 (Canon.Graph.deleteNode st' id).2 := by
  unfold Canon.Graph.deleteNode
  rw [h.graph]
  split
  · exact h
  · rename_i removed _
    -- The state after the removal, before the last node has moved.
    have hcut : ∀ nodes edges, SameButAnonymous
        { graph := { st'.graph with nodes := nodes, edges := edges }
          symbolToId := if removed.symbol.isEmpty then st.symbolToId
            else st.symbolToId.erase removed.symbol }
        { graph := { st'.graph with nodes := nodes, edges := edges }
          symbolToId := if removed.symbol.isEmpty then st'.symbolToId
            else st'.symbolToId.erase removed.symbol } := by
      intro nodes edges
      refine ⟨rfl, ?_⟩
      intro s hs
      dsimp only
      split
      · exact h.index s hs
      · rw [FMap.erase_apply, FMap.erase_apply, h.index s hs]
    dsimp only
    split
    · have hmoved := (hcut (swapRemove st'.graph.nodes id)
        (st'.graph.edges.filter fun e => e.src ≠ id ∧ e.dst ≠ id)).renumber id
      exact ⟨by rw [hmoved.graph], hmoved.index⟩
    · exact hcut _ _

/-- Both sides take an event alike unless it looks up the empty symbol. -/
theorem step (h : SameButAnonymous st st') {event : RustcEvent}
    (he : event.namesAnonymous = false) :
    SameButAnonymous (graphMachine.step st (event, true))
      (graphMachine.step st' (event, true)) := by
  show SameButAnonymous (applyRustcEventToGraph event st true).2
    (applyRustcEventToGraph event st' true).2
  cases event with
  | sessionStart => exact ⟨rfl, fun _ _ => rfl⟩
  | nodeDefined symbol kind file line => exact h.applyNode symbol kind file line
  | nodeUpdated symbol kind file line => exact h.applyNode symbol kind file line
  | nodeRemoved symbol =>
    have hs : symbol ≠ "" := by simpa [RustcEvent.namesAnonymous] using he
    simp only [applyRustcEventToGraph, h.index symbol hs]
    split
    · exact h
    · exact h.deleteNode _
  | edgeDefined src dst kind =>
    have hs : src ≠ "" ∧ dst ≠ "" := by simpa [RustcEvent.namesAnonymous] using he
    simp only [applyRustcEventToGraph, h.ends hs.1 hs.2, h.graph]
    split
    · exact h
    · exact h.withEdges _
  | edgeRemoved src dst kind =>
    have hs : src ≠ "" ∧ dst ≠ "" := by simpa [RustcEvent.namesAnonymous] using he
    simp only [applyRustcEventToGraph, h.ends hs.1 hs.2, h.graph]
    split
    · exact h
    · exact h.withEdges _
  | fileSeen path =>
    simp only [applyRustcEventToGraph, h.graph]
    split
    · exact h
    · exact ⟨rfl, h.index⟩
  | _ => exact h

theorem replayFrom (h : SameButAnonymous st st') {es : List RustcEvent}
    (hes : ∀ e ∈ es, e.namesAnonymous = false) :
    SameButAnonymous (replayFrom st es) (Canon.Graph.replayFrom st' es) := by
  induction es generalizing st st' with
  | nil => exact h
  | cons e es ih => exact ih (h.step (hes e (by simp))) (fun e' he' => hes e' (by simp [he']))

end SameButAnonymous

/-- A graph with its index rebuilt from the nodes. -/
def reindexed (g : CodeGraphProjection) : GraphState :=
  { graph := g, symbolToId := Canon.Graph.rebuildSymbolIndex g.nodes }

theorem GraphInv.reindexed {st : GraphState} (h : GraphInv st) :
    SameButAnonymous (reindexed st.graph) st :=
  ⟨rfl, fun _ hne => h.rebuildSymbolIndex hne⟩

/-- Without anonymous nodes the rebuilt index is the old one. -/
theorem GraphInv.reindexed_eq {st : GraphState} (h : GraphInv st)
    (hnamed : ∀ n ∈ st.graph.nodes, n.symbol ≠ "") : Canon.Graph.reindexed st.graph = st := by
  have hindex : Canon.Graph.rebuildSymbolIndex st.graph.nodes = st.symbolToId := by
    funext symbol
    by_cases hne : symbol = ""
    · subst hne
      rw [h.symbolToId_empty]
      -- The rebuilt index would have this entry from an anonymous node only.
      apply FMap.insertAll_of_not_mem
      rintro e he
      obtain ⟨n, hn, rfl⟩ := List.mem_map.mp he
      exact hnamed n hn
    · exact h.rebuildSymbolIndex hne
  rw [Canon.Graph.reindexed, hindex]

theorem replayFrom_of_inert {es : List RustcEvent} (h : ∀ e ∈ es, e.isInert = true)
    (st : GraphState) :
    (replayFrom st es).graph.nodes = st.graph.nodes ∧
      (replayFrom st es).graph.edges = st.graph.edges ∧
      ∃ more, (replayFrom st es).graph.files = st.graph.files ++ more := by
  induction es generalizing st with
  | nil => exact ⟨rfl, rfl, [], by simp [replayFrom]⟩
  | cons e es ih =>
    have hone : (graphMachine.step st (e, true)).graph.nodes = st.graph.nodes ∧
        (graphMachine.step st (e, true)).graph.edges = st.graph.edges ∧
        ∃ more, (graphMachine.step st (e, true)).graph.files = st.graph.files ++ more := by
      have he := h e (by simp)
      cases e with
      | fileSeen path =>
        simp only [graphMachine, applyRustcEventToGraph]
        split
        · exact ⟨rfl, rfl, [], by simp⟩
        · exact ⟨rfl, rfl, [path], rfl⟩
      | sessionStart | nodeDefined | nodeUpdated | nodeRemoved | edgeDefined | edgeRemoved =>
        cases he
      | _ => exact ⟨rfl, rfl, [], by simp [graphMachine, applyRustcEventToGraph]⟩
    obtain ⟨hn, he, more, hf⟩ := hone
    obtain ⟨hn', he', more', hf'⟩ := ih (fun e' he' => h e' (by simp [he']))
      (graphMachine.step st (e, true))
    exact ⟨hn'.trans hn, he'.trans he, more ++ more', by
      rw [← List.append_assoc, ← hf]
      exact hf'⟩

/-! ### The agreement -/

section Agreement

variable {S : GraphSerde} {before after : List LogLine}

/-- A snapshot of the current version that was taken from a full replay of the
    front of a log, and the offset of the rest. -/
structure SavedFrom (S : GraphSerde) (before : List LogLine) (info : SnapshotMeta)
    (snapshot : CodeSnapshot) : Prop where
  version : info.version = 2
  offset : info.tlogOffset = (fileOf before).length
  saved : ∃ g, replayGraphFromTlog S none (fileOf before) = some g ∧
    saveGraphSnapshot g = some snapshot

/-- Both replays of a log return, and they return the same graph. -/
def ReplaysAgree (S : GraphSerde) (lines : List LogLine) (info : SnapshotMeta)
    (snapshot : CodeSnapshot) : Prop :=
  ∃ g g', replayGraphFromTlog S none (fileOf lines) = some g ∧
    replayGraphFromTlogIncremental S none (fileOf lines) (some info) (some snapshot) = some g' ∧
    SameGraph g g'

/-- No node of the session that is picked gets a number that is cut. -/
def SessionFits (es : List RustcEvent) : Prop :=
  graphMachine.Along NodeFits .empty ((pickedSession es).session.map (·, true))

/-- Both replays end up in the same session.  Either there is nothing to go on
    from; or the rest of the log has a session of its own, the last one, and the
    full replay picks it; or the rest belongs to the session of the snapshot, or
    does not touch the graph, and does not name nodes without a symbol.  In that case the
    nodes of the snapshot have to be numbered as they are when they are loaded. -/
def ReplayAligned (snapshot : CodeSnapshot) (es fs : List RustcEvent) : Prop :=
  (snapshot.nodes = [] ∧ snapshot.edges = []) ∨
  (¬ NoSession fs ∧ LastSessionPicked (es ++ fs)) ∨
  (NoSession fs ∧ (LastSessionPicked es ∨ ∀ e ∈ fs, e.isInert = true) ∧
    ((∀ n ∈ snapshot.nodes, n.symbol ≠ "") ∨ ∀ e ∈ fs, e.namesAnonymous = false) ∧
    SessionFits es)

/-- The front of a log without the magic is without it too. -/
theorem isBinaryMagic_front (h : isBinaryMagic (fileOf (before ++ after)) = false) :
    isBinaryMagic (fileOf before) = false := by
  rw [fileOf_append] at h
  cases hbin : isBinaryMagic (fileOf before) with
  | false => rfl
  | true =>
    simp only [isBinaryMagic, Bool.and_eq_true, decide_eq_true_eq] at hbin
    have htake : (fileOf before ++ fileOf after).take 4 = (fileOf before).take 4 :=
      List.take_append_of_le_length hbin.1
    simp only [isBinaryMagic, htake, hbin.2, List.length_append, Bool.and_true,
      decide_eq_false_iff_not] at h
    omega

/-- Without a snapshot to go on from, the incremental replay is a full one. -/
theorem incremental_of_empty {lines : List LogLine}
    (hbin : isBinaryMagic (fileOf lines) = false) {snapshotMeta : Option SnapshotMeta}
    {snapshot : Option CodeSnapshot} (hbase : snapshotBase snapshotMeta snapshot = (.empty, 0)) :
    replayGraphFromTlogIncremental S none (fileOf lines) snapshotMeta snapshot =
      replayGraphFromTlog S none (fileOf lines) := by
  rw [replayGraphFromTlogIncremental, hbin, hbase]
  simp only [Bool.false_eq_true, if_false, if_true, findLastGraphSessionOffset_fileOf]
  cases hlast : lastGraphSession S lines with
  | none =>
    rw [replayGraphFromTlog_of_none hbin hlast]
    have hrest := replayEventsFromOffset_fileOf (S := S) [] lines .empty false
    rw [window_false] at hrest
    exact map_graph hrest
  | some offset =>
    obtain ⟨front, l, e, back, rfl, -, -, rfl⟩ := lastGraphSession_eq_some hlast
    rw [replayGraphFromTlog_of_some hbin hlast]
    exact map_graph (replayEventsFromOffset_fileOf front (l :: back) .empty true)

/-- With a snapshot the rest of the log is added to it. -/
theorem incremental_of_snapshot (hbin : isBinaryMagic (fileOf (before ++ after)) = false)
    {snapshotMeta : Option SnapshotMeta} {snapshot : Option CodeSnapshot} {st : GraphState}
    (hbase : snapshotBase snapshotMeta snapshot = (st, (fileOf before).length))
    (hne : (fileOf before).length ≠ 0) :
    replayGraphFromTlogIncremental S none (fileOf (before ++ after)) snapshotMeta snapshot =
      some (replayFrom st (S.events after)).graph := by
  rw [replayGraphFromTlogIncremental, hbin, hbase]
  simp only [Bool.false_eq_true, if_false, hne, Option.getD_none, Option.isSome_none]
  have hrest := replayEventsFromOffset_fileOf (S := S) before after st false
  rw [window_false] at hrest
  exact map_graph hrest

theorem RustcEvent.isInert_spec {e : RustcEvent} (h : e.isInert = true) :
    e.definesGraph = false ∧ e.namesAnonymous = false := by
  cases e <;> first | exact ⟨rfl, rfl⟩ | cases h

/-- The rest of the log on top of the rebuilt index gives what it gives on top of
    the index the events built. -/
theorem GraphInv.replayFrom_reindexed {st : GraphState} (h : GraphInv st) {es : List RustcEvent}
    (hsafe : (∀ n ∈ st.graph.nodes, n.symbol ≠ "") ∨ ∀ e ∈ es, e.namesAnonymous = false) :
    (Canon.Graph.replayFrom (Canon.Graph.reindexed st.graph) es).graph =
      (Canon.Graph.replayFrom st es).graph := by
  obtain hnamed | hanon := hsafe
  · rw [h.reindexed_eq hnamed]
  · exact (h.reindexed.replayFrom hanon).graph

/-- The rest of a log, added to what comes back from the snapshot of its front. -/
theorem full_of_aligned {es fs : List RustcEvent} {st : GraphState} {rows : CodeGraphProjection}
    (hst : st = replayFrom .empty (pickedSession es).session) (hnumbers : NumbersFit st.graph)
    (hrows : rows = snapshotIntoRows (snapshotOf st.graph))
    (hne : ¬ (rows.nodes = [] ∧ rows.edges = []))
    (haligned : ReplayAligned (snapshotOf st.graph) es fs) :
    SameGraph (replayFrom .empty (pickedSession (es ++ fs)).session).graph
      (replayFrom (reindexed rows) fs).graph := by
  obtain ⟨hnodes, hedges⟩ | ⟨hafter, hpick⟩ | ⟨hafter, hpick, hsafe, hfits⟩ := haligned
  -- No rows come from no nodes and no edges.
  · refine absurd ?_ hne
    rw [hrows, snapshotIntoRows, hnodes, hedges]
    exact ⟨rfl, rfl⟩
  · rw [replayFrom_pickedSession hafter hpick (reindexed rows)]
    exact .refl _
  · have hinv : GraphInv st := hst ▸ GraphInv.empty.run hfits
    obtain rfl : rows = st.graph := hrows.trans (hinv.snapshotIntoRows_snapshotOf hnumbers)
    by_cases hlast : LastSessionPicked es
    · rw [pickedSession_continues hafter hlast, replayFrom_append, ← hst,
        hinv.replayFrom_reindexed]
      · exact .refl _
      · exact hsafe.imp_left fun h n hn => h _ (List.mem_map_of_mem hn)
    -- The full replay stays with an earlier session, so the rest must not matter.
    · have hinert := hpick.resolve_left hlast
      have hg : fs.any (·.definesGraph) = false := by
        rw [List.any_eq_false]
        intro e he
        simp [(RustcEvent.isInert_spec (hinert e he)).1]
      obtain ⟨hnodes, hedges, more, hfiles⟩ := replayFrom_of_inert hinert (reindexed st.graph)
      rw [pickedSession_unmoved hafter hg hlast, ← hst]
      exact .of_files hnodes hedges hfiles hinv.fileIds

/-- **Incremental replay agrees with full replay** when both end up in the same
    session. -/
theorem incremental_replay_agrees (S : GraphSerde) (before after : List LogLine)
    (info : SnapshotMeta) (snapshot : CodeSnapshot) (hsaved : SavedFrom S before info snapshot)
    (haligned : ReplayAligned snapshot (S.events before) (S.events after)) :
    ReplaysAgree S (before ++ after) info snapshot := by
  cases hbin : isBinaryMagic (fileOf (before ++ after)) with
  | true =>
    refine ⟨_, _, ?_, ?_, SameGraph.refl (replayBinary S (fileOf (before ++ after)))⟩
    · rw [replayGraphFromTlog, if_pos hbin]
    · rw [replayGraphFromTlogIncremental, if_pos hbin, replayGraphFromTlog, if_pos hbin]
  | false =>
    obtain ⟨hversion, hoffset, g, hg, hsave⟩ := hsaved
    have hfull := replayGraphFromTlog_eq_picked (S := S) hbin
    -- What was saved is the snapshot of the replayed graph.
    obtain ⟨st, hst⟩ : ∃ st, st = replayFrom .empty (pickedSession (S.events before)).session :=
      ⟨_, rfl⟩
    obtain rfl : g = st.graph := by
      rw [hst]
      exact Option.some.inj
        (hg.symm.trans (replayGraphFromTlog_eq_picked (isBinaryMagic_front hbin)))
    obtain ⟨rfl, hnumbers⟩ := saveGraphSnapshot_eq_some hsave
    -- An empty snapshot is not used.
    by_cases hempty : (snapshotIntoRows (snapshotOf st.graph)).nodes = [] ∧
        (snapshotIntoRows (snapshotOf st.graph)).edges = []
    · have hbase : snapshotBase (some info) (some (snapshotOf st.graph)) = (.empty, 0) := by
        simp [snapshotBase, hversion, hempty]
      exact ⟨_, _, hfull, (incremental_of_empty hbin hbase).trans hfull, SameGraph.refl _⟩
    · have hbase : snapshotBase (some info) (some (snapshotOf st.graph)) =
          (reindexed (snapshotIntoRows (snapshotOf st.graph)), (fileOf before).length) := by
        simp [snapshotBase, hversion, hempty, hoffset, reindexed]
      -- A log that built something has a line.
      have hlen : (fileOf before).length ≠ 0 := by
        intro hlen
        obtain rfl := fileOf_eq_nil.mp (List.eq_nil_of_length_eq_zero hlen)
        exact hempty (by rw [hst]; exact ⟨rfl, rfl⟩)
      refine ⟨_, _, hfull, incremental_of_snapshot hbin hbase hlen, ?_⟩
      rw [S.events_append]
      exact full_of_aligned hst hnumbers rfl hempty haligned

end Agreement

/-! ### Sample logs -/

section Sample

def sessionData (project : String) : Json :=
  .obj [("SessionStart",
    .obj [("project", .str project), ("schema", .nat 0), ("byte_offset", .nat 0)])]

def nodeData (symbol : String) : Json :=
  .obj [("NodeDefined", .obj [("symbol", .str symbol), ("kind", .str "FN"), ("file", .str ""),
    ("line", .nat 0), ("col", .nat 0), ("lo", .nat 0), ("hi", .nat 0)])]

def sessionText (project : String) : String :=
  "\x7b\"SessionStart\":\x7b\"project\":\"" ++ project
    ++ "\",\"schema\":0,\"byte_offset\":0\x7d\x7d"

def nodeText (symbol : String) : String :=
  "\x7b\"NodeDefined\":\x7b\"symbol\":\"" ++ symbol ++ "\",\"kind\":\"FN\",\"file\":\"\","
    ++ "\"line\":0,\"col\":0,\"lo\":0,\"hi\":0\x7d\x7d"

/-- A session of `p` and one of `q`, with one node each. -/
def sampleLog : List (CanonEvent × String) :=
  [(sampleEvent "s1" .code 1 (sessionData "p"), sampleText "s1" "code" 1 (sessionText "p")),
   (sampleEvent "n1" .code 2 (nodeData "x"), sampleText "n1" "code" 2 (nodeText "x")),
   (sampleEvent "s2" .code 3 (sessionData "q"), sampleText "s2" "code" 3 (sessionText "q")),
   (sampleEvent "n2" .code 4 (nodeData "y"), sampleText "n2" "code" 4 (nodeText "y"))]

/-- What the JSON library makes of the data of a session or of a node. -/
def sampleRustcEvent (value : Json) : Option RustcEvent :=
  (((value.get "SessionStart").bind (·.get "project")).bind Json.asStr).map .sessionStart |>.or
    ((value.get "NodeDefined").bind fun node =>
      ((node.get "symbol").bind Json.asStr).bind fun symbol =>
        ((node.get "kind").bind Json.asStr).bind fun kind =>
          ((node.get "file").bind Json.asStr).bind fun file =>
            ((node.get "line").bind Json.asU64).map fun line =>
              .nodeDefined symbol kind file line)

def sampleGraphSerde : GraphSerde :=
  { Serde.ofTable sampleLog with parseRustcEventValue := sampleRustcEvent }

def sampleLine (id : String) (ts : Nat) (data : String)
    (h : (10 : UInt8) ∉ (sampleText id "code" ts data).toByteArray.data.toList) : LogLine where
  text := (sampleText id "code" ts data).toList
  noFeed := by rwa [utf8_toList]
  noReturn := by
    obtain ⟨middle, hmiddle⟩ := sampleText_toList id "code" ts data
    have hlast : utf8 ['\x7d'] = [125] := by decide
    rw [hmiddle, utf8_append, hlast]
    simp

def firstSession : LogLine := sampleLine "s1" 1 (sessionText "p") (by decide +kernel)

def firstNode : LogLine := sampleLine "n1" 2 (nodeText "x") (by decide +kernel)

def secondSession : LogLine := sampleLine "s2" 3 (sessionText "q") (by decide +kernel)

def secondNode : LogLine := sampleLine "n2" 4 (nodeText "y") (by decide +kernel)

/-- A line whose event and text are in the table is read as that event. -/
theorem tableLine_parse {S : GraphSerde} {table : List (CanonEvent × String)}
    (hS : S.toSerde = Serde.ofTable table) (hid : (table.map (·.1.id)).Nodup)
    (htext : (table.map (·.2)).Nodup) {id : String} {ts : Nat} {text : String} (data : Json)
    (hentry : (sampleEvent id .code ts data, sampleText id "code" ts text) ∈ table)
    (h : (10 : UInt8) ∉ (sampleText id "code" ts text).toByteArray.data.toList) :
    parseAnyEvent S (sampleLine id ts text h).text = some (sampleEvent id .code ts data) := by
  obtain ⟨hto, hround⟩ := Serde.ofTable_roundTrips hid htext hentry
  obtain ⟨middle, hmiddle⟩ := sampleText_toList id "code" ts text
  rw [Serde.RoundTrips, hto, ← hS] at hround
  have htrim : Text.trim (sampleText id "code" ts text).toList
      = (sampleText id "code" ts text).toList := by
    rw [hmiddle, List.cons_append, Text.trim_cons (by decide), Text.trimEnd_concat,
      if_neg (by decide)]
  unfold parseAnyEvent sampleLine
  dsimp only
  rw [htrim, if_neg (by simp [hmiddle]), hround, Option.some_or]

theorem sampleLine_parse {id : String} {ts : Nat} {text : String} (data : Json)
    (hentry : (sampleEvent id .code ts data, sampleText id "code" ts text) ∈ sampleLog)
    (h : (10 : UInt8) ∉ (sampleText id "code" ts text).toByteArray.data.toList) :
    parseAnyEvent sampleGraphSerde (sampleLine id ts text h).text
      = some (sampleEvent id .code ts data) :=
  tableLine_parse rfl (by decide +kernel) (by decide +kernel) data hentry h

theorem sampleLine_eventOf {id : String} {ts : Nat} {text : String} (data : Json)
    (hentry : (sampleEvent id .code ts data, sampleText id "code" ts text) ∈ sampleLog)
    (h : (10 : UInt8) ∉ (sampleText id "code" ts text).toByteArray.data.toList) :
    sampleGraphSerde.eventOf (sampleLine id ts text h).text = sampleRustcEvent data := by
  rw [GraphSerde.eventOf, sampleLine_parse data hentry h]
  rfl

theorem firstSession_eventOf :
    sampleGraphSerde.eventOf firstSession.text = some (.sessionStart "p") :=
  sampleLine_eventOf (sessionData "p") (.head _) _

theorem firstNode_eventOf :
    sampleGraphSerde.eventOf firstNode.text = some (.nodeDefined "x" "FN" "" 0) :=
  sampleLine_eventOf (nodeData "x") (.tail _ (.head _)) _

theorem secondSession_eventOf :
    sampleGraphSerde.eventOf secondSession.text = some (.sessionStart "q") :=
  sampleLine_eventOf (sessionData "q") (.tail _ (.tail _ (.head _))) _

theorem secondNode_eventOf :
    sampleGraphSerde.eventOf secondNode.text = some (.nodeDefined "y" "FN" "" 0) :=
  sampleLine_eventOf (nodeData "y") (.tail _ (.tail _ (.tail _ (.head _)))) _

/-- The first session has node `x`. -/
def sampleBefore : List LogLine := [firstSession, firstNode]

/-- The snapshot of the first session. -/
def sampleSnapshot : CodeSnapshot where
  nodes := [{ kind := "FN", symbol := "x", file := "", line := 0, column := 0 }]
  edges := []
  files := []

def sampleMeta : SnapshotMeta where
  tlogOffset := (fileOf sampleBefore).length
  eventCount := 1
  createdAt := 0
  version := 2

theorem sampleBefore_events :
    sampleGraphSerde.events sampleBefore = [.sessionStart "p", .nodeDefined "x" "FN" "" 0] := by
  rw [sampleBefore, GraphSerde.events_cons _ firstSession_eventOf,
    GraphSerde.events_cons _ firstNode_eventOf]
  rfl

/-- A log that starts with a brace has no magic. -/
theorem isBinaryMagic_sampleLine {id : String} {ts : Nat} {data : String}
    (h : (10 : UInt8) ∉ (sampleText id "code" ts data).toByteArray.data.toList)
    (lines : List LogLine) : isBinaryMagic (fileOf (sampleLine id ts data h :: lines)) = false := by
  obtain ⟨middle, hmiddle⟩ := sampleText_toList id "code" ts data
  have hfirst : utf8 ['\x7b'] = [123] := by decide
  have htext : utf8 (sampleText id "code" ts data).toList = 123 :: utf8 (middle ++ ['\x7d']) := by
    rw [hmiddle, List.cons_append, ← List.singleton_append, utf8_append, hfirst,
      List.singleton_append]
  rw [fileOf_cons, sampleLine, htext, List.cons_append]
  generalize utf8 (middle ++ ['\x7d']) ++ 10 :: fileOf lines = rest
  have hne : ofLe ((123 :: rest).take 4) ≠ magic := by
    rw [List.take_succ_cons, ofLe, magic, show UInt8.toNat 123 = 123 from rfl]
    omega
  rw [isBinaryMagic, beq_false_of_ne hne, Bool.and_false]

theorem isBinaryMagic_sample (lines : List LogLine) :
    isBinaryMagic (fileOf (firstSession :: lines)) = false :=
  isBinaryMagic_sampleLine _ lines

/-- The graph of the first session. -/
def sampleGraph : CodeGraphProjection where
  nodes := [{ id := 0, kind := "FN", symbol := "x", fileId := none, line := none }]
  edges := []
  files := []

theorem sampleBefore_replay :
    replayGraphFromTlog sampleGraphSerde none (fileOf sampleBefore) = some sampleGraph := by
  rw [sampleBefore, replayGraphFromTlog_eq_picked (isBinaryMagic_sample _), ← sampleBefore,
    sampleBefore_events]
  rfl

theorem sampleSnapshot_saved :
    SavedFrom sampleGraphSerde sampleBefore sampleMeta sampleSnapshot := by
  refine ⟨rfl, ?_, sampleGraph, sampleBefore_replay, ?_⟩
  · simp only [sampleMeta]
  · rfl

theorem incremental_replay_agrees_sample :
    ReplaysAgree sampleGraphSerde (sampleBefore ++ [secondSession, secondNode]) sampleMeta
      sampleSnapshot := by
  have hevents : sampleGraphSerde.events [secondSession, secondNode]
      = [.sessionStart "q", .nodeDefined "y" "FN" "" 0] := by
    rw [GraphSerde.events_cons _ secondSession_eventOf, GraphSerde.events_cons _ secondNode_eventOf]
    rfl
  refine incremental_replay_agrees _ _ _ _ _ sampleSnapshot_saved (.inr (.inl ?_))
  rw [hevents, sampleBefore_events]
  exact ⟨by decide, .inl (by decide)⟩

theorem sampleBefore_snapshotBase :
    snapshotBase (some sampleMeta) (some sampleSnapshot) =
      (reindexed sampleGraph, (fileOf sampleBefore).length) := by
  have hrows : snapshotIntoRows sampleSnapshot = sampleGraph := rfl
  simp only [snapshotBase, sampleMeta, if_true, hrows]
  rfl

/-- A session start behind the snapshot, with nothing in it yet: the full replay
    still has node `x`, the incremental one has lost it. -/
theorem incremental_replay_loses_graph :
    SavedFrom sampleGraphSerde sampleBefore sampleMeta sampleSnapshot ∧
      ¬ ReplaysAgree sampleGraphSerde (sampleBefore ++ [secondSession]) sampleMeta
        sampleSnapshot := by
  refine ⟨sampleSnapshot_saved, ?_⟩
  rintro ⟨g, g', hfull, hincr, σ, hnodes, -⟩
  have hevents : sampleGraphSerde.events [secondSession] = [.sessionStart "q"] :=
    GraphSerde.events_cons _ secondSession_eventOf []
  have hbin : isBinaryMagic (fileOf (sampleBefore ++ [secondSession])) = false :=
    isBinaryMagic_sample _
  have hpicked := replayGraphFromTlog_eq_picked (S := sampleGraphSerde) hbin
  have hlen : (fileOf sampleBefore).length ≠ 0 := by
    rw [Ne, List.length_eq_zero_iff, fileOf_eq_nil]
    exact List.cons_ne_nil _ _
  have hrest := incremental_of_snapshot (S := sampleGraphSerde) hbin sampleBefore_snapshotBase hlen
  rw [GraphSerde.events_append, sampleBefore_events, hevents] at hpicked
  rw [hevents] at hrest
  obtain rfl := Option.some.inj (hfull.symm.trans hpicked)
  obtain rfl := Option.some.inj (hincr.symm.trans hrest)
  have hlost := hnodes 0
  cases hlost

end Sample

end Canon.Graph
