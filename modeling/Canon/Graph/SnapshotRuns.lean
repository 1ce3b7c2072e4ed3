import Canon.Graph.Replay

/-! # Snapshots along a replay

    An incremental replay goes on from a snapshot of an earlier one, so the
    projections that replay reaches come from events and from reloads.  A reload
    puts the anonymous modules into the symbol index, which the events never do
    themselves: from then on an edge may end at one of several nodes with the same
    symbol and kind, and a snapshot cannot tell these apart.
-/

namespace Canon.Graph

inductive SnapshotOp where
  | event (event : RustcEvent) (clearOnSession : Bool)
  /-- Save the graph, then start the next replay from what was saved. -/
  | reload (info : SnapshotMeta)

/-- A snapshot that is too large is not written, and the replay starts over. -/
def snapshotMachine : Machine GraphState SnapshotOp where
  step st
    | .event event clear => graphMachine.step st (event, clear)
    | .reload info => (snapshotBase (some info) (saveGraphSnapshot st.graph)).1

/-- Number `i` is the last node with its symbol and kind. -/
def CodeGraphProjection.LastOfKey (g : CodeGraphProjection) (i : Nat) : Prop :=
  ∃ n, g.nodes[i]? = some n ∧
    ∀ j m, i < j → g.nodes[j]? = some m → (m.symbol, m.kind) ≠ (n.symbol, n.kind)

/-- The rows of a snapshot are the projection it was taken of, their numbers lead
    to rows and no two of their files are the same. -/
structure RowsFaithful (g rows : CodeGraphProjection) : Prop where
  nodes : rows.nodes = g.nodes
  files : rows.files = g.files
  edges : rows.edges = g.edges
  fileIds : ∀ n ∈ rows.nodes, ∀ f, n.fileId = some f → f < rows.files.length
  ends : ∀ e ∈ rows.edges, e.src < rows.nodes.length ∧ e.dst < rows.nodes.length
  distinct : rows.files.Nodup

/-! ### Keys -/

theorem keysOf_eq_some_iff (nodes : List CodeGraphNode) {key : String × String} {i : Nat} :
    keysOf nodes key = some i ↔
      ∃ n, nodes[i]? = some n ∧ (n.symbol, n.kind) = key ∧
        ∀ j m, i < j → nodes[j]? = some m → (m.symbol, m.kind) ≠ key := by
  -- Induction from the end of the vector: the last node overwrites the entry of its key.
  induction nodes using List.reverseRecOn generalizing i with
  | nil => simp [keysOf, FMap.insertAll, FMap.empty]
  | append_singleton nodes last ih =>
    have hlast : ∀ j m, nodes.length ≤ j → (nodes ++ [last])[j]? = some m →
        j = nodes.length ∧ m = last := by
      intro j m hj hm
      have hlt := (List.getElem?_eq_some_iff.mp hm).1
      rw [List.length_append, List.length_singleton] at hlt
      obtain rfl : j = nodes.length := by omega
      rw [List.getElem?_concat_length] at hm
      exact ⟨rfl, (Option.some.inj hm).symm⟩
    rw [keysOf_concat]
    by_cases hkey : (last.symbol, last.kind) = key
    · rw [← hkey, FMap.insert_self]
      constructor
      · intro hi
        obtain rfl := Option.some.inj hi
        refine ⟨last, List.getElem?_concat_length, rfl, ?_⟩
        intro j m hj hm
        have hjlast := (hlast j m (by omega) hm).1
        omega
      · intro h
        obtain ⟨n, hn, hnkey, hafter⟩ := h
        have hlt := (List.getElem?_eq_some_iff.mp hn).1
        rw [List.length_append, List.length_singleton] at hlt
        by_cases hi : i = nodes.length
        · rw [hi]
        · exact absurd rfl (hafter nodes.length last (by omega) List.getElem?_concat_length)
    · rw [FMap.insert_of_ne _ _ (Ne.symm hkey), ih]
      constructor
      · intro h
        obtain ⟨n, hn, hnkey, hafter⟩ := h
        have hlt := (List.getElem?_eq_some_iff.mp hn).1
        refine ⟨n, by rw [List.getElem?_append_left hlt, hn], hnkey, ?_⟩
        intro j m hj hm
        by_cases hjl : j < nodes.length
        · rw [List.getElem?_append_left hjl] at hm
          exact hafter j m hj hm
        · rw [(hlast j m (by omega) hm).2]
          exact hkey
      · intro h
        obtain ⟨n, hn, hnkey, hafter⟩ := h
        have hlt : i < nodes.length := by
          by_contra hge
          rw [(hlast i n (by omega) hn).2] at hnkey
          exact hkey hnkey
        rw [List.getElem?_append_left hlt] at hn
        refine ⟨n, hn, hnkey, ?_⟩
        intro j m hj hm
        have hjl := (List.getElem?_eq_some_iff.mp hm).1
        exact hafter j m hj (by rw [List.getElem?_append_left hjl, hm])

theorem keysOf_lt {nodes : List CodeGraphNode} {key : String × String} {i : Nat}
    (h : keysOf nodes key = some i) : i < nodes.length := by
  obtain ⟨n, hn, -⟩ := (keysOf_eq_some_iff nodes).mp h
  exact (List.getElem?_eq_some_iff.mp hn).1

section Rows

variable {g : CodeGraphProjection}

/-- The end of an edge is found again if and only if no later node has its key. -/
theorem RowsInv.keysOf_end (h : RowsInv g) (hfits : NumbersFit g) (i : Nat) :
    keysOf g.nodes ((idToKind g.nodes i).getD ("", "UNKNOWN")) = some i ↔ g.LastOfKey i := by
  constructor
  · intro hi
    obtain ⟨n, hn, hkey, hafter⟩ := (keysOf_eq_some_iff g.nodes).mp hi
    rw [h.idToKind_getElem? hfits hn, Option.getD_some] at hafter
    exact ⟨n, hn, hafter⟩
  · intro ⟨n, hn, hafter⟩
    rw [h.idToKind_getElem? hfits hn, Option.getD_some]
    exact (keysOf_eq_some_iff g.nodes).mpr ⟨n, hn, rfl, hafter⟩

theorem RowsInv.rowEdge_snapshotEdge (h : RowsInv g) (hfits : NumbersFit g)
    (e : CodeGraphEdge) :
    rowEdge (keysOf g.nodes) (snapshotEdge g.nodes e) = some e ↔
      g.LastOfKey e.src ∧ g.LastOfKey e.dst := by
  rw [← h.keysOf_end hfits, ← h.keysOf_end hfits]
  simp only [rowEdge, snapshotEdge, Option.bind_eq_some_iff, Option.map_eq_some_iff]
  constructor
  · intro h
    obtain ⟨src, hsrc, dst, hdst, heq⟩ := h
    rw [← heq]
    rw [← heq] at hsrc hdst
    exact ⟨hsrc, hdst⟩
  · intro h
    exact ⟨e.src, h.1, e.dst, h.2, rfl⟩

theorem filterMap_eq_self_iff {α : Type} (f : α → Option α) (l : List α) :
    l.filterMap f = l ↔ ∀ a ∈ l, f a = some a := by
  constructor
  · intro h
    induction l with
    | nil => simp
    | cons a l ih =>
      cases hf : f a with
      | none =>
        -- The result would be too short.
        have hlen := List.length_filterMap_le f l
        rw [List.filterMap_cons_none hf] at h
        rw [h, List.length_cons] at hlen
        omega
      | some b =>
        rw [List.filterMap_cons_some hf, List.cons.injEq] at h
        intro x hx
        rcases List.mem_cons.mp hx with hx | hx
        · rw [hx, hf, h.1]
        · exact ih h.2 x hx
  · intro h
    rw [List.filterMap_congr h, List.filterMap_some]

theorem RowsInv.rows_faithful_iff (h : RowsInv g) (hfits : NumbersFit g) :
    RowsFaithful g (snapshotIntoRows (snapshotOf g)) ↔
      ∀ e ∈ g.edges, g.LastOfKey e.src ∧ g.LastOfKey e.dst := by
  rw [h.snapshotIntoRows_eq hfits]
  have hedges := filterMap_eq_self_iff (rowEdge (keysOf g.nodes) ∘ snapshotEdge g.nodes) g.edges
  have hlast : (∀ e ∈ g.edges, (rowEdge (keysOf g.nodes) ∘ snapshotEdge g.nodes) e = some e) ↔
      ∀ e ∈ g.edges, g.LastOfKey e.src ∧ g.LastOfKey e.dst :=
    forall₂_congr fun e _ => h.rowEdge_snapshotEdge hfits e
  rw [← hlast, ← hedges]
  constructor
  · intro hfaithful
    exact hfaithful.edges
  · intro hsame
    refine ⟨rfl, rfl, hsame, h.fileIds, ?_, h.filesNodup⟩
    intro e he
    obtain ⟨row, -, hrow⟩ := List.mem_filterMap.mp he
    simp only [Function.comp, rowEdge, Option.bind_eq_some_iff, Option.map_eq_some_iff] at hrow
    obtain ⟨src, hsrc, dst, hdst, rfl⟩ := hrow
    exact ⟨keysOf_lt hsrc, keysOf_lt hdst⟩

end Rows

/-! ### Every step keeps the rows in order -/

section Steps

variable {st : GraphState}

/-- The numbers of the index are 32 bits wide. -/
def IndexFits (st : GraphState) : Prop := ∀ symbol id, st.symbolToId symbol = some id → id < 2 ^ 32

theorem IndexFits.insert {m : FMap String Nat} (h : ∀ symbol id, m symbol = some id → id < 2 ^ 32)
    {key : String} {value : Nat} (hvalue : value < 2 ^ 32) (symbol : String) (id : Nat)
    (hid : m.insert key value symbol = some id) : id < 2 ^ 32 := by
  rw [FMap.insert_apply] at hid
  split at hid
  · exact Option.some.inj hid ▸ hvalue
  · exact h symbol id hid

theorem RowsInv.of_applyNode (h : RowsInv st.graph) (hindex : IndexFits st)
    (symbol kind file : String) (line : Nat) :
    RowsInv (applyNode st symbol kind file line).2.graph ∧
      IndexFits (applyNode st symbol kind file line).2 := by
  rcases applyNode_cases st symbol kind file line with
    ⟨-, heq⟩ | ⟨-, ⟨id, node, hfind, heq⟩ | ⟨-, heq⟩⟩
  · rw [heq]
    exact ⟨h, hindex⟩
  · rw [heq]
    exact ⟨h.of_updateNode (getElem?_of_findNode hfind) kind file line, hindex⟩
  · rw [heq]
    refine ⟨h.of_pushNode symbol kind file line, ?_⟩
    intro s id hid
    simp only [pushNode] at hid
    split at hid
    · exact hindex s id hid
    · exact IndexFits.insert hindex (asU32_lt _) s id hid

theorem IndexFits.of_deleteNode (hindex : IndexFits st) {id : Nat} (hid : id < 2 ^ 32) :
    IndexFits (deleteNode st id).2 := by
  cases hget : st.graph.nodes[id]? with
  | none =>
    simp only [deleteNode, hget]
    exact hindex
  | some removed =>
    obtain ⟨front, last, hnodes, -⟩ := exists_concat_of_getElem? hget
    intro s i hi
    rw [deleteNode_eq hnodes hget] at hi
    dsimp only at hi
    split at hi
    · exact Option.some.inj hi ▸ hid
    · split at hi
      · cases hi
      · exact hindex s i hi

theorem RowsInv.of_event (h : RowsInv st.graph) (hindex : IndexFits st) (event : RustcEvent)
    (clear : Bool) :
    RowsInv (graphMachine.step st (event, clear)).graph ∧
      IndexFits (graphMachine.step st (event, clear)) := by
  have hempty : RowsInv GraphState.empty.graph ∧ IndexFits .empty :=
    ⟨GraphInv.empty.rows, fun _ _ hid => by cases hid⟩
  show RowsInv (applyRustcEventToGraph event st clear).2.graph ∧
    IndexFits (applyRustcEventToGraph event st clear).2
  unfold applyRustcEventToGraph
  cases event with
  | sessionStart project =>
    cases clear with
    | true => exact hempty
    | false => exact ⟨h, hindex⟩
  | nodeDefined symbol kind file line => exact h.of_applyNode hindex symbol kind file line
  | nodeUpdated symbol kind file line => exact h.of_applyNode hindex symbol kind file line
  | nodeRemoved symbol =>
    simp only
    split
    · exact ⟨h, hindex⟩
    · rename_i id hid
      have hlt := hindex symbol id hid
      exact ⟨h.of_deleteNode hlt, hindex.of_deleteNode hlt⟩
  | edgeDefined src dst kind | edgeRemoved src dst kind =>
    simp only
    -- Nodes, files and index stay as they are.
    split
    · exact ⟨h, hindex⟩
    · exact ⟨⟨h.ids, h.fileIds, h.filesNodup, h.filesNamed, h.lines⟩, hindex⟩
  | fileSeen path =>
    simp only
    split
    · exact ⟨h, hindex⟩
    · rename_i hnew
      exact ⟨h.of_fileSeen hnew, hindex⟩
  | callsiteObserved | symbolDefined | spanDefined | panicCaptured | warningCaptured
  | compilationUnitFinished | invariantViolation => exact ⟨h, hindex⟩

/-- The rebuilt index has the numbers of the nodes. -/
theorem RowsInv.of_reload (h : RowsInv st.graph) (info : SnapshotMeta) :
    RowsInv (snapshotBase (some info) (saveGraphSnapshot st.graph)).1.graph ∧
      IndexFits (snapshotBase (some info) (saveGraphSnapshot st.graph)).1 := by
  have hempty : RowsInv GraphState.empty.graph ∧ IndexFits .empty :=
    ⟨GraphInv.empty.rows, fun _ _ hid => by cases hid⟩
  cases hsave : saveGraphSnapshot st.graph with
  | none => exact hempty
  | some s =>
    obtain ⟨rfl, hfits⟩ := saveGraphSnapshot_eq_some hsave
    simp only [snapshotBase, h.snapshotIntoRows_eq hfits]
    split
    · split
      · exact hempty
      · refine ⟨⟨h.ids, h.fileIds, h.filesNodup, h.filesNamed, h.lines⟩, ?_⟩
        intro symbol id hid
        rcases FMap.insertAll_cases hid with hold | hmem
        · cases hold
        · obtain ⟨n, hn, heq⟩ := List.mem_map.mp hmem
          obtain ⟨i, hi⟩ := List.mem_iff_getElem?.mp hn
          rw [← (Prod.mk.inj heq).2, h.ids i n hi]
          exact asU32_lt i
    · exact hempty

end Steps

/-- Nodes, files and index stay in order over any number of replays. -/
theorem rowsInv_run (ops : List SnapshotOp) :
    RowsInv (snapshotMachine.run .empty ops).graph ∧
      IndexFits (snapshotMachine.run .empty ops) := by
  apply snapshotMachine.run_invariant (I := fun st => RowsInv st.graph ∧ IndexFits st)
  · intro st op h
    cases op with
    | event event clear => exact h.1.of_event h.2 event clear
    | reload info => exact h.1.of_reload info
  · exact ⟨GraphInv.empty.rows, fun _ _ hid => by cases hid⟩

/-- Without reloads a symbol names one node, and edges end at named nodes only. -/
theorem GraphInv.lastOfKey {st : GraphState} (h : GraphInv st) {e : CodeGraphEdge}
    (he : e ∈ st.graph.edges) : st.graph.LastOfKey e.src ∧ st.graph.LastOfKey e.dst := by
  have hlast : ∀ {i : Nat} {n : CodeGraphNode}, st.graph.nodes[i]? = some n → n.symbol ≠ "" →
      st.graph.LastOfKey i := by
    intro i n hn hne
    refine ⟨n, hn, ?_⟩
    intro j m hij hm hkey
    have hsym : m.symbol = n.symbol := (Prod.mk.inj hkey).1
    have hji := h.eq_of_symbol hm hn hsym (hsym ▸ hne)
    omega
  obtain ⟨⟨s, hs, hsne⟩, d, hd, hdne⟩ := h.edges e he
  exact ⟨hlast hs hsne, hlast hd hdne⟩

/-- Without reloads a projection survives its snapshot when no node number was cut on
    the way to it. -/
theorem replay_snapshot_faithful (calls : List (RustcEvent × Bool)) {s : CodeSnapshot}
    (hnodes : graphMachine.Along NodeFits .empty calls)
    (hsave : saveGraphSnapshot (graphMachine.run .empty calls).graph = some s) :
    RowsFaithful (graphMachine.run .empty calls).graph (snapshotIntoRows s) := by
  have hinv := GraphInv.empty.run hnodes
  obtain ⟨hsnapshot, hfits⟩ := saveGraphSnapshot_eq_some hsave
  rw [hsnapshot]
  exact (hinv.rows.rows_faithful_iff hfits).mpr fun e he => hinv.lastOfKey he

theorem replay_snapshot_faithful_call :
    let g := (graphMachine.run .empty
      [(.nodeDefined "app::main" "FUNCTION" "src/main.rs" 3, false),
       (.nodeDefined "app::load" "FUNCTION" "src/main.rs" 9, false),
       (.edgeDefined "app::main" "app::load" "CALLS", false)]).graph
    RowsFaithful g (snapshotIntoRows (snapshotOf g)) := by
  refine replay_snapshot_faithful _ ?_ (if_neg (by decide +kernel))
  refine ⟨?_, ?_, ?_, trivial⟩
  · intro _ _ _ _
    decide
  · intro _ _ _ _
    decide +kernel
  · intro _ _ hnode
    cases hnode

/-! ### The round trip -/

/-- **When a projection survives its snapshot.**  Nodes and files always do; the
    edges do if and only if they end at nodes that are the last with their symbol
    and kind. -/
theorem snapshot_faithful_iff (ops : List SnapshotOp) {s : CodeSnapshot}
    (hsave : saveGraphSnapshot (snapshotMachine.run .empty ops).graph = some s) :
    let g := (snapshotMachine.run .empty ops).graph
    ((snapshotIntoRows s).nodes = g.nodes ∧ (snapshotIntoRows s).files = g.files) ∧
      (RowsFaithful g (snapshotIntoRows s) ↔
        ∀ e ∈ g.edges, g.LastOfKey e.src ∧ g.LastOfKey e.dst) := by
  intro g
  have hrows : RowsInv g := (rowsInv_run ops).1
  obtain ⟨hsnapshot, hfits⟩ := saveGraphSnapshot_eq_some hsave
  rw [hsnapshot]
  refine ⟨?_, hrows.rows_faithful_iff hfits⟩
  rw [hrows.snapshotIntoRows_eq hfits]
  exact ⟨rfl, rfl⟩

theorem snapshot_faithful_call :
    let g := (snapshotMachine.run .empty
      [.event (.nodeDefined "app::main" "FUNCTION" "src/main.rs" 3) false,
       .event (.nodeDefined "app::load" "FUNCTION" "src/main.rs" 9) false,
       .event (.edgeDefined "app::main" "app::load" "CALLS") false]).graph
    ((snapshotIntoRows (snapshotOf g)).nodes = g.nodes ∧
        (snapshotIntoRows (snapshotOf g)).files = g.files) ∧
      (RowsFaithful g (snapshotIntoRows (snapshotOf g)) ↔
        ∀ e ∈ g.edges, g.LastOfKey e.src ∧ g.LastOfKey e.dst) :=
  snapshot_faithful_iff _ (if_neg (by decide +kernel))

/-- The edge of the first anonymous module comes back as one of the second. -/
theorem anonymous_module_edge_moves :
    let g := (snapshotMachine.run .empty
      [.event (.nodeDefined "app::main" "FUNCTION" "src/main.rs" 3) false,
       .event (.nodeDefined "" "MODULE" "src/main.rs" 1) false,
       .reload { tlogOffset := 96, eventCount := 2, createdAt := 0, version := 2 },
       .event (.edgeDefined "" "app::main" "CONTAINS") false,
       .event (.nodeDefined "" "MODULE" "src/load.rs" 1) false]).graph
    saveGraphSnapshot g = some (snapshotOf g) ∧
      g.edges = [{ src := 1, dst := 0, kind := "CONTAINS" }] ∧
      (snapshotIntoRows (snapshotOf g)).edges = [{ src := 2, dst := 0, kind := "CONTAINS" }] ∧
      ¬ RowsFaithful g (snapshotIntoRows (snapshotOf g)) := by
  intro g
  have hedges : g.edges = [{ src := 1, dst := 0, kind := "CONTAINS" }] := by decide +kernel
  have hloaded : (snapshotIntoRows (snapshotOf g)).edges =
      [{ src := 2, dst := 0, kind := "CONTAINS" }] := by decide +kernel
  refine ⟨if_neg (by decide +kernel), hedges, hloaded, ?_⟩
  intro h
  have hsame := h.edges
  rw [hedges, hloaded] at hsame
  exact absurd hsame (by decide)

end Canon.Graph
