import Mathlib.Algebra.GroupWithZero.Nat
import Mathlib.Data.List.Nodup
import Canon.Graph.Invariant

/-! # Graph snapshots

    `save_graph_snapshot` and `snapshot_into_rows` of `snapshot.rs`.  A snapshot
    names files by path and the ends of an edge by symbol and kind; loading it
    numbers everything anew, again with numbers cut to a `u32`.  For a projection that
    was built by events and is small enough to be saved the two are inverse to each
    other.  The archive format in between is left out.
-/

namespace Canon.Graph

/-! ### Data -/

structure SnapshotMeta where
  tlogOffset : Nat
  eventCount : Nat
  createdAt : Nat
  version : Nat

structure CodeSnapshotNode where
  kind : String
  symbol : String
  file : String
  line : Nat
  column : Nat

structure CodeSnapshotEdge where
  srcSymbol : String
  srcKind : String
  dstSymbol : String
  dstKind : String
  kind : String

structure CodeSnapshot where
  nodes : List CodeSnapshotNode
  edges : List CodeSnapshotEdge
  files : List String

/-! ### Saving -/

def snapshotNode (files : List String) (node : CodeGraphNode) : CodeSnapshotNode where
  kind := node.kind
  symbol := node.symbol
  file := (node.fileId.bind fun id => files[id]?).getD ""
  line := node.line.getD 0
  column := 0

def idToKind (nodes : List CodeGraphNode) : FMap Nat (String × String) :=
  FMap.empty.insertAll (nodes.map fun n => (n.id, (n.symbol, n.kind)))

def snapshotEdge (nodes : List CodeGraphNode) (edge : CodeGraphEdge) : CodeSnapshotEdge :=
  let src := (idToKind nodes edge.src).getD ("", "UNKNOWN")
  let dst := (idToKind nodes edge.dst).getD ("", "UNKNOWN")
  { srcSymbol := src.1, srcKind := src.2, dstSymbol := dst.1, dstKind := dst.2,
    kind := edge.kind }

def snapshotOf (g : CodeGraphProjection) : CodeSnapshot where
  nodes := g.nodes.map (snapshotNode g.files)
  edges := g.edges.map (snapshotEdge g.nodes)
  files := g.files

def estimateSnapshotSize (s : CodeSnapshot) : Nat :=
  (s.nodes.map fun n =>
      n.kind.utf8ByteSize + n.symbol.utf8ByteSize + n.file.utf8ByteSize + 64).sum
    + (s.edges.map fun e =>
        e.srcSymbol.utf8ByteSize + e.srcKind.utf8ByteSize + e.dstSymbol.utf8ByteSize
          + e.dstKind.utf8ByteSize + e.kind.utf8ByteSize + 64).sum
    + (s.files.map fun f => f.utf8ByteSize + 16).sum

/-- What is written, if the snapshot is not too large. -/
def saveGraphSnapshot (g : CodeGraphProjection) : Option CodeSnapshot :=
  if estimateSnapshotSize (snapshotOf g) > 2 ^ 31 - 1 then none else some (snapshotOf g)

/-! ### Loading -/

/-- The tables of the loading loop. -/
structure RowState where
  nodes : List CodeGraphNode
  files : List String
  fileMap : FMap String Nat
  keyToId : FMap (String × String) Nat

def rowNode (st : RowState) (node : CodeSnapshotNode) : RowState :=
  let id := asU32 st.nodes.length
  let row (fileId : Option Nat) : CodeGraphNode :=
    { id := id, kind := node.kind, symbol := node.symbol, fileId := fileId,
      line := lineOf node.line }
  let keyToId := st.keyToId.insert (node.symbol, node.kind) id
  if node.file.isEmpty then
    { st with nodes := st.nodes ++ [row none], keyToId := keyToId }
  else
    match st.fileMap node.file with
    | some fileId => { st with nodes := st.nodes ++ [row (some fileId)], keyToId := keyToId }
    | none =>
      let fileId := asU32 st.files.length
      { nodes := st.nodes ++ [row (some fileId)]
        files := st.files ++ [node.file]
        fileMap := st.fileMap.insert node.file fileId
        keyToId := keyToId }

/-- An edge whose ends are not among the nodes is dropped. -/
def rowEdge (keyToId : FMap (String × String) Nat) (edge : CodeSnapshotEdge) :
    Option CodeGraphEdge :=
  (keyToId (edge.srcSymbol, edge.srcKind)).bind fun src =>
    (keyToId (edge.dstSymbol, edge.dstKind)).map fun dst =>
      { src := src, dst := dst, kind := edge.kind }

def fileMapOf (files : List String) : FMap String Nat :=
  FMap.empty.insertAll (files.zipIdx.map fun e => (e.1, asU32 e.2))

def snapshotIntoRows (s : CodeSnapshot) : CodeGraphProjection :=
  let st := s.nodes.foldl rowNode
    { nodes := [], files := s.files, fileMap := fileMapOf s.files, keyToId := FMap.empty }
  { nodes := st.nodes, edges := s.edges.filterMap (rowEdge st.keyToId), files := st.files }

def rebuildSymbolIndex (nodes : List CodeGraphNode) : FMap String Nat :=
  FMap.empty.insertAll (nodes.map fun n => (n.symbol, n.id))

/-! ### The size of a snapshot -/

/-- No number of a node or a file is cut. -/
structure NumbersFit (g : CodeGraphProjection) : Prop where
  nodes : g.nodes.length ≤ 2 ^ 32
  files : g.files.length ≤ 2 ^ 32

theorem length_le_sum_map {α : Type} (l : List α) {f : α → Nat} (hf : ∀ a, 0 < f a) :
    l.length ≤ (l.map f).sum := by
  induction l with
  | nil => exact Nat.zero_le _
  | cons a l ih =>
    have ha := hf a
    rw [List.length_cons, List.map_cons, List.sum_cons]
    omega

/-- What is written has an entry of some bytes for each node and file. -/
theorem saveGraphSnapshot_eq_some {g : CodeGraphProjection} {s : CodeSnapshot}
    (h : saveGraphSnapshot g = some s) : s = snapshotOf g ∧ NumbersFit g := by
  unfold saveGraphSnapshot at h
  split at h
  · cases h
  · rename_i hsize
    refine ⟨(Option.some.inj h).symm, ?_⟩
    unfold estimateSnapshotSize at hsize
    have hnodes := length_le_sum_map (snapshotOf g).nodes
      (f := fun n => n.kind.utf8ByteSize + n.symbol.utf8ByteSize + n.file.utf8ByteSize + 64)
      (fun _ => by omega)
    have hfiles := length_le_sum_map (snapshotOf g).files
      (f := fun f => f.utf8ByteSize + 16) (fun _ => by omega)
    have hlen : (snapshotOf g).nodes.length = g.nodes.length := List.length_map _
    have hsame : (snapshotOf g).files.length = g.files.length := rfl
    constructor <;> omega

/-! ### Round trip -/

theorem fileMapOf_getElem? {files : List String} (hnd : files.Nodup) {f : Nat} {path : String}
    (hf : files[f]? = some path) : fileMapOf files path = some (asU32 f) := by
  apply FMap.insertAll_of_forall
  · exact List.mem_map.mpr ⟨(path, f), List.mem_zipIdx_iff_getElem?.mpr hf, rfl⟩
  · intro e he hp
    obtain ⟨⟨p, i⟩, hmem, rfl⟩ := List.mem_map.mp he
    have hi : files[i]? = some p := List.mem_zipIdx_iff_getElem?.mp hmem
    obtain ⟨hlt, hget⟩ := List.getElem?_eq_some_iff.mp hf
    obtain ⟨hlt', hget'⟩ := List.getElem?_eq_some_iff.mp hi
    have heq : files[i] = files[f] := by rw [hget, hget']; exact hp
    rw [(List.Nodup.getElem_inj_iff hnd).mp heq]

section Rows

variable {g : CodeGraphProjection}

theorem RowsInv.idToKind_getElem? (h : RowsInv g) (hfits : NumbersFit g) {i : Nat}
    {n : CodeGraphNode} (hn : g.nodes[i]? = some n) :
    idToKind g.nodes i = some (n.symbol, n.kind) := by
  have hi := h.exact hfits.nodes i n hn
  apply FMap.insertAll_of_forall
  · exact List.mem_map.mpr ⟨n, List.mem_of_getElem? hn, by rw [hi]⟩
  · rintro e he hkey
    obtain ⟨m, hm, rfl⟩ := List.mem_map.mp he
    obtain ⟨j, hj⟩ := List.mem_iff_getElem?.mp hm
    have hj' := h.exact hfits.nodes j m hj
    obtain rfl : j = i := by rw [← hj']; exact hkey
    rw [hn] at hj
    rw [Option.some.inj hj]

/-- A node comes back from its row as it was, as long as the rows before it did. -/
theorem RowsInv.rowNode_snapshotNode (h : RowsInv g) (hfits : NumbersFit g) {rows : RowState}
    {n : CodeGraphNode} (hn : g.nodes[rows.nodes.length]? = some n)
    (hmap : rows.fileMap = fileMapOf g.files) :
    rowNode rows (snapshotNode g.files n) =
      { rows with
        nodes := rows.nodes ++ [n]
        keyToId := rows.keyToId.insert (n.symbol, n.kind) rows.nodes.length } := by
  have hmem := List.mem_of_getElem? hn
  have hid := h.ids _ n hn
  have hnumber : asU32 rows.nodes.length = rows.nodes.length := by
    rw [← hid]
    exact h.exact hfits.nodes _ n hn
  -- Zero stands for no line, and no node has line zero.
  have hline : lineOf (n.line.getD 0) = n.line := by
    cases hl : n.line with
    | none => rfl
    | some l =>
      have hne : l ≠ 0 := by
        rintro rfl
        exact h.lines n hmem hl
      simp [lineOf, Nat.pos_of_ne_zero hne]
  cases hf : n.fileId with
  | none =>
    have hrow : CodeGraphNode.mk rows.nodes.length n.kind n.symbol none n.line = n := by
      rw [← hnumber, ← hid, ← hf]
    simp [rowNode, snapshotNode, hf, hline, hnumber, hrow]
  | some f =>
    have hlt := h.fileIds n hmem f hf
    have hpath : g.files[f]? = some g.files[f] := List.getElem?_eq_getElem hlt
    have hne : g.files[f] ≠ "" := by
      intro hempty
      exact h.filesNamed (hempty ▸ List.getElem_mem hlt)
    have hfile : asU32 f = f := by
      have hsmall := hfits.files
      exact asU32_of_lt (by omega)
    have hrow : CodeGraphNode.mk rows.nodes.length n.kind n.symbol (some f) n.line = n := by
      rw [← hnumber, ← hid, ← hf]
    simp [rowNode, snapshotNode, hf, hline, hnumber, hrow, hpath, hne, hmap, hfile,
      fileMapOf_getElem? h.filesNodup hpath]

/-- The keys under which the loading loop files the nodes. -/
def keysOf (nodes : List CodeGraphNode) : FMap (String × String) Nat :=
  FMap.empty.insertAll (nodes.zipIdx.map fun e => ((e.1.symbol, e.1.kind), e.2))

theorem keysOf_concat (nodes : List CodeGraphNode) (n : CodeGraphNode) :
    keysOf (nodes ++ [n]) = (keysOf nodes).insert (n.symbol, n.kind) nodes.length := by
  simp only [keysOf, List.zipIdx_append, List.map_append, List.zipIdx_singleton,
    List.map_singleton, Nat.zero_add]
  rw [FMap.insertAll_concat]

theorem RowsInv.foldl_rowNode (h : RowsInv g) (hfits : NumbersFit g)
    (before after : List CodeGraphNode)
    (hsplit : g.nodes = before ++ after) :
    (after.map (snapshotNode g.files)).foldl rowNode
        { nodes := before, files := g.files, fileMap := fileMapOf g.files,
          keyToId := keysOf before }
      = { nodes := g.nodes, files := g.files,
          fileMap := fileMapOf g.files, keyToId := keysOf g.nodes } := by
  -- Induction on the rows still to load, with the nodes loaded so far as they were.
  induction after generalizing before with
  | nil => rw [hsplit, List.append_nil, List.map_nil, List.foldl_nil]
  | cons n after ih =>
    have hn : g.nodes[before.length]? = some n := by simp [hsplit]
    rw [List.map_cons, List.foldl_cons, h.rowNode_snapshotNode hfits hn rfl]
    simp only [← keysOf_concat]
    exact ih _ (by rw [hsplit, List.append_assoc, List.singleton_append])

/-- Nodes and files come back as they were; of the edges, those whose ends are found. -/
theorem RowsInv.snapshotIntoRows_eq (h : RowsInv g) (hfits : NumbersFit g) :
    snapshotIntoRows (snapshotOf g) =
      { g with
        edges := g.edges.filterMap (rowEdge (keysOf g.nodes) ∘ snapshotEdge g.nodes) } := by
  have hrows := h.foldl_rowNode hfits [] g.nodes rfl
  have hempty : keysOf [] = FMap.empty := rfl
  rw [hempty] at hrows
  simp only [snapshotIntoRows, snapshotOf, hrows, List.filterMap_map]

end Rows

section RoundTrip

variable {st : GraphState}

theorem GraphInv.keysOf_nodes (h : GraphInv st) {i : Nat} {n : CodeGraphNode}
    (hn : st.graph.nodes[i]? = some n) (hne : n.symbol ≠ "") :
    keysOf st.graph.nodes (n.symbol, n.kind) = some i := by
  apply FMap.insertAll_of_forall
  · exact List.mem_map.mpr ⟨(n, i), List.mem_zipIdx_iff_getElem?.mpr hn, rfl⟩
  · rintro e he hkey
    obtain ⟨⟨m, j⟩, hm, rfl⟩ := List.mem_map.mp he
    have hj : st.graph.nodes[j]? = some m := List.mem_zipIdx_iff_getElem?.mp hm
    -- The key of another node has another symbol.
    have hsym : m.symbol = n.symbol := (Prod.mk.inj hkey).1
    exact h.eq_of_symbol hj hn hsym (hsym ▸ hne)

/-- **A projection survives its snapshot.** -/
theorem GraphInv.snapshotIntoRows_snapshotOf (h : GraphInv st) (hfits : NumbersFit st.graph) :
    snapshotIntoRows (snapshotOf st.graph) = st.graph := by
  have hsome : ∀ e ∈ st.graph.edges,
      (rowEdge (keysOf st.graph.nodes) ∘ snapshotEdge st.graph.nodes) e = some e := by
    intro e he
    obtain ⟨⟨s, hs, hsne⟩, d, hd, hdne⟩ := h.edges e he
    simp [rowEdge, snapshotEdge, h.rows.idToKind_getElem? hfits hs,
      h.rows.idToKind_getElem? hfits hd, h.keysOf_nodes hs hsne, h.keysOf_nodes hd hdne]
  rw [h.rows.snapshotIntoRows_eq hfits, List.filterMap_congr hsome, List.filterMap_some]

/-- The rebuilt index has the entries of the old one; it may have one more, under
    the empty symbol. -/
theorem GraphInv.rebuildSymbolIndex (h : GraphInv st) {symbol : String} (hne : symbol ≠ "") :
    rebuildSymbolIndex st.graph.nodes symbol = st.symbolToId symbol := by
  cases hid : st.symbolToId symbol with
  | some id =>
    obtain ⟨-, n, hn, hs⟩ := h.node_of_index hid
    apply FMap.insertAll_of_forall
    · exact List.mem_map.mpr ⟨n, List.mem_of_getElem? hn, by rw [hs, h.ids id n hn]⟩
    · rintro e he hkey
      obtain ⟨m, hm, rfl⟩ := List.mem_map.mp he
      obtain ⟨j, hj⟩ := List.mem_iff_getElem?.mp hm
      have hsym : m.symbol = symbol := hkey
      have hjd := h.eq_of_symbol hj hn (hkey.trans hs.symm) (hsym ▸ hne)
      rw [h.ids j m hj, hjd]
  | none =>
    have hnone : ∀ e ∈ st.graph.nodes.map (fun n => (n.symbol, n.id)), e.1 ≠ symbol := by
      rintro e he rfl
      obtain ⟨n, hn, rfl⟩ := List.mem_map.mp he
      obtain ⟨i, hi⟩ := List.mem_iff_getElem?.mp hn
      rw [(h.index _ _).mpr ⟨hne, n, hi, rfl⟩] at hid
      cases hid
    exact FMap.insertAll_of_not_mem hnone _

end RoundTrip

end Canon.Graph
