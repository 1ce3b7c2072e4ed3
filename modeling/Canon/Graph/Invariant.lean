import Canon.Graph.Projection

/-! # The projection's invariant

    Positions, numbers, symbols and the index agree, and nothing refers to a node
    or a file that is not there.  Removal is the hard case: one node moves, and
    its number, its index entry and its edges have to follow it at once.

    * `GraphInv`, `GraphInv.step`: the invariant, as long as node numbers are not cut,
    * `RowsInv`: what holds of nodes and files also when they are,
    * `projection_consistent_iff`: the projections of a run are consistent exactly as
      long as every new node fits.
-/

namespace Canon.Graph

/-- Besides what makes a projection consistent, the invariant says that edges only
    join nodes with a symbol, that no file is the empty path and that no line is
    zero; the snapshots rely on these. -/
structure GraphInv (st : GraphState) : Prop where
  ids : ∀ i (n : CodeGraphNode), st.graph.nodes[i]? = some n → n.id = i
  small : st.graph.nodes.length ≤ 2 ^ 32
  index : ∀ symbol id, st.symbolToId symbol = some id ↔
    symbol ≠ "" ∧ ∃ n : CodeGraphNode, st.graph.nodes[id]? = some n ∧ n.symbol = symbol
  edges : ∀ e ∈ st.graph.edges,
    (∃ n : CodeGraphNode, st.graph.nodes[e.src]? = some n ∧ n.symbol ≠ "") ∧
      ∃ n : CodeGraphNode, st.graph.nodes[e.dst]? = some n ∧ n.symbol ≠ ""
  fileIds : ∀ n ∈ st.graph.nodes, ∀ f, n.fileId = some f → f < st.graph.files.length
  filesNodup : st.graph.files.Nodup
  filesNamed : "" ∉ st.graph.files
  lines : ∀ n ∈ st.graph.nodes, n.line ≠ some 0

/-- The part of it that is about nodes and files alone and does not need the index. -/
structure RowsInv (g : CodeGraphProjection) : Prop where
  ids : ∀ i (n : CodeGraphNode), g.nodes[i]? = some n → n.id = asU32 i
  fileIds : ∀ n ∈ g.nodes, ∀ f, n.fileId = some f → f < g.files.length
  filesNodup : g.files.Nodup
  filesNamed : "" ∉ g.files
  lines : ∀ n ∈ g.nodes, n.line ≠ some 0

theorem GraphInv.rows {st : GraphState} (h : GraphInv st) : RowsInv st.graph where
  ids := by
    intro i n hn
    have hlt := (List.getElem?_eq_some_iff.mp hn).1
    rw [h.ids i n hn, asU32_of_lt (by have := h.small; omega)]
  fileIds := h.fileIds
  filesNodup := h.filesNodup
  filesNamed := h.filesNamed
  lines := h.lines

/-- Numbers of a graph that fits are not cut. -/
theorem RowsInv.exact {g : CodeGraphProjection} (h : RowsInv g) (hsmall : g.nodes.length ≤ 2 ^ 32)
    (i : Nat) (n : CodeGraphNode) (hn : g.nodes[i]? = some n) : n.id = i := by
  have hlt := (List.getElem?_eq_some_iff.mp hn).1
  rw [h.ids i n hn, asU32_of_lt (by omega)]

theorem RowsInv.graphInv {st : GraphState} (h : RowsInv st.graph)
    (hsmall : st.graph.nodes.length ≤ 2 ^ 32)
    (hindex : ∀ symbol id, st.symbolToId symbol = some id ↔
      symbol ≠ "" ∧ ∃ n : CodeGraphNode, st.graph.nodes[id]? = some n ∧ n.symbol = symbol)
    (hedges : ∀ e ∈ st.graph.edges,
      (∃ n : CodeGraphNode, st.graph.nodes[e.src]? = some n ∧ n.symbol ≠ "") ∧
        ∃ n : CodeGraphNode, st.graph.nodes[e.dst]? = some n ∧ n.symbol ≠ "") : GraphInv st :=
  ⟨h.exact hsmall, hsmall, hindex, hedges, h.fileIds, h.filesNodup, h.filesNamed, h.lines⟩

theorem GraphInv.empty : GraphInv .empty where
  ids := by simp [GraphState.empty, CodeGraphProjection.default]
  small := Nat.zero_le _
  index := by simp [GraphState.empty, CodeGraphProjection.default]
  edges := by simp [GraphState.empty, CodeGraphProjection.default]
  fileIds := by simp [GraphState.empty, CodeGraphProjection.default]
  filesNodup := by simp [GraphState.empty, CodeGraphProjection.default]
  filesNamed := by simp [GraphState.empty, CodeGraphProjection.default]
  lines := by simp [GraphState.empty, CodeGraphProjection.default]

section Lookup

variable {st : GraphState}

/-- A symbol names one node. -/
theorem GraphInv.eq_of_symbol (h : GraphInv st) {i j : Nat} {n m : CodeGraphNode}
    (hi : st.graph.nodes[i]? = some n) (hj : st.graph.nodes[j]? = some m)
    (hs : n.symbol = m.symbol) (hne : n.symbol ≠ "") : i = j := by
  have hi' := (h.index n.symbol i).mpr ⟨hne, n, hi, rfl⟩
  have hj' := (h.index n.symbol j).mpr ⟨hne, m, hj, hs.symm⟩
  exact Option.some.inj (hi'.symm.trans hj')

theorem GraphInv.symbolToId_empty (h : GraphInv st) : st.symbolToId "" = none := by
  cases hid : st.symbolToId "" with
  | none => rfl
  | some id => exact absurd rfl ((h.index "" id).mp hid).1

/-- The index entry of a symbol leads to its node. -/
theorem GraphInv.node_of_index (h : GraphInv st) {symbol : String} {id : Nat}
    (hid : st.symbolToId symbol = some id) :
    symbol ≠ "" ∧ ∃ n : CodeGraphNode, st.graph.nodes[id]? = some n ∧ n.symbol = symbol :=
  (h.index symbol id).mp hid

theorem GraphState.ends_eq_some {src dst : String} {s d : Nat} :
    st.ends src dst = some (s, d) ↔ st.symbolToId src = some s ∧ st.symbolToId dst = some d := by
  simp only [GraphState.ends, Option.bind_eq_some_iff, Option.map_eq_some_iff, Prod.mk.injEq]
  constructor
  · rintro ⟨s', hs', d', hd', rfl, rfl⟩
    exact ⟨hs', hd'⟩
  · rintro ⟨hs, hd⟩
    exact ⟨s, hs, d, hd, rfl, rfl⟩

/-- Whatever the index says, a node that is found is there. -/
theorem getElem?_of_findNode {symbol : String} {id : Nat} {node : CodeGraphNode}
    (hfind : st.findNode symbol = some (id, node)) : st.graph.nodes[id]? = some node := by
  simp only [GraphState.findNode] at hfind
  split at hfind
  · cases hfind
  · simp only [Option.bind_eq_some_iff, Option.map_eq_some_iff, Prod.mk.injEq] at hfind
    obtain ⟨i, -, n, hn, rfl, rfl⟩ := hfind
    exact hn

theorem GraphInv.findNode_iff (h : GraphInv st) {symbol : String} {id : Nat}
    {node : CodeGraphNode} :
    st.findNode symbol = some (id, node) ↔
      symbol ≠ "" ∧ st.graph.nodes[id]? = some node ∧ node.symbol = symbol := by
  simp only [GraphState.findNode, String.isEmpty_iff]
  split
  · simp [*]
  · rename_i hne
    simp only [Option.bind_eq_some_iff, Option.map_eq_some_iff, Prod.mk.injEq]
    constructor
    · rintro ⟨id', hid, n, hn, rfl, rfl⟩
      -- The index cannot lead to a node of another symbol.
      obtain ⟨hsym, m, hm, hms⟩ := h.node_of_index hid
      rw [hn] at hm
      obtain rfl := Option.some.inj hm
      exact ⟨hne, hn, hms⟩
    · rintro ⟨_, hn, rfl⟩
      exact ⟨id, (h.index _ _).mpr ⟨hne, node, hn, rfl⟩, node, hn, rfl, rfl⟩

theorem GraphInv.symbolToId_of_findNode (h : GraphInv st) {symbol : String}
    (hfind : st.findNode symbol = none) (hne : symbol ≠ "") : st.symbolToId symbol = none := by
  cases hid : st.symbolToId symbol with
  | none => rfl
  | some id =>
    obtain ⟨-, n, hn, hs⟩ := h.node_of_index hid
    rw [h.findNode_iff.mpr ⟨hne, hn, hs⟩] at hfind
    cases hfind

end Lookup

/-! ### Files -/

variable (files : List String) (file : String)

theorem internFile_fst :
    (internFile files file).1 = asU32 (filePosition files file) := by
  unfold internFile filePosition
  cases files.findIdx? (· == file) <;> rfl

theorem internFile_spec :
    (internFile files file).2[filePosition files file]? = some file ∧
      (∃ more, (internFile files file).2 = files ++ more) ∧
      (files.Nodup → (internFile files file).2.Nodup) ∧
      ∀ f ∈ (internFile files file).2, f ∈ files ∨ f = file := by
  unfold internFile filePosition
  split
  · rename_i idx hidx
    rw [hidx, Option.getD_some]
    obtain ⟨hlt, heq, -⟩ := List.findIdx?_eq_some_iff_getElem.mp hidx
    refine ⟨?_, ⟨[], (List.append_nil files).symm⟩, id, fun f hf => .inl hf⟩
    simpa [List.getElem?_eq_getElem hlt] using heq
  · rename_i hnone
    rw [hnone, Option.getD_none]
    have hnew : file ∉ files := by
      rw [List.findIdx?_eq_none_iff] at hnone
      intro hmem
      simpa using hnone file hmem
    refine ⟨by simp, ⟨[file], rfl⟩, ?_, by simp⟩
    intro hnd
    rw [List.nodup_append]
    exact ⟨hnd, by simp, by simpa using fun f hf (hff : f = file) => hnew (hff ▸ hf)⟩

/-- The files after a node event; old file numbers keep their meaning. -/
def filesAfter : List String :=
  if file.isEmpty then files else (internFile files file).2

theorem filesAfter_spec {files : List String} (hnd : files.Nodup) (hne : "" ∉ files)
    (file : String) :
    (filesAfter files file).Nodup ∧ "" ∉ filesAfter files file ∧
      ∃ more, filesAfter files file = files ++ more := by
  unfold filesAfter
  split
  · exact ⟨hnd, hne, [], (List.append_nil files).symm⟩
  · rename_i hfile
    obtain ⟨-, hmore, hnd', hmem⟩ := internFile_spec files file
    refine ⟨hnd' hnd, ?_, hmore⟩
    intro hempty
    rcases hmem "" hempty with h | h
    · exact hne h
    · exact hfile (by simp [← h])

theorem internFile_fst_lt :
    (internFile files file).1 < (internFile files file).2.length := by
  have hlt := (List.getElem?_eq_some_iff.mp (internFile_spec files file).1).1
  rw [internFile_fst]
  exact Nat.lt_of_le_of_lt (asU32_le _) hlt

theorem lineOf_ne_zero (line : Nat) : lineOf line ≠ some 0 := by
  unfold lineOf
  split
  · simp
    omega
  · simp

/-! ### Updates and new nodes -/

section Steps

variable {st : GraphState}
variable {id : Nat} {node : CodeGraphNode} {symbol kind : String}

theorem RowsInv.of_updateNode (h : RowsInv st.graph) (hnode : st.graph.nodes[id]? = some node)
    (kind file : String) (line : Nat) :
    RowsInv (updateNode st id node kind file line).graph := by
  obtain ⟨hfnd, hfne, more, hmore⟩ := filesAfter_spec h.filesNodup h.filesNamed file
  have hmem : node ∈ st.graph.nodes := List.mem_of_getElem? hnode
  refine ⟨?_, ?_, hfnd, hfne, ?_⟩
  · intro i n' hn'
    simp only [updateNode, List.getElem?_set] at hn'
    split at hn'
    · rename_i heq
      obtain rfl := Option.some.inj ((if_pos (by
        have hlt := (List.getElem?_eq_some_iff.mp hnode).1
        omega)).symm.trans hn')
      exact h.ids i node (heq ▸ hnode)
    · exact h.ids i n' hn'
  · intro n' hn' f hf
    show f < (filesAfter st.graph.files file).length
    rcases List.mem_or_eq_of_mem_set hn' with hold | rfl
    · have hlt' := h.fileIds n' hold f hf
      rw [hmore, List.length_append]
      omega
    · simp only at hf
      split at hf
      · have hlt' := h.fileIds node hmem f hf
        rw [hmore, List.length_append]
        omega
      · rename_i hfile
        rw [filesAfter, if_neg hfile, ← Option.some.inj hf]
        exact internFile_fst_lt _ _
  · intro n' hn'
    rcases List.mem_or_eq_of_mem_set hn' with hold | rfl
    · exact h.lines n' hold
    · simp only
      split
      · exact lineOf_ne_zero line
      · exact h.lines node hmem

theorem GraphInv.of_updateNode (h : GraphInv st) (hnode : st.graph.nodes[id]? = some node)
    (kind file : String) (line : Nat) :
    GraphInv (updateNode st id node kind file line) := by
  have hrows := h.rows.of_updateNode hnode kind file line
  -- Only the fields of one node change, and not its symbol.
  have hlt : id < st.graph.nodes.length := (List.getElem?_eq_some_iff.mp hnode).1
  have hget : ∀ (i : Nat) (n' : CodeGraphNode),
      (updateNode st id node kind file line).graph.nodes[i]? = some n' →
      ∃ n : CodeGraphNode, st.graph.nodes[i]? = some n ∧ n'.symbol = n.symbol := by
    intro i n' hn'
    simp only [updateNode, List.getElem?_set] at hn'
    split at hn'
    · rename_i heq
      obtain rfl := Option.some.inj hn'
      exact ⟨node, heq ▸ hnode, rfl⟩
    · exact ⟨n', hn', rfl⟩
  have hget' : ∀ (i : Nat) (n : CodeGraphNode), st.graph.nodes[i]? = some n →
      ∃ n' : CodeGraphNode, (updateNode st id node kind file line).graph.nodes[i]? = some n' ∧
        n'.symbol = n.symbol := by
    intro i n hn
    simp only [updateNode, List.getElem?_set]
    split
    · rename_i heq
      rw [← heq, hnode] at hn
      obtain rfl := Option.some.inj hn
      exact ⟨_, rfl, rfl⟩
    · exact ⟨n, hn, rfl⟩
  apply hrows.graphInv
  · show (st.graph.nodes.set id _).length ≤ 2 ^ 32
    rw [List.length_set]
    exact h.small
  · intro symbol i
    show st.symbolToId symbol = some i ↔ _
    rw [h.index]
    constructor
    · rintro ⟨hne, n, hn, hs⟩
      obtain ⟨n', hn', hs'⟩ := hget' i n hn
      exact ⟨hne, n', hn', hs'.trans hs⟩
    · rintro ⟨hne, n', hn', hs'⟩
      obtain ⟨n, hn, hs⟩ := hget i n' hn'
      exact ⟨hne, n, hn, hs.symm.trans hs'⟩
  · intro e he
    obtain ⟨⟨s, hs, hsne⟩, d, hd, hdne⟩ := h.edges e he
    obtain ⟨s', hs', hseq⟩ := hget' _ s hs
    obtain ⟨d', hd', hdeq⟩ := hget' _ d hd
    exact ⟨⟨s', hs', hseq ▸ hsne⟩, d', hd', hdeq ▸ hdne⟩

theorem getElem?_pushNode {symbol kind file : String} {line i : Nat} {n : CodeGraphNode}
    (hn : (pushNode st symbol kind file line).graph.nodes[i]? = some n) :
    st.graph.nodes[i]? = some n ∨
      i = st.graph.nodes.length ∧ n.id = asU32 i ∧ n.symbol = symbol := by
  simp only [pushNode, List.getElem?_append] at hn
  split at hn
  · exact .inl hn
  · rw [List.getElem?_singleton] at hn
    split at hn
    · obtain rfl := Option.some.inj hn
      obtain rfl : i = st.graph.nodes.length := by omega
      exact .inr ⟨rfl, rfl, rfl⟩
    · cases hn

theorem RowsInv.of_pushNode (h : RowsInv st.graph) (symbol kind file : String) (line : Nat) :
    RowsInv (pushNode st symbol kind file line).graph := by
  obtain ⟨hfnd, hfne, more, hmore⟩ := filesAfter_spec h.filesNodup h.filesNamed file
  refine ⟨?_, ?_, hfnd, hfne, ?_⟩
  · intro i n hn
    rcases getElem?_pushNode hn with hold | ⟨-, hid, -⟩
    · exact h.ids i n hold
    · exact hid
  · intro n hn f hf
    show f < (filesAfter st.graph.files file).length
    rcases List.mem_append.mp hn with hold | hlast
    · have hlt' := h.fileIds n hold f hf
      rw [hmore, List.length_append]
      omega
    · rw [List.mem_singleton] at hlast
      subst hlast
      simp only at hf
      split at hf
      · cases hf
      · rename_i hfile
        rw [filesAfter, if_neg hfile, ← Option.some.inj hf]
        exact internFile_fst_lt _ _
  · intro n hn
    rcases List.mem_append.mp hn with hold | hlast
    · exact h.lines n hold
    · rw [List.mem_singleton] at hlast
      subst hlast
      exact lineOf_ne_zero line

theorem GraphInv.of_pushNode (h : GraphInv st) {symbol : String}
    (hnew : symbol ≠ "" → st.symbolToId symbol = none) (kind file : String) (line : Nat)
    (hfits : st.graph.nodes.length < 2 ^ 32) :
    GraphInv (pushNode st symbol kind file line) := by
  have hrows := h.rows.of_pushNode symbol kind file line
  have hkeep : ∀ (i : Nat) (n : CodeGraphNode), st.graph.nodes[i]? = some n →
      (pushNode st symbol kind file line).graph.nodes[i]? = some n := by
    intro i n hn
    have hlt := (List.getElem?_eq_some_iff.mp hn).1
    simp only [pushNode]
    rw [List.getElem?_append_left hlt]
    exact hn
  apply hrows.graphInv
  · show (st.graph.nodes ++ [_]).length ≤ 2 ^ 32
    rw [List.length_append, List.length_singleton]
    exact hfits
  · intro s i
    -- The index gets one entry, unless the node has no symbol.
    have hindex : (pushNode st symbol kind file line).symbolToId s =
        if s = symbol ∧ symbol ≠ "" then some st.graph.nodes.length else st.symbolToId s := by
      simp only [pushNode, String.isEmpty_iff, asU32_of_lt hfits]
      by_cases hs : symbol = "" <;> by_cases hss : s = symbol <;> simp [hs, hss, FMap.insert]
    rw [hindex]
    split
    · rename_i hcase
      obtain ⟨rfl, hne⟩ := hcase
      constructor
      · intro hi
        obtain rfl := Option.some.inj hi
        exact ⟨hne, _, by simp only [pushNode]; exact List.getElem?_concat_length, rfl⟩
      · rintro ⟨-, n, hn, hs⟩
        rcases getElem?_pushNode hn with hold | ⟨rfl, -, -⟩
        -- The symbol was not known before.
        · have hid := (h.index s i).mpr ⟨hne, n, hold, hs⟩
          rw [hnew hne] at hid
          cases hid
        · rfl
    · rename_i hcase
      rw [h.index]
      constructor
      · rintro ⟨hne, n, hn, hs⟩
        exact ⟨hne, n, hkeep i n hn, hs⟩
      · rintro ⟨hne, n, hn, hs⟩
        rcases getElem?_pushNode hn with hold | ⟨-, -, hs'⟩
        · exact ⟨hne, n, hold, hs⟩
        · have heq : s = symbol := hs.symm.trans hs'
          exact absurd ⟨heq, heq ▸ hne⟩ hcase
  · intro e he
    obtain ⟨⟨s, hs, hsne⟩, d, hd, hdne⟩ := h.edges e he
    exact ⟨⟨s, hkeep _ s hs, hsne⟩, d, hkeep _ d hd, hdne⟩

theorem applyNode_of_not_counts (h : countsAsNode symbol kind = false) (st : GraphState)
    (file : String) (line : Nat) :
    (applyNode st symbol kind file line).2 = st := by
  unfold countsAsNode at h
  unfold applyNode
  by_cases hkind : kind.isEmpty = true
  · simp [hkind]
  · by_cases hanon : symbol.isEmpty && kind != "MODULE"
    · simp [hkind, hanon]
    · simp_all

theorem applyNode_of_found (h : countsAsNode symbol kind = true)
    (hfind : st.findNode symbol = some (id, node)) (file : String) (line : Nat) :
    (applyNode st symbol kind file line).2 = updateNode st id node kind file line := by
  simp only [countsAsNode, Bool.and_eq_true, Bool.not_eq_true', Bool.or_eq_true] at h
  rw [applyNode, if_neg (by simp [h.1]), if_neg (by rcases h.2 with hs | hs <;> simp_all), hfind]

theorem applyNode_of_new (h : countsAsNode symbol kind = true) (hfind : st.findNode symbol = none)
    (file : String) (line : Nat) :
    (applyNode st symbol kind file line).2 = pushNode st symbol kind file line := by
  simp only [countsAsNode, Bool.and_eq_true, Bool.not_eq_true', Bool.or_eq_true] at h
  rw [applyNode, if_neg (by simp [h.1]), if_neg (by rcases h.2 with hs | hs <;> simp_all), hfind]

/-- A node event is turned away, updates a node or makes one. -/
theorem applyNode_cases (st : GraphState) (symbol kind file : String) (line : Nat) :
    (countsAsNode symbol kind = false ∧ (applyNode st symbol kind file line).2 = st) ∨
      (countsAsNode symbol kind = true ∧
        ((∃ id node, st.findNode symbol = some (id, node) ∧
            (applyNode st symbol kind file line).2 = updateNode st id node kind file line) ∨
          (st.findNode symbol = none ∧
            (applyNode st symbol kind file line).2 = pushNode st symbol kind file line))) := by
  cases hcounts : countsAsNode symbol kind with
  | false => exact .inl ⟨rfl, applyNode_of_not_counts hcounts st file line⟩
  | true =>
    cases hfind : st.findNode symbol with
    | none => exact .inr ⟨rfl, .inr ⟨rfl, applyNode_of_new hcounts hfind file line⟩⟩
    | some found =>
      exact .inr ⟨rfl, .inl ⟨found.1, found.2, rfl, applyNode_of_found hcounts hfind file line⟩⟩

theorem GraphInv.of_applyNode (h : GraphInv st) (symbol kind file : String) (line : Nat)
    (hfits : countsAsNode symbol kind = true → st.findNode symbol = none →
      st.graph.nodes.length < 2 ^ 32) :
    GraphInv (applyNode st symbol kind file line).2 := by
  rcases applyNode_cases st symbol kind file line with
    ⟨-, heq⟩ | ⟨hcounts, ⟨id, node, hfind, heq⟩ | ⟨hfind, heq⟩⟩
  · rw [heq]
    exact h
  · rw [heq]
    exact h.of_updateNode (h.findNode_iff.mp hfind).2.1 kind file line
  · rw [heq]
    exact h.of_pushNode (h.symbolToId_of_findNode hfind) kind file line (hfits hcounts hfind)

/-! ### Edges and files -/

/-- Edges may go, and come between nodes the index knows. -/
theorem GraphInv.withEdges (h : GraphInv st) {edges : List CodeGraphEdge}
    (hedges : ∀ e ∈ edges, e ∈ st.graph.edges ∨
      ∃ src dst, st.symbolToId src = some e.src ∧ st.symbolToId dst = some e.dst) :
    GraphInv (st.withEdges edges) := by
  refine ⟨h.ids, h.small, h.index, ?_, h.fileIds, h.filesNodup, h.filesNamed, h.lines⟩
  intro e he
  rcases hedges e he with hold | ⟨src, dst, hs, hd⟩
  · exact h.edges e hold
  · obtain ⟨hsne, s, hsn, hss⟩ := h.node_of_index hs
    obtain ⟨hdne, d, hdn, hds⟩ := h.node_of_index hd
    exact ⟨⟨s, hsn, hss ▸ hsne⟩, d, hdn, hds ▸ hdne⟩

theorem RowsInv.of_fileSeen (h : RowsInv st.graph) {path : String}
    (hnew : ¬ (path.isEmpty || st.graph.files.contains path) = true) :
    RowsInv { st.graph with files := st.graph.files ++ [path] } := by
  simp only [String.isEmpty_iff, List.contains_iff_mem, Bool.or_eq_true, not_or] at hnew
  refine ⟨h.ids, ?_, ?_, ?_, h.lines⟩
  · intro n hn f hf
    have hlt := h.fileIds n hn f hf
    simp only [List.length_append]
    omega
  · simp only [List.nodup_append, List.mem_singleton]
    exact ⟨h.filesNodup, by simp, fun f hf g hg hfg => hnew.2 (hg ▸ hfg ▸ hf)⟩
  · simpa using ⟨h.filesNamed, fun hp => hnew.1 hp⟩

/-! ### Removal -/

/-- The state after the removal of number `id`, given the last node. -/
theorem deleteNode_eq {front : List CodeGraphNode} {last removed : CodeGraphNode}
    (hnodes : st.graph.nodes = front ++ [last]) (hget : st.graph.nodes[id]? = some removed) :
    (deleteNode st id).2 =
      { graph :=
          { nodes := front.set id { last with id := id }
            edges :=
              let edges := st.graph.edges.filter fun e => e.src ≠ id ∧ e.dst ≠ id
              if id = front.length then edges else edges.map (redirect (asU32 front.length) id)
            files := st.graph.files }
        symbolToId := fun s =>
          if s = last.symbol ∧ s ≠ "" ∧ id ≠ front.length then some id
          else if s = removed.symbol ∧ s ≠ "" then none
          else st.symbolToId s } := by
  have hlen : st.graph.nodes.length - 1 = front.length := by rw [hnodes]; simp
  have hid : id < front.length + 1 := by
    have hlt := (List.getElem?_eq_some_iff.mp hget).1
    rw [hnodes, List.length_append] at hlt
    exact hlt
  simp only [deleteNode, hget, hlen]
  rw [hnodes, swapRemove_concat]
  by_cases hlast : id = front.length
  -- The last node goes, and nothing moves.
  · rw [if_neg (by simpa using hlast), if_pos hlast]
    have hset : ∀ n, front.set id n = front := fun n => List.set_eq_of_length_le (by omega)
    rw [hset, hset]
    simp only [GraphState.mk.injEq, true_and]
    funext s
    by_cases hs : removed.symbol = "" <;> by_cases hss : s = removed.symbol <;>
      simp [hs, hss, hlast, FMap.erase]
  · rw [if_pos hlast, if_neg hlast]
    have hlt : id < front.length := by omega
    -- The last node is in the gap now, still under its old number.
    have hmoved : (front.set id last)[id]? = some last := by
      rw [List.getElem?_set_self hlt]
    simp only [renumber, hmoved, List.set_set, GraphState.mk.injEq, true_and]
    funext s
    by_cases hl : last.symbol = "" <;> by_cases hs : removed.symbol = "" <;>
      by_cases hsl : s = last.symbol <;> by_cases hss : s = removed.symbol <;>
      simp [hl, hs, hsl, hss, hlast, FMap.erase, FMap.insert]

/-- The edges that are left, when the number of the last node is not cut. -/
theorem deleteNode_edges {front : List CodeGraphNode} {last removed : CodeGraphNode}
    (hnodes : st.graph.nodes = front ++ [last]) (hget : st.graph.nodes[id]? = some removed)
    (hsmall : st.graph.nodes.length ≤ 2 ^ 32) :
    (deleteNode st id).2.graph.edges =
      (st.graph.edges.filter fun e => e.src ≠ id ∧ e.dst ≠ id).map
        (redirect front.length id) := by
  rw [hnodes, List.length_append, List.length_singleton] at hsmall
  rw [deleteNode_eq hnodes hget]
  dsimp only
  split
  · rename_i hlast
    -- The edges that are left do not mention the last node.
    have hredirect : ∀ e, redirect front.length id e = e := by
      intro e
      have hsrc : (if e.src = front.length then id else e.src) = e.src := by split <;> omega
      have hdst : (if e.dst = front.length then id else e.dst) = e.dst := by split <;> omega
      simp only [redirect, hsrc, hdst]
    rw [List.map_congr_left fun e _ => hredirect e, List.map_id']
  · rw [asU32_of_lt (by omega)]

/-- A vector with an entry has a last one. -/
theorem exists_concat_of_getElem? {nodes : List CodeGraphNode} {n : CodeGraphNode}
    (h : nodes[id]? = some n) : ∃ front last, nodes = front ++ [last] ∧ id ≤ front.length := by
  have hlt := (List.getElem?_eq_some_iff.mp h).1
  have hne : nodes ≠ [] := List.length_pos_iff.mp (by omega)
  refine ⟨nodes.dropLast, nodes.getLast hne, (List.dropLast_append_getLast hne).symm, ?_⟩
  rw [List.length_dropLast]
  omega

/-- Where a node that stays is found after the removal of number `id`. -/
def moveTo (last id i : Nat) : Nat := if i = last then id else i

theorem redirect_eq (last id : Nat) (e : CodeGraphEdge) :
    redirect last id e = { e with src := moveTo last id e.src, dst := moveTo last id e.dst } := rfl

section Moved

variable {front : List CodeGraphNode} {last : CodeGraphNode} {id : Nat}

theorem GraphInv.getElem?_moveTo (h : GraphInv st) (hnodes : st.graph.nodes = front ++ [last])
    (hid : id ≤ front.length) {i : Nat} {n : CodeGraphNode} (hi : i ≠ id)
    (hn : st.graph.nodes[i]? = some n) :
    (front.set id { last with id := id })[moveTo front.length id i]? =
      some { n with id := moveTo front.length id i } := by
  have hni := h.ids i n hn
  rw [hnodes, List.getElem?_append] at hn
  unfold moveTo
  split
  · rename_i heq
    subst heq
    rw [if_neg (by omega), Nat.sub_self] at hn
    obtain rfl : last = n := Option.some.inj hn
    rw [List.getElem?_set_self (by omega)]
  · have hlt : i < front.length := by
      by_contra hge
      rw [if_neg hge, List.getElem?_singleton, if_neg (by omega)] at hn
      cases hn
    rw [if_pos hlt] at hn
    rw [List.getElem?_set_ne (Ne.symm hi), hn, ← hni]

theorem GraphInv.exists_of_getElem?_set (h : GraphInv st)
    (hnodes : st.graph.nodes = front ++ [last]) {j : Nat} {n' : CodeGraphNode}
    (hn' : (front.set id { last with id := id })[j]? = some n') :
    ∃ i n, i ≠ id ∧ st.graph.nodes[i]? = some n ∧ j = moveTo front.length id i ∧
      n' = { n with id := j } := by
  rw [List.getElem?_set] at hn'
  split at hn'
  · rename_i heq
    split at hn'
    · rename_i hlt
      obtain rfl := Option.some.inj hn'
      refine ⟨front.length, last, by omega, by simp [hnodes], by simp [moveTo, heq], ?_⟩
      rw [heq]
    · cases hn'
  · rename_i hne
    have hlt : j < front.length := (List.getElem?_eq_some_iff.mp hn').1
    have hold : st.graph.nodes[j]? = some n' := by
      rw [hnodes, List.getElem?_append_left hlt, hn']
    refine ⟨j, n', Ne.symm hne, hold, by rw [moveTo, if_neg (by omega)], ?_⟩
    rw [← h.ids j n' hold]

/-- After a removal the index knows the symbols of the nodes that stay, under the
    numbers these have now. -/
theorem GraphInv.deleteNode_symbolToId (h : GraphInv st) {removed : CodeGraphNode}
    (hnodes : st.graph.nodes = front ++ [last]) (hget : st.graph.nodes[id]? = some removed)
    (s : String) :
    (deleteNode st id).2.symbolToId s = (st.symbolToId s).bind fun i =>
      if i = id then none else some (moveTo front.length id i) := by
  have hlastget : st.graph.nodes[front.length]? = some last := by simp [hnodes]
  rw [deleteNode_eq hnodes hget]
  simp only
  cases hs : st.symbolToId s with
  | none =>
    have hnotlast : ¬ (s = last.symbol ∧ s ≠ "" ∧ id ≠ front.length) := by
      rintro ⟨rfl, hne, -⟩
      rw [(h.index _ _).mpr ⟨hne, last, hlastget, rfl⟩] at hs
      cases hs
    rw [if_neg hnotlast]
    simp
  | some i =>
    obtain ⟨hne, n, hn, hns⟩ := h.node_of_index hs
    -- Which of the two nodes in play the symbol names, told by its number.
    have hlast : s = last.symbol ↔ i = front.length := by
      constructor
      · rintro rfl
        exact h.eq_of_symbol hn hlastget hns (hns ▸ hne)
      · rintro rfl
        rw [hlastget] at hn
        rw [← hns, Option.some.inj hn]
    have hremoved : s = removed.symbol ↔ i = id := by
      constructor
      · rintro rfl
        exact h.eq_of_symbol hn hget hns (hns ▸ hne)
      · rintro rfl
        rw [hget] at hn
        rw [← hns, Option.some.inj hn]
    simp only [hlast, hremoved, hne, ne_eq, not_false_eq_true, true_and, and_true,
      Option.bind_some, moveTo]
    by_cases hi : i = id
    · simp only [hi, if_true]
      rw [if_neg (by tauto)]
    · by_cases hl : i = front.length
      · simp only [hl, true_and, if_true]
        rw [if_pos (by omega), if_neg (by omega)]
      · simp [hi, hl]

end Moved

theorem RowsInv.of_deleteNode (h : RowsInv st.graph) {id : Nat} (hnumber : id < 2 ^ 32) :
    RowsInv (deleteNode st id).2.graph := by
  cases hget : st.graph.nodes[id]? with
  | none =>
    have hsame : (deleteNode st id).2 = st := by simp only [deleteNode, hget]
    rw [hsame]
    exact h
  | some removed =>
    obtain ⟨front, last, hnodes, hid⟩ := exists_concat_of_getElem? hget
    have hold : ∀ n ∈ front ++ [last], n ∈ st.graph.nodes := by
      rw [hnodes]
      exact fun n hn => hn
    have hmem : ∀ n' ∈ front.set id { last with id := id }, ∃ n ∈ st.graph.nodes,
        n'.fileId = n.fileId ∧ n'.line = n.line := by
      intro n' hn'
      rcases List.mem_or_eq_of_mem_set hn' with hfront | rfl
      · exact ⟨n', hold n' (List.mem_append_left _ hfront), rfl, rfl⟩
      · exact ⟨last, hold last (by simp), rfl, rfl⟩
    rw [deleteNode_eq hnodes hget]
    refine ⟨?_, ?_, h.filesNodup, h.filesNamed, ?_⟩
    · intro j n' hn'
      rw [List.getElem?_set] at hn'
      split at hn'
      · rename_i heq
        split at hn'
        · obtain rfl := Option.some.inj hn'
          rw [← heq, asU32_of_lt hnumber]
        · cases hn'
      · have hlt : j < front.length := (List.getElem?_eq_some_iff.mp hn').1
        apply h.ids
        rw [hnodes, List.getElem?_append_left hlt, hn']
    · intro n' hn' f hf
      obtain ⟨n, hn, hfile, -⟩ := hmem n' hn'
      exact h.fileIds n hn f (hfile ▸ hf)
    · intro n' hn'
      obtain ⟨n, hn, -, hline⟩ := hmem n' hn'
      rw [hline]
      exact h.lines n hn

theorem GraphInv.of_deleteNode (h : GraphInv st) {symbol : String} {id : Nat}
    (hindex : st.symbolToId symbol = some id) : GraphInv (deleteNode st id).2 := by
  obtain ⟨hsne, removed, hget, hsym⟩ := h.node_of_index hindex
  obtain ⟨front, last, hnodes, hid⟩ := exists_concat_of_getElem? hget
  have hgraph : (deleteNode st id).2.graph.nodes = front.set id { last with id := id } := by
    rw [deleteNode_eq hnodes hget]
  have hlen : front.length + 1 ≤ 2 ^ 32 := by
    have hsmall := h.small
    rwa [hnodes, List.length_append, List.length_singleton] at hsmall
  have hrows : RowsInv (deleteNode st id).2.graph := h.rows.of_deleteNode (by omega)
  apply hrows.graphInv
  · rw [hgraph, List.length_set]
    omega
  · intro s j
    rw [h.deleteNode_symbolToId hnodes hget, hgraph, Option.bind_eq_some_iff]
    constructor
    · rintro ⟨i, hs, hi⟩
      obtain ⟨hne, n, hn, hns⟩ := h.node_of_index hs
      split at hi
      · cases hi
      · rename_i hine
        obtain rfl := Option.some.inj hi
        exact ⟨hne, _, h.getElem?_moveTo hnodes hid hine hn, hns⟩
    · rintro ⟨hne, n', hn', hs⟩
      obtain ⟨i, n, hine, hn, hj, rfl⟩ := h.exists_of_getElem?_set hnodes hn'
      exact ⟨i, (h.index s i).mpr ⟨hne, n, hn, hs⟩, by rw [if_neg hine, hj]⟩
  -- An edge that stays has both ends at nodes that stay.
  · intro e' he'
    rw [hgraph]
    rw [deleteNode_edges hnodes hget h.small] at he'
    obtain ⟨e, he, rfl⟩ := List.mem_map.mp he'
    rw [List.mem_filter] at he
    have hends : e.src ≠ id ∧ e.dst ≠ id := by simpa using he.2
    obtain ⟨⟨s, hs, hsn⟩, d, hd, hdn⟩ := h.edges e he.1
    exact ⟨⟨_, h.getElem?_moveTo hnodes hid hends.1 hs, hsn⟩, _,
      h.getElem?_moveTo hnodes hid hends.2 hd, hdn⟩

/-! ### All events -/

theorem GraphInv.step (h : GraphInv st) (call : RustcEvent × Bool) (hfits : NodeFits st call) :
    GraphInv (graphMachine.step st call) := by
  obtain ⟨event, clear⟩ := call
  show GraphInv (applyRustcEventToGraph event st clear).2
  unfold applyRustcEventToGraph
  cases event with
  | sessionStart project =>
    cases clear with
    | true => exact .empty
    | false => exact h
  | nodeDefined symbol kind file line =>
    exact h.of_applyNode symbol kind file line fun hcounts => hfits symbol file (if_pos hcounts)
  | nodeUpdated symbol kind file line =>
    exact h.of_applyNode symbol kind file line fun hcounts => hfits symbol file (if_pos hcounts)
  | nodeRemoved symbol =>
    simp only
    split
    · exact h
    · rename_i id hid
      exact h.of_deleteNode hid
  | edgeDefined src dst kind =>
    simp only
    split
    · exact h
    · rename_i s d hends
      rw [GraphState.ends_eq_some] at hends
      apply h.withEdges
      intro e he
      rcases List.mem_append.mp he with he | he
      · exact .inl he
      · rw [List.mem_singleton] at he
        subst he
        exact .inr ⟨src, dst, hends⟩
  | edgeRemoved src dst kind =>
    simp only
    split
    · exact h
    · apply h.withEdges
      intro e he
      exact .inl (List.mem_of_mem_filter he)
  | fileSeen path =>
    simp only
    split
    · exact h
    · rename_i hnew
      exact (h.rows.of_fileSeen hnew).graphInv h.small h.index h.edges
  | callsiteObserved | symbolDefined | spanDefined | panicCaptured | warningCaptured
  | compilationUnitFinished | invariantViolation => exact h

end Steps

/-! ### Consistency of every projection -/

/-- Positions, numbers, symbols and index agree; edges and file numbers point to
    something; no file is listed twice. -/
structure Consistent (st : GraphState) : Prop where
  ids : ∀ i (n : CodeGraphNode), st.graph.nodes[i]? = some n → n.id = i
  distinct : ((st.graph.nodes.map (·.symbol)).filter (· ≠ "")).Nodup
  index : ∀ symbol id, st.symbolToId symbol = some id ↔
    symbol ≠ "" ∧ ∃ n ∈ st.graph.nodes, n.symbol = symbol ∧ n.id = id
  edges : ∀ e ∈ st.graph.edges,
    e.src < st.graph.nodes.length ∧ e.dst < st.graph.nodes.length
  fileIds : ∀ n ∈ st.graph.nodes, ∀ f, n.fileId = some f → f < st.graph.files.length
  files : st.graph.files.Nodup

theorem GraphInv.consistent {st : GraphState} (h : GraphInv st) : Consistent st where
  ids := h.ids
  distinct := by
    rw [List.nodup_iff_pairwise_ne, List.pairwise_filter, List.pairwise_map,
      List.pairwise_iff_getElem]
    -- Two positions with one symbol would be one entry of the index.
    intro i j hi hj hij hne _ heq
    have hone := h.eq_of_symbol (List.getElem?_eq_getElem hi) (List.getElem?_eq_getElem hj) heq
      (by simpa using hne)
    omega
  index := by
    intro symbol id
    rw [h.index]
    constructor
    · rintro ⟨hne, n, hn, hs⟩
      exact ⟨hne, n, List.mem_of_getElem? hn, hs, h.ids id n hn⟩
    · rintro ⟨hne, n, hn, hs, rfl⟩
      obtain ⟨i, hi⟩ := List.mem_iff_getElem?.mp hn
      rw [h.ids i n hi]
      exact ⟨hne, n, hi, hs⟩
  edges := by
    intro e he
    obtain ⟨⟨s, hs, -⟩, d, hd, -⟩ := h.edges e he
    exact ⟨(List.getElem?_eq_some_iff.mp hs).1, (List.getElem?_eq_some_iff.mp hd).1⟩
  fileIds := h.fileIds
  files := h.filesNodup

theorem GraphInv.run {st : GraphState} (h : GraphInv st) {calls : List (RustcEvent × Bool)}
    (hfits : graphMachine.Along NodeFits st calls) : GraphInv (graphMachine.run st calls) :=
  graphMachine.run_invariant_of_along (fun _ call h hfits => h.step call hfits) h hfits

/-- A new node in a consistent projection has a number of its own. -/
theorem Consistent.nodeFits {st : GraphState} {call : RustcEvent × Bool}
    (h : Consistent (graphMachine.step st call)) : NodeFits st call := by
  obtain ⟨event, clear⟩ := call
  intro symbol file hnode hfind
  have hpush : ∃ kind line, graphMachine.step st (event, clear) =
      pushNode st symbol kind file line := by
    cases event with
    | nodeDefined s kind f line | nodeUpdated s kind f line =>
      have hsome :
        (if countsAsNode s kind then some (s, f) else none) = some (symbol, file) := hnode
      split at hsome
      · rename_i hcounts
        cases hsome
        exact ⟨kind, line, applyNode_of_new hcounts hfind file line⟩
      · cases hsome
    | _ => cases hnode
  obtain ⟨kind, line, hpush⟩ := hpush
  rw [hpush] at h
  have hid : asU32 st.graph.nodes.length = st.graph.nodes.length :=
    h.ids st.graph.nodes.length _ (by simp only [pushNode]; exact List.getElem?_concat_length)
  rw [← hid]
  exact asU32_lt _

/-- **The projection stays consistent** from the empty one on, whatever is done at session
    starts, exactly as long as every new node has a number of its own. -/
theorem projection_consistent_iff (calls : List (RustcEvent × Bool)) :
    graphMachine.Throughout Consistent .empty calls ↔
      graphMachine.Along NodeFits .empty calls := by
  constructor
  · intro h
    exact graphMachine.along_of_throughout (fun _ _ hnext => hnext.nodeFits) h
  · rintro h taken ⟨rest, rfl⟩
    exact (GraphInv.empty.run ((graphMachine.along_append ..).mp h).1).consistent

/-! ### As many modules as numbers -/

/-- A module without a symbol, as an event and as a node. -/
def anonymousModule : RustcEvent × Bool := (.nodeDefined "" "MODULE" "" 0, false)

def anonymousNode (id : Nat) : CodeGraphNode :=
  { id := id, kind := "MODULE", symbol := "", fileId := none, line := none }

theorem run_anonymousModule (count : Nat) :
    graphMachine.run .empty (List.replicate count anonymousModule) =
      { graph :=
          { nodes := (List.range count).map fun i => anonymousNode (asU32 i)
            edges := []
            files := [] }
        symbolToId := FMap.empty } := by
  induction count with
  | zero => rfl
  | succ count ih =>
    rw [List.replicate_succ', Machine.run_snoc, ih, List.range_succ, List.map_append]
    show pushNode _ "" "MODULE" "" 0 = _
    simp [pushNode, anonymousNode, lineOf]

theorem not_consistent_anonymousModule {count : Nat} (hcount : 2 ^ 32 < count) :
    ¬ Consistent (graphMachine.run .empty (List.replicate count anonymousModule)) := by
  rw [run_anonymousModule]
  intro h
  have hid := h.ids (2 ^ 32) (anonymousNode (asU32 (2 ^ 32))) (by
    rw [List.getElem?_map, List.getElem?_range hcount, Option.map_some])
  have hlt := asU32_lt (2 ^ 32)
  exact absurd hid (Nat.ne_of_lt hlt)

/-- The last of 2 ^ 32 + 1 modules gets the number of the first. -/
theorem number_given_twice :
    ¬ Consistent (graphMachine.run .empty (List.replicate (2 ^ 32 + 1) anonymousModule)) :=
  not_consistent_anonymousModule (Nat.lt_succ_self _)

end Canon.Graph
